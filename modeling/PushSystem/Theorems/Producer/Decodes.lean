import PushSystem.Theorems.Audience.Real
import PushSystem.Theorems.Producer.Sends
import PushSystem.Theorems.Producer.Ranges

/-! What a request decodes. Its messages are the set bits of the bytes it has copied from the bitmap that its
    `GETRANGE` has read, and it is answered once the broker has accepted all of them. -/

namespace PushSystem
open Redis Bitmap Prog

/-! ### The copy of the range -/

/-- The calls are answered by a Redis in which `TMP_USER_INFO_KEY` holds the bitmap. -/
def AnsweredFrom (bitmap : List Byte) : (o : ProduceMsgOp) → o.Ret → Prop
  | .redis (.getrange _ first last), some reply => reply = .str (getRange bitmap first last)
  | .copy str len, bytes => ∃ memory, bytes = copyBytes (str.getD []) len.toNat memory
  | _, _ => True

/-- `userInfoStr` is the range of the request, copied from the bitmap. -/
def ProduceMsgRequest.CopiedFrom (request : ProduceMsgRequest) (bitmap userInfoStr : List Byte) : Prop :=
  ∃ memory, userInfoStr = copyBytes (getRange bitmap (request.startUid / 8).toNat (request.endUid / 8).toNat)
    (request.endUid / 8 - request.startUid / 8 + 1).toNat memory

/-- No Redis command follows an answered `GETRANGE`. -/
def ReadsLast {α : Type} (o : ProduceMsgOp) (k : o.Ret → ProduceMsgProg α) : Prop :=
  ∀ r, AnswersRead o r → (k r).Everywhere fun o _ => ∀ cmd, o ≠ .redis cmd

section Fetch
variable {request : ProduceMsgRequest} {bitmap : List Byte} {startUid endUid : UInt64}

theorem yields_fetchUserInfoStr_copiedFrom (request : ProduceMsgRequest) (bitmap : List Byte) :
    (fetchUserInfoStr request.startUid request.endUid).Yields (AnsweredFrom bitmap) fun r =>
      ∀ userInfoStr, r = some userInfoStr → request.CopiedFrom bitmap userInfoStr := by
  have hread : (readUserInfoStr request.startUid request.endUid).Yields (AnsweredFrom bitmap) fun r =>
      ∀ userInfoStr, r = some userInfoStr → request.CopiedFrom bitmap userInfoStr := by
    intro reply hreply
    cases reply with
    | none => exact fun _ _ _ h => by cases h
    | some reply =>
      obtain rfl : reply = _ := hreply
      rintro userInfoStr ⟨memory, hcopy⟩ _ _ _ _ _ h
      obtain rfl := Option.some.inj h
      exact ⟨memory, hcopy⟩
  intro _ _ reply _
  cases reply with
  | none => exact fun _ _ _ h => by cases h
  | some reply =>
    intro _ _
    show Yields _ _ (if reply.toInteger = 0 then _ else _)
    split
    · refine yields_bind (yields_of_forall fun ok => ?_)
      cases ok with
      | false => exact fun _ h => by cases h
      | true => exact hread
    · exact hread

theorem everywhere_createTmpUserInfoKey_readsNothing :
    createTmpUserInfoKey.Everywhere fun o _ => ∀ r, ¬AnswersRead o r := by
  have hunlock : (ProduceMsgProg.unlock >>= fun _ => return false : ProduceMsgProg Bool).Everywhere
      fun o _ => ∀ r, ¬AnswersRead o r := ⟨fun _ h => h, fun _ => trivial⟩
  refine ⟨fun _ h => h, fun reply => ?_⟩
  cases reply with
  | none => exact hunlock
  | some reply =>
    show Everywhere _ (if reply.toInteger ≤ 0 then _ else _)
    split
    · exact hunlock
    · refine ⟨fun _ h => h, fun _ => ⟨fun _ h => h, fun reply => ?_⟩⟩
      cases reply with
      | none => exact hunlock
      | some reply =>
        show Everywhere _ (if reply.toInteger = 0 then _ else _)
        split
        · exact hunlock
        · exact ⟨fun _ h => h, fun _ => trivial⟩

theorem everywhere_fetchUserInfoStr_readsLast :
    (fetchUserInfoStr startUid endUid).Everywhere fun o k => ReadsLast o k := by
  have hunlock : (ProduceMsgProg.unlock >>= fun _ => return none : ProduceMsgProg (Option (List Byte))).Everywhere
      fun o k => ReadsLast o k := ⟨fun _ h => h.elim, fun _ => trivial⟩
  have hread : (readUserInfoStr startUid endUid).Everywhere fun o k => ReadsLast o k := by
    refine ⟨fun reply hreply => ?_, fun reply => ?_⟩
    · cases reply with
      | none => exact hreply.elim
      | some => exact ⟨by simp, fun _ => ⟨by simp, fun _ => ⟨by simp, fun _ => trivial⟩⟩⟩
    · cases reply with
      | none => exact hunlock
      | some => exact ⟨fun _ h => h.elim, fun _ => ⟨fun _ h => h.elim, fun _ => ⟨fun _ h => h.elim, fun _ => trivial⟩⟩⟩
  refine ⟨fun _ h => h.elim, fun _ => ⟨fun _ h => h.elim, fun reply => ?_⟩⟩
  cases reply with
  | none => exact hunlock
  | some reply =>
    refine ⟨fun _ h => h.elim, fun _ => ?_⟩
    show Everywhere _ (if reply.toInteger = 0 then _ else _)
    split
    · refine everywhere_bind_of everywhere_createTmpUserInfoKey_readsNothing
        (fun o k hnone r hr => absurd hr (hnone r)) fun ok => ?_
      cases ok with
      | false => trivial
      | true => exact hread
    · exact hread

/-- Tries keep what a call is answered, but for the `GETRANGE`, which the stores answer. -/
theorem answeredFrom_of_try {o : ProduceMsgOp} {n : Nat} {c d : ProduceMsgCallData} {r : o.Ret}
    (hm : produceMsgTry o n c (some r) d) (hr : ¬AnswersRead o r) : AnsweredFrom bitmap o r := by
  obtain ⟨outcome, hm⟩ := hm
  cases o with
  | copy str len =>
    cases outcome <;> simp [ProduceMsgOp.attempt] at hm
    exact ⟨_, hm.2.1.symm⟩
  | redis cmd =>
    cases cmd with
    | getrange =>
      cases r with
      | none => trivial
      | some => exact absurd trivial hr
    | del | existsKey | setrange | rename | bitop | bitcount | expire => trivial
  | lock | unlock | freeReply | setWaitForSendCount | send | finish => trivial

end Fetch

theorem length_copyBytes {str : List Byte} {len : Nat} {memory : Nat → Byte} : (copyBytes str len memory).length = len := by
  simp [copyBytes]

/-- The bits of a byte that is copied from the reply. -/
theorem testBit_copyBytes {str : List Byte} {len i : Nat} {memory : Nat → Byte} (hlen : i / 8 < len)
    (hstr : i / 8 < str.length) : testBit (copyBytes str len memory) i = testBit str i := by
  simp [testBit, copyBytes, hlen, hstr]

section Aligned
variable {request : ProduceMsgRequest} {bitmap userInfoStr : List Byte}

/-- The uids of a range that starts at a byte are uids of its bytes, also if it ends past the bitmap. -/
theorem ProduceMsgRequest.CopiedFrom.range (h : request.CopiedFrom bitmap userInfoStr)
    (hle : request.startUid ≤ request.endUid) (hstart : request.startUid.toNat % 8 = 0) {uid : UInt64}
    (huid : uid ∈ uidsToSend request.startUid userInfoStr) :
    request.startUid ≤ uid ∧ uid.toNat / 8 ≤ request.endUid.toNat / 8 := by
  obtain ⟨memory, rfl⟩ := h
  have hend := request.endUid.toNat_lt
  have hlen : (copyBytes (getRange bitmap (request.startUid / 8).toNat (request.endUid / 8).toNat)
      (request.endUid / 8 - request.startUid / 8 + 1).toNat memory).length =
        request.endUid.toNat / 8 + 1 - request.startUid.toNat / 8 := by
    rw [length_copyBytes, byteCount_toNat hle]
  rw [UInt64.le_iff_toNat_le] at hle
  obtain ⟨hge, hbit⟩ := ((uidsToSend_of_fits (by omega)).2 uid).mp huid
  refine ⟨hge, ?_⟩
  rw [UInt64.le_iff_toNat_le] at hge
  by_contra hgt
  rw [testBit_eq_false (by omega)] at hbit
  cases hbit

/-- A uid inside the bitmap has its bit set, also if the range ends past the bitmap. -/
theorem ProduceMsgRequest.CopiedFrom.bit (h : request.CopiedFrom bitmap userInfoStr)
    (hle : request.startUid ≤ request.endUid) (hstart : request.startUid.toNat % 8 = 0) {uid : UInt64}
    (huid : uid ∈ uidsToSend request.startUid userInfoStr) (hin : uid.toNat / 8 < bitmap.length) :
    testBit bitmap uid.toNat := by
  obtain ⟨hge, hbyte⟩ := h.range hle hstart huid
  obtain ⟨memory, rfl⟩ := h
  have hend := request.endUid.toNat_lt
  have hcount := byteCount_toNat hle
  rw [UInt64.le_iff_toNat_le] at hle hge
  have hrange : (getRange bitmap (request.startUid.toNat / 8) (request.endUid.toNat / 8)).length =
      min (request.endUid.toNat / 8 + 1 - request.startUid.toNat / 8) (bitmap.length - request.startUid.toNat / 8) :=
    length_getRange
  rw [hcount, div_eight_toNat, div_eight_toNat] at huid
  have hbit := (((uidsToSend_of_fits (by rw [length_copyBytes]; omega)).2 uid).mp huid).2
  rw [testBit_copyBytes (by omega) (by omega), testBit_getRange, Bool.and_eq_true] at hbit
  have hsum : 8 * (request.startUid.toNat / 8) + (uid.toNat - request.startUid.toNat) = uid.toNat := by omega
  exact hsum ▸ hbit.2

/-- The uids of a range that starts at a byte and ends inside the bitmap: those of its bytes whose bit is set. -/
theorem ProduceMsgRequest.CopiedFrom.uids (h : request.CopiedFrom bitmap userInfoStr)
    (hle : request.startUid ≤ request.endUid) (hstart : request.startUid.toNat % 8 = 0)
    (hin : request.endUid.toNat / 8 < bitmap.length) :
    (uidsToSend request.startUid userInfoStr).Nodup ∧
      ∀ uid, uid ∈ uidsToSend request.startUid userInfoStr ↔
        request.startUid ≤ uid ∧ uid.toNat / 8 ≤ request.endUid.toNat / 8 ∧ testBit bitmap uid.toNat := by
  obtain ⟨memory, rfl⟩ := h
  have hlen := length_getRange_of_inside request.startUid hin
  have hend := request.endUid.toNat_lt
  rw [copyBytes_getRange hle hin]
  rw [UInt64.le_iff_toNat_le] at hle
  have hfits : request.startUid.toNat +
      8 * (getRange bitmap (request.startUid.toNat / 8) (request.endUid.toNat / 8)).length ≤ 2 ^ 64 := by omega
  obtain ⟨hsorted, hmem⟩ := uidsToSend_of_fits hfits
  refine ⟨hsorted.imp UInt64.ne_of_lt, fun uid => (hmem uid).trans ?_⟩
  rw [testBit_getRange, Bool.and_eq_true, decide_eq_true_eq, UInt64.le_iff_toNat_le]
  refine and_congr_right fun hge => ?_
  have hbit : 8 * (request.startUid.toNat / 8) + (uid.toNat - request.startUid.toNat) = uid.toNat := by omega
  rw [hbit]
  refine and_congr_left fun _ => ?_
  omega

end Aligned

/-! ### After the copy -/

/-- A call that is to be tried again has changed nothing. -/
theorem eq_of_retry {o : ProduceMsgOp} {n : Nat} {c d : ProduceMsgCallData} {outcome : Outcome}
    (hm : o.attempt n c outcome = some (none, d)) : d = c := by
  cases o with
  | send body =>
    cases outcome <;> simp [ProduceMsgOp.attempt] at hm
    exact hm.symm
  | setWaitForSendCount | finish => cases outcome <;> simp [ProduceMsgOp.attempt] at hm
  | lock | unlock | redis | freeReply | copy => exact eq_of_quiet (by trivial) ⟨_, hm⟩

theorem Handler.request_of_call {h h' : Handler} {outcome : Outcome} (hc : h.call outcome = some h') :
    h'.data.request = h.data.request := by
  obtain ⟨o, k, n, -, ⟨hm, -⟩ | ⟨r, hm, -⟩⟩ := Handler.call_cases hc
  · rw [eq_of_retry hm]
  · cases o with
    | setWaitForSendCount | send =>
      cases outcome <;> simp [ProduceMsgOp.attempt] at hm
      rw [← hm]
    | finish =>
      cases outcome <;> simp [ProduceMsgOp.attempt] at hm
      rw [← hm, ProduceMsgCallData.finish]
    | lock | unlock | redis | freeReply | copy => rw [eq_of_quiet (by trivial) ⟨_, hm⟩]

theorem sendsLeft_call_of_ne {α : Type} {o : ProduceMsgOp} {k : o.Ret → ProduceMsgProg α} (ho : ∀ body, o ≠ .send body) :
    sendsLeft (.call o k) = [] := by
  cases o with
  | send body => exact absurd rfl (ho body)
  | lock | unlock | redis | freeReply | copy | setWaitForSendCount | finish => rfl

/-- Only `AsyncProducerWorker` takes a message off those that are left, and no Redis command is made. -/
structure Sending {α : Type} (o : ProduceMsgOp) (k : o.Ret → ProduceMsgProg α) : Prop where
  noRedis : ∀ cmd, o ≠ .redis cmd
  left : (∀ body, o ≠ .send body) → ∀ r, sendsLeft (k r) = []

theorem everywhere_sendAll_sending (msgId : UInt32) (uids : List UInt64) :
    (sendAll msgId uids >>= fun _ => (return .success : ProduceMsgProg ErrCode)).Everywhere fun o k => Sending o k := by
  induction uids with
  | nil => trivial
  | cons uid uids ih => exact ⟨⟨by simp, fun h => absurd rfl (h _)⟩, fun _ => ih⟩

/-- Where the thread of a request is, what its `GETRANGE` has read, and which messages that gives. -/
inductive Handler.Decodes (bitmap : Option (List Byte)) (h : Handler) : Prop where
  | reading {prog} (hprog : h.thread.prog = prog >>= h.data.request.afterFetch) (hfresh : Fresh h.data)
    (hquiet : prog.Everywhere fun o _ => o.Quiet) (hlast : prog.Everywhere fun o k => ReadsLast o k)
    (hnone : prog.Yields (fun o r => ¬AnswersRead o r) fun r => r = none)
    (hcopied : ∀ bytes, prog.Yields (AnsweredFrom bytes) fun r =>
      ∀ userInfoStr, r = some userInfoStr → h.data.request.CopiedFrom bytes userInfoStr)
  | read {prog bytes} (hbitmap : bitmap = some bytes) (hprog : h.thread.prog = prog >>= h.data.request.afterFetch)
    (hfresh : Fresh h.data) (hquiet : prog.Everywhere fun o _ => o.Quiet)
    (hlast : prog.Everywhere fun o _ => ∀ cmd, o ≠ .redis cmd)
    (hcopied : prog.Yields (AnsweredFrom bytes) fun r =>
      ∀ userInfoStr, r = some userInfoStr → h.data.request.CopiedFrom bytes userInfoStr)
  | decoded {bytes userInfoStr} (hbitmap : bitmap = some bytes)
    (hcopied : h.data.request.CopiedFrom bytes userInfoStr)
    (hmessages : h.messages = h.data.request.messagesTo (uidsToSend h.data.request.startUid userInfoStr))
    (hsending : h.thread.prog.Everywhere fun o k => Sending o k)
    (hsuccess : h.thread.prog.Yields (fun _ _ => True) fun code => code = .success)

section Decodes
variable {bitmap bitmap' : Option (List Byte)} {h h' : Handler}

theorem Handler.decodes_new (request : ProduceMsgRequest) :
    Handler.Decodes bitmap ⟨{ request := request }, ⟨produceMsg request, 0⟩⟩ :=
  .reading (produceMsg_eq request) ⟨rfl, rfl, rfl⟩ (everywhere_fetchUserInfoStr.mono fun _ ho => ho.quiet)
    everywhere_fetchUserInfoStr_readsLast yields_fetchUserInfoStr_none
    fun bytes => yields_fetchUserInfoStr_copiedFrom request bytes

/-- Setting the counter ends the decoding. -/
theorem Handler.Decodes.counterSet {bytes userInfoStr : List Byte} {n : Nat} {r : Unit} (hbitmap : bitmap = some bytes)
    (hcopied : h.data.request.CopiedFrom bytes userInfoStr) (hfresh : Fresh h.data)
    (hm : produceMsgTry (.setWaitForSendCount
      (UInt32.ofNat (uidsToSend h.data.request.startUid userInfoStr).length)) n h.data (some r) h'.data)
    (hprog : h'.thread.prog = if (uidsToSend h.data.request.startUid userInfoStr).length ≠ 0 then
        sendAll h.data.request.msgId (uidsToSend h.data.request.startUid userInfoStr) >>= fun _ => return .success
      else ProduceMsgProg.finish >>= fun _ => return .success) : h'.Decodes bitmap := by
  obtain ⟨outcome, hm⟩ := hm
  have hdata : h'.data = { h.data with
      waitForSendCount := UInt32.ofNat (uidsToSend h.data.request.startUid userInfoStr).length } := by
    cases outcome <;> simp [ProduceMsgOp.attempt] at hm
    exact hm.symm
  have hrequest : h'.data.request = h.data.request := by rw [hdata]
  have hsends : h'.data.sends = [] := by rw [hdata]; exact hfresh.sends
  rw [← hrequest] at hcopied hprog
  split at hprog
  next hne =>
    refine .decoded hbitmap hcopied ?_ (hprog ▸ everywhere_sendAll_sending _ _)
      (hprog ▸ yields_bind (yields_of_forall fun _ => rfl))
    rw [Handler.messages, hsends, hprog, sendsLeft_sendAll]
    rfl
  next hzero =>
    refine .decoded hbitmap hcopied ?_ (hprog ▸ ⟨⟨by simp, fun _ _ => rfl⟩, fun _ => trivial⟩)
      (hprog ▸ fun _ _ => rfl)
    rw [Handler.messages, hsends, hprog, List.length_eq_zero_iff.mp (not_not.mp hzero)]
    rfl

/-- A step of the thread. The bitmap changes with a Redis command only, and an answered `GETRANGE` is answered from
    the new one. -/
theorem Handler.Decodes.call {outcome : Outcome} (hd : h.Decodes bitmap) (hc : h.call outcome = some h')
    (hkeep : (∀ cmd, h.next ≠ some (.redis cmd)) → bitmap' = bitmap)
    (hread : ∀ o k n r, h.thread.prog = .call o k → o.attempt n h.data outcome = some (some r, h'.data) →
      AnswersRead o r → ∃ bytes, bitmap' = some bytes ∧ AnsweredFrom bytes o r) : h'.Decodes bitmap' := by
  obtain ⟨o, k, n, hprog, hcases⟩ := Handler.call_cases hc
  have hkept : (∀ cmd, o ≠ .redis cmd) → bitmap' = bitmap := fun ho => hkeep (by
    rw [Handler.next, hprog]
    simpa using ho)
  cases hd with
  | @reading prog heq hfresh hquiet hlast hnone hcopied =>
    cases prog with
    | pure r =>
      obtain rfl : r = none := hnone
      cases hprog.symm.trans heq
    | call o' k' =>
      obtain ⟨rfl, hk⟩ := Prog.call.inj (hprog.symm.trans heq)
      obtain rfl := eq_of_heq hk
      rcases hcases with ⟨hm, hp⟩ | ⟨r, hm, hp⟩
      · have hdata := eq_of_quiet hquiet.1 ⟨_, hm⟩
        rw [← hdata] at hfresh hp hcopied
        exact @Handler.Decodes.reading _ _ (.call o k') hp hfresh hquiet hlast hnone hcopied
      · have hdata := eq_of_quiet hquiet.1 ⟨_, hm⟩
        by_cases hr : AnswersRead o r
        · obtain ⟨bytes, hbitmap, hanswer⟩ := hread o _ n r hprog hm hr
          rw [← hdata] at hfresh hp hcopied
          exact .read hbitmap hp hfresh (hquiet.2 r) (hlast.1 r hr) (hcopied bytes r hanswer)
        · rw [← hdata] at hfresh hp hcopied
          exact .reading hp hfresh (hquiet.2 r) (hlast.2 r) (hnone r hr)
            fun bytes => hcopied bytes r (answeredFrom_of_try ⟨_, hm⟩ hr)
  | @read prog bytes hbitmap heq hfresh hquiet hlast hcopied =>
    cases prog with
    | pure r =>
      cases r with
      | none => cases hprog.symm.trans heq
      | some userInfoStr =>
        obtain ⟨rfl, hk⟩ := Prog.call.inj (hprog.symm.trans heq)
        obtain rfl := eq_of_heq hk
        rcases hcases with ⟨hm, -⟩ | ⟨r, hm, hp⟩
        · cases outcome <;> simp [ProduceMsgOp.attempt] at hm
        · exact .counterSet ((hkept (by simp)).trans hbitmap) (hcopied _ rfl) hfresh ⟨_, hm⟩ hp
    | call o' k' =>
      obtain ⟨rfl, hk⟩ := Prog.call.inj (hprog.symm.trans heq)
      obtain rfl := eq_of_heq hk
      have hbitmap' := (hkept hlast.1).trans hbitmap
      rcases hcases with ⟨hm, hp⟩ | ⟨r, hm, hp⟩
      · have hdata := eq_of_quiet hquiet.1 ⟨_, hm⟩
        rw [← hdata] at hfresh hp hcopied
        exact @Handler.Decodes.read _ _ (.call o k') bytes hbitmap' hp hfresh hquiet hlast hcopied
      · have hdata := eq_of_quiet hquiet.1 ⟨_, hm⟩
        have hanswer : AnsweredFrom bytes o r := answeredFrom_of_try ⟨_, hm⟩ fun hr => by
          cases o with
          | redis cmd => exact hlast.1 cmd rfl
          | lock | unlock | freeReply | copy | setWaitForSendCount | send | finish => exact hr
        rw [← hdata] at hfresh hp hcopied
        exact .read hbitmap' hp hfresh (hquiet.2 r) (hlast.2 r) (hcopied r hanswer)
  | decoded hbitmap hcopied hmessages hsending hsuccess =>
    rw [hprog] at hsending hsuccess
    have hbitmap' := (hkept hsending.1.noRedis).trans hbitmap
    have hrequest : h'.data.request = h.data.request := Handler.request_of_call hc
    have hsame : h'.messages = h.messages ∧ (h'.thread.prog.Everywhere fun o k => Sending o k) ∧
        h'.thread.prog.Yields (fun _ _ => True) fun code => code = .success := by
      rcases hcases with ⟨hm, hp⟩ | ⟨r, hm, hp⟩
      · rw [Handler.messages, Handler.messages, hp, hprog]
        exact ⟨by rw [eq_of_retry hm], hsending, hsuccess⟩
      · refine ⟨?_, hp ▸ hsending.2 r, hp ▸ hsuccess r trivial⟩
        by_cases ho : ∃ body, o = .send body
        · obtain ⟨body, rfl⟩ := ho
          rcases send_of_try ⟨_, hm⟩ with ⟨hr, -⟩ | ⟨-, hdata⟩
          · cases hr
          · rw [Handler.messages, Handler.messages, hdata, hp, hprog]
            simp [sendsLeft]
        · have ho : ∀ body, o ≠ .send body := fun body h => ho ⟨body, h⟩
          rw [Handler.messages, Handler.messages, sends_of_try ho ⟨_, hm⟩, hp, hprog, hsending.1.left ho r,
            sendsLeft_call_of_ne ho]
    refine .decoded hbitmap' (hrequest ▸ hcopied) ?_ hsame.2.1 hsame.2.2
    rw [hsame.1, hmessages, hrequest]

theorem Handler.Decodes.broker {e : BrokerEvent} {data : ProduceMsgCallData} (hd : h.Decodes bitmap)
    (hb : h.data.broker e = some data) : Handler.Decodes bitmap { h with data } := by
  obtain ⟨-, -, -, -, -, -, hrequest, -⟩ := ProduceMsgCallData.broker_sends hb
  cases hd with
  | reading hprog hfresh hquiet hlast hnone hcopied =>
    rw [← hrequest] at hprog hcopied
    exact .reading hprog (hfresh.broker (Broker.of_event hb)) hquiet hlast hnone hcopied
  | read hbitmap hprog hfresh hquiet hlast hcopied =>
    rw [← hrequest] at hprog hcopied
    exact .read hbitmap hprog (hfresh.broker (Broker.of_event hb)) hquiet hlast hcopied
  | decoded hbitmap hcopied hmessages hsending hsuccess =>
    rw [← hrequest] at hcopied hmessages
    exact .decoded hbitmap hcopied ((Handler.broker_messages hb).trans hmessages) hsending hsuccess

/-- A request that has returned an error has sent nothing and is not answered. -/
theorem Handler.Decodes.fresh (hd : h.Decodes bitmap) (herr : h.thread.prog = .pure .err) : Fresh h.data := by
  cases hd with
  | reading _ hfresh => exact hfresh
  | read _ _ hfresh => exact hfresh
  | decoded _ _ _ _ hsuccess =>
    rw [herr] at hsuccess
    cases hsuccess

end Decodes

/-! ### Answers -/

/-- A request is answered `SUCCESS` or not at all. -/
def ProduceMsgCallData.OnlySuccess (c : ProduceMsgCallData) : Prop := ∀ reply ∈ c.finished, reply = ⟨.success⟩

section OnlySuccess
variable {c d : ProduceMsgCallData} {h h' : Handler}

theorem ProduceMsgCallData.OnlySuccess.finish (hs : c.OnlySuccess) : c.finish.OnlySuccess := by
  intro reply hr
  rcases List.mem_append.mp hr with hr | hr
  · exact hs reply hr
  · exact List.mem_singleton.mp hr

theorem ProduceMsgCallData.OnlySuccess.call {outcome : Outcome} (hs : h.data.OnlySuccess) (hc : h.call outcome = some h') :
    h'.data.OnlySuccess := by
  obtain ⟨o, k, n, -, ⟨hm, -⟩ | ⟨r, hm, -⟩⟩ := Handler.call_cases hc
  · rw [eq_of_retry hm]
    exact hs
  · cases o with
    | setWaitForSendCount | send =>
      cases outcome <;> simp [ProduceMsgOp.attempt] at hm
      rw [← hm]
      exact hs
    | finish =>
      cases outcome <;> simp [ProduceMsgOp.attempt] at hm
      rw [← hm]
      exact hs.finish
    | lock | unlock | redis | freeReply | copy =>
      rw [eq_of_quiet (by trivial) ⟨_, hm⟩]
      exact hs

theorem ProduceMsgCallData.OnlySuccess.broker {e : BrokerEvent} (hs : c.OnlySuccess) (hb : c.broker e = some d) :
    d.OnlySuccess := by
  cases Broker.of_event hb with
  | thrown => exact hs
  | moved => exact hs
  | acked =>
    unfold ProduceMsgCallData.notifyOne
    split
    · exact ProduceMsgCallData.OnlySuccess.finish (c := c.setStage _ _ _) hs
    · exact hs

end OnlySuccess

/-- The broker has accepted a message to each set bit of the range, and no others were sent. -/
structure Handler.Served (bitmap : List Byte) (h : Handler) : Prop where
  sent : ∃ userInfoStr, h.data.request.CopiedFrom bitmap userInfoStr ∧
    h.data.sends.map (·.body) = h.data.request.messagesTo (uidsToSend h.data.request.startUid userInfoStr)
  accepted : ∀ send ∈ h.data.sends, send.stage = .acked

section Served
variable {bitmap : Option (List Byte)} {es : List ProcessEvent} {i : Nat} {h : Handler}

theorem Handler.Decodes.served (hd : h.Decodes bitmap) (hp : h.Phase (onSuccesses es i))
    (hr : h.data.request.Dispatched) (hfin : h.data.finished ≠ []) : ∃ bytes, bitmap = some bytes ∧ h.Served bytes := by
  cases hd with
  | reading _ hfresh => exact absurd hfresh.finished hfin
  | read _ _ hfresh => exact absurd hfresh.finished hfin
  | @decoded bytes userInfoStr hbitmap hcopied hmessages =>
    refine ⟨bytes, hbitmap, ?_⟩
    by_cases hnil : h.messages = []
    · obtain ⟨hsends, -⟩ := List.append_eq_nil_iff.mp hnil
      refine ⟨⟨userInfoStr, hcopied, by rw [← hmessages, hnil, hsends]⟩, fun send hsend => ?_⟩
      rw [List.map_eq_nil_iff.mp hsends] at hsend
      cases hsend
    · -- the last acknowledgement has answered, so that each message has one
      have hanswered := (hp.exact hnil hr).answered
      obtain ⟨-, -, -, -, -, -, hacks⟩ := hp.messages hnil
      have hall : ∀ k < h.messages.length, h.data.sends[k]?.any (·.stage = .acked) = true := by
        intro k hk
        by_contra hno
        refine hfin (hanswered.trans (if_neg fun hall => ?_))
        have hone := hall k hk
        rw [hacks k, if_neg hno] at hone
        cases hone
      have hlength : h.messages.length ≤ h.data.sends.length := by
        by_contra hlt
        have := hall h.data.sends.length (Nat.lt_of_not_le hlt)
        rw [List.getElem?_eq_none (Nat.le_refl _)] at this
        cases this
      have hleft : sendsLeft h.thread.prog = [] := by
        rw [Handler.messages, List.length_append, List.length_map] at hlength
        exact List.length_eq_zero_iff.mp (by omega)
      refine ⟨⟨userInfoStr, hcopied, ?_⟩, fun send hsend => ?_⟩
      · rw [← hmessages, Handler.messages, hleft, List.append_nil]
      · obtain ⟨k, hk⟩ := List.mem_iff_getElem?.mp hsend
        have hlt : k < h.messages.length := by
          rw [Handler.messages, List.length_append, List.length_map]
          have := (List.getElem?_eq_some_iff.mp hk).1
          omega
        have hacked := hall k hlt
        rw [hk] at hacked
        exact of_decide_eq_true hacked

/-- Every message is one of a set bit, also before the request is answered. -/
theorem Handler.Decodes.mem_sends (hd : h.Decodes bitmap) {send : Send} (hsend : send ∈ h.data.sends) :
    ∃ bytes userInfoStr, bitmap = some bytes ∧ h.data.request.CopiedFrom bytes userInfoStr ∧
      send.body ∈ h.data.request.messagesTo (uidsToSend h.data.request.startUid userInfoStr) := by
  cases hd with
  | reading _ hfresh =>
    rw [hfresh.sends] at hsend
    cases hsend
  | read _ _ hfresh =>
    rw [hfresh.sends] at hsend
    cases hsend
  | @decoded bytes userInfoStr hbitmap hcopied hmessages =>
    exact ⟨bytes, userInfoStr, hbitmap, hcopied,
      hmessages ▸ List.mem_append_left _ (List.mem_map_of_mem hsend)⟩

end Served

end PushSystem
