import PushSystem.Theorems.Audience.Real

/-! Who can be in the audience. Whatever fails, and however updates and producers interleave, a bitmap marks no user
    that its table does not have, and the audience none that one of the tables does not have. -/

namespace PushSystem
open Redis Bitmap Prog

/-! ### Keys -/

theorem temp_inj {tag tag' : Tag} : genTempKey (userInfoKey tag) = genTempKey (userInfoKey tag') ↔ tag = tag' := by
  revert tag tag'
  decide +kernel

theorem release_inj {tag tag' : Tag} : genReleaseKey (userInfoKey tag) = genReleaseKey (userInfoKey tag') ↔ tag = tag' := by
  revert tag tag'
  decide +kernel

/-- The users that a key may mark: those that are allowed for its table, and for `TMP_USER_INFO_KEY` those that are
    allowed for all tables. -/
structure Marks (Allowed : Tag → Nat → Prop) (key : String) (uid : Nat) : Prop where
  temp : ∀ tag, key = genTempKey (userInfoKey tag) → Allowed tag uid
  release : ∀ tag, key = genReleaseKey (userInfoKey tag) → Allowed tag uid
  audience : key = tmpUserInfoKey → ∀ tag, Allowed tag uid

section Marks
variable {Allowed : Tag → Nat → Prop} {tag : Tag} {uid : Nat} {cmd : RedisCommand}

theorem marks_temp : Marks Allowed (genTempKey (userInfoKey tag)) uid ↔ Allowed tag uid :=
  ⟨fun h => h.temp tag rfl, fun h => ⟨fun _ heq => temp_inj.mp heq ▸ h, fun _ heq => absurd heq (temp_ne_release _ _),
    fun heq => absurd heq (temp_ne_tmp _)⟩⟩

theorem marks_release : Marks Allowed (genReleaseKey (userInfoKey tag)) uid ↔ Allowed tag uid :=
  ⟨fun h => h.release tag rfl, fun h => ⟨fun _ heq => absurd heq.symm (temp_ne_release _ _),
    fun _ heq => release_inj.mp heq ▸ h, fun heq => absurd heq (release_ne_tmp _)⟩⟩

theorem marks_tmp : Marks Allowed tmpUserInfoKey uid ↔ ∀ tag, Allowed tag uid :=
  ⟨fun h => h.audience rfl, fun h => ⟨fun _ heq => absurd heq.symm (temp_ne_tmp _),
    fun _ heq => absurd heq.symm (release_ne_tmp _), fun _ => h⟩⟩

theorem marks_diff : Marks Allowed (genDiffKey (userInfoKey tag)) uid :=
  ⟨fun _ heq => absurd heq.symm (temp_ne_diff _ _), fun _ heq => absurd heq (diff_ne_release _ _),
    fun heq => absurd heq (diff_ne_tmp _)⟩

/-- The commands of an update, if its windows mark allowed users only. -/
theorem UpdaterCommand.bounded (h : UpdaterCommand tag cmd)
    (hwindow : ∀ offset value, cmd = .setrange (genTempKey (userInfoKey tag)) offset value →
      ∀ i, testBit value i → Allowed tag (8 * offset + i)) : cmd.Bounded (Marks Allowed) := by
  cases h with
  | delTemp | existsRelease | countDiff | delDiff | dropAudience => trivial
  | window offset value => exact fun i hbit => marks_temp.mpr (hwindow offset value rfl i hbit)
  | diff => exact fun i _ => marks_diff
  | publish => exact fun i hmark => marks_release.mpr (marks_temp.mp hmark)

theorem AudienceCommand.bounded (h : AudienceCommand cmd) : cmd.Bounded (Marks Allowed) := by
  obtain ⟨startUid, endUid, h⟩ := h
  cases h with
  | existsAudience | expire | getrange => trivial
  | bitop =>
    refine fun i hmarks => marks_tmp.mpr (forall_tag.mpr ⟨?_, ?_, ?_⟩)
    · exact marks_release.mp (hmarks _ (by simp))
    · exact marks_release.mp (hmarks _ (by simp))
    · exact marks_release.mp (hmarks _ (by simp))

end Marks

/-! ### The stores -/

/-- The tables have allowed users only, and the keys mark no others. -/
structure Stores.Within (Allowed : Tag → Nat → Prop) (w : Stores) : Prop where
  tables : ∀ tag uid, HasUid w.tables tag uid → Allowed tag uid
  bits : w.redis.Bounded (Marks Allowed)

section Stores
variable {Allowed : Tag → Nat → Prop} {w : Stores} {cmd : RedisCommand}

theorem Stores.Within.exec (h : w.Within Allowed) (hcmd : cmd.Bounded (Marks Allowed)) :
    (w.exec cmd).2.Within Allowed := ⟨h.tables, h.bits.exec hcmd⟩

theorem Stores.Within.redisCommand (h : w.Within Allowed) (hcmd : cmd.Bounded (Marks Allowed)) (a : Attempt) :
    (w.redisCommand cmd a).2.Within Allowed := by
  cases a with
  | lost => exact h
  | unheard | heard => exact h.exec hcmd

/-- The rows of a query are users of its table. -/
theorem Stores.Within.rows (h : w.Within Allowed) {tag : Tag} {uid : Nat} {x : UInt64} (hx : x ∈ w.rows (genSQL tag uid)) :
    Allowed tag x.toNat ∧ uid ≤ x.toNat ∧ x.toNat < uid + 10240 := by
  obtain ⟨⟨row, hrow, hopen, rfl⟩, hrange⟩ := mem_rows_genSQL.mp hx
  exact ⟨h.tables tag _ ⟨row, hrow, rfl, hopen⟩, hrange⟩

end Stores

/-! ### An update -/

abbrev UpdaterState.Within (Allowed : Tag → Nat → Prop) (s : UpdaterState) : Prop := s.stores.Within Allowed

section Update
variable {Allowed : Tag → Nat → Prop} {tag : Tag} {s t : UpdaterState}

theorem UpdaterState.Within.mysqlQuery (h : s.Within Allowed) (q : Query) (a : Attempt) :
    (s.mysqlQuery q a).Within Allowed := by
  cases a <;> cases q <;> exact ⟨h.tables, h.bits⟩

theorem updaterTry_within {o : UpdaterOp} {n : Nat} {r : Option o.Ret} (ho : o.Sends (·.Bounded (Marks Allowed)))
    (h : s.Within Allowed) (hm : updaterTry o n s r t) : t.Within Allowed := by
  cases o with
  | redis cmd =>
    rcases hm with ⟨-, -, rfl⟩ | ⟨a, -, rfl⟩
    · exact h
    · exact Stores.Within.redisCommand h ho a
  | mysql q =>
    obtain ⟨a, -, rfl⟩ := hm
    exact h.mysqlQuery q a
  | fetchRows =>
    obtain ⟨m, -, rfl⟩ := hm
    exact h
  | freeReply | affectedRows | freeResult | time =>
    obtain ⟨-, rfl⟩ := hm
    exact h

/-- The others keep the stores within what is allowed, and the result set is that of one connection. -/
abbrev Beside (Allowed : Tag → Nat → Prop) : UpdaterState → UpdaterState → Prop :=
  Rely (UpdaterState.Within Allowed) UpdaterState.result

/-- A window marks allowed users only, whatever part of its rows was fetched. -/
theorem wp_updateWindows_within {i : Nat} {uid : UInt64} (hi : i ≤ 9766) (huid : uid.toNat = 10240 * i)
    (h : s.Within Allowed) :
    wp updaterTry (Beside Allowed) (UpdaterState.Within Allowed) (updateWindows tag uid) (fun _ _ => True) s := by
  obtain ⟨n, hn⟩ : ∃ n, i + n = 9766 := ⟨9766 - i, by omega⟩
  induction n generalizing i uid s with
  | zero =>
    have hend : ¬uid ≤ endUid := by
      rw [UInt64.le_iff_toNat_le, huid]
      simp only [endUid, UInt64.reduceToNat]
      omega
    rw [updateWindows, dif_neg hend]
    exact ⟨h, trivial⟩
  | succ n ih =>
    have hle : uid ≤ endUid := by
      rw [UInt64.le_iff_toNat_le, huid]
      simp only [endUid, UInt64.reduceToNat]
      omega
    rw [updateWindows, dif_pos hle]
    simp only [perform_bind]
    refine wp_mysql (fun _ _ _ _ _ hm => hm) (UpdaterState.Within Allowed) h (fun _ h => h) (fun _ _ _ he => he.1)
      (fun _ a h => h.mysqlQuery _ a) (fun _ _ _ h _ => ⟨h, trivial⟩) fun s h => ?_
    simp only [Bool.not_true, Bool.false_eq_true, if_false]
    refine wp_fetchRows (fun _ _ _ _ _ hm => hm)
      (fun s => s.Within Allowed ∧ ∀ x ∈ s.result, Allowed tag x.toNat ∧ uid.toNat ≤ x.toNat ∧ x.toNat < uid.toNat + 10240)
      ⟨h.mysqlQuery _ .heard, fun x hx => h.rows hx⟩ (fun _ h => h.1) (fun _ _ h he => ⟨he.1, he.2 ▸ h.2⟩)
      fun n s r t hs hm => ?_
    obtain ⟨h, hresult⟩ := hs
    obtain ⟨m, hr, rfl⟩ := hm
    obtain rfl := Option.some.inj hr
    have hrows : ∀ x ∈ s.result.take m, Allowed tag x.toNat ∧ uid.toNat ≤ x.toNat ∧ x.toNat < uid.toNat + 10240 :=
      fun x hx => hresult x (List.mem_of_mem_take hx)
    have hwindow : Command.Bounded (Marks Allowed)
        (.setrange (genTempKey (userInfoKey tag)) (uid.toNat / 8) (windowBitmap uid (s.result.take m))) := by
      refine UpdaterCommand.bounded (.window _ _) fun offset value heq j hbit => ?_
      obtain ⟨-, rfl, rfl⟩ := Command.setrange.inj heq
      obtain ⟨x, hx, hxj⟩ := ((testBit_windowBitmap fun x hx => (hrows x hx).2).2 j).mp hbit
      have hsum : 8 * (uid.toNat / 8) + j = x.toNat := by omega
      exact hsum ▸ (hrows x hx).1
    refine wp_redis (fun _ _ _ _ _ hm => hm) (UpdaterState.Within Allowed) h (fun _ h => h) (fun _ _ _ he => he.1)
      (fun _ _ _ h _ _ => h.exec hwindow) (fun _ _ _ h _ => ⟨h, trivial⟩) fun s h _ => ?_
    simp only [Option.isNone_some, Bool.false_eq_true, if_false]
    refine wp_freeReply (fun _ _ _ _ _ hm => hm) keeps_rely (wp_freeResult (fun _ _ _ _ _ hm => hm)
      (UpdaterState.Within Allowed) (h.exec hwindow) (fun _ h => h) (fun _ _ _ he => he.1) fun s h => ?_)
    have hadd : (uid + countsPerLoop).toNat = 10240 * (i + 1) := by
      simp only [UInt64.toNat_add, countsPerLoop, UInt64.reduceToNat]
      omega
    exact ih (by omega) hadd h (by omega)

variable (tag) in
theorem everywhere_checkAndPublish_bounded :
    (checkAndPublish tag).Everywhere fun o _ => o.Sends (·.Bounded (Marks Allowed)) := by
  have hdrop : (recordAndDrop tag).Everywhere fun o _ => o.Sends (·.Bounded (Marks Allowed)) :=
    everywhere_recordAndDrop trivial
  have hpublish : (publish tag).Everywhere fun o _ => o.Sends (·.Bounded (Marks Allowed)) := by
    refine ⟨UpdaterCommand.bounded .publish (fun _ _ heq => by cases heq), fun reply => ?_⟩
    cases reply with
    | none => trivial
    | some => exact ⟨trivial, fun _ => hdrop⟩
  refine ⟨trivial, fun reply => ?_⟩
  cases reply with
  | none => trivial
  | some reply =>
    refine ⟨trivial, fun _ => ?_⟩
    show Everywhere _ (if reply.toInteger = 0 then _ else _)
    split
    · exact hpublish
    · refine everywhere_bind (p := checkDiff tag)
        (everywhere_checkDiff (UpdaterCommand.bounded .diff (fun _ _ heq => by cases heq)) trivial trivial) fun ok => ?_
      cases ok with
      | none => trivial
      | some ok =>
        cases ok with
        | false => trivial
        | true => exact hpublish

variable (tag) in
theorem wp_updateUserInfo_within (h : s.Within Allowed) :
    wp updaterTry (Beside Allowed) (UpdaterState.Within Allowed) (updateUserInfo tag) (fun _ _ => True) s := by
  have hdel : Command.Bounded (Marks Allowed) (.del (genTempKey (userInfoKey tag))) := trivial
  unfold updateUserInfo
  simp only [perform_bind]
  refine wp_redis (fun _ _ _ _ _ hm => hm) (UpdaterState.Within Allowed) h (fun _ h => h) (fun _ _ _ he => he.1)
    (fun _ _ _ h _ _ => h.exec hdel) (fun _ _ _ h _ => ⟨h, trivial⟩) fun s h _ => ?_
  refine wp_freeReply (fun _ _ _ _ _ hm => hm) keeps_rely (wp_bind ?_)
  refine (wp_updateWindows_within (Nat.zero_le _) rfl (h.exec hdel)).mono fun ok t h _ => ?_
  cases ok with
  | false => exact ⟨h, trivial⟩
  | true =>
    exact wp_of_everywhere (fun _ _ _ he => he.1) (fun _ _ _ _ _ ho h hm => updaterTry_within ho h hm)
      (everywhere_checkAndPublish_bounded tag) h

end Update

/-! ### The system -/

/-- The Redis commands that the thread of a request can still send. -/
def Handler.Commands (h : Handler) : Prop :=
  h.thread.prog.Everywhere fun o _ => ∀ cmd, o = .redis cmd → AudienceCommand cmd

theorem Handler.commands_new (request : ProduceMsgRequest) :
    Handler.Commands ⟨{ request := request }, ⟨produceMsg request, 0⟩⟩ :=
  (everywhere_produceMsg request).mono fun _ ho cmd heq => ⟨_, _, ho cmd heq⟩

theorem Handler.Commands.call {h h' : Handler} {outcome : Outcome} (hs : h.Commands) (hc : h.call outcome = some h') :
    h'.Commands := by
  obtain ⟨o, k, n, hprog, hcases⟩ := Handler.call_cases hc
  rw [Handler.Commands, hprog] at hs
  rcases hcases with ⟨-, hp⟩ | ⟨r, -, hp⟩
  · rw [Handler.Commands, hp]
    exact hs
  · rw [Handler.Commands, hp]
    exact hs.2 r

/-- The command that a request sends next. -/
theorem Handler.Commands.next {h : Handler} {cmd : RedisCommand} (hs : h.Commands) (hn : h.next = some (.redis cmd)) :
    AudienceCommand cmd := by
  obtain ⟨k, hprog⟩ := Handler.prog_of_next hn
  rw [Handler.Commands, hprog] at hs
  exact hs.1 cmd rfl

theorem Process.step_commands {p q : Process} {e : ProcessEvent} (hp : ∀ h ∈ p.handlers, h.Commands)
    (hq : p.step e = some q) : ∀ h ∈ q.handlers, h.Commands := by
  intro h' hi
  obtain ⟨i, hi⟩ := List.mem_iff_getElem?.mp hi
  rcases Process.step_handlers hq hi with hi | ⟨-, request, rfl⟩ | ⟨h, outcome, -, hj, hc⟩ | ⟨h, b, data, -, hj, -, rfl⟩
  · exact hp h' (List.mem_of_getElem? hi)
  · exact Handler.commands_new request
  · exact (hp h (List.mem_of_getElem? hj)).call hc
  · exact hp h (List.mem_of_getElem? hj)

/-- An update, as it sees the stores. -/
def Update.Holds (Allowed : Tag → Nat → Prop) (w : Stores) (u : Update) : Prop :=
  u.thread.Holds updaterTry (Beside Allowed) (UpdaterState.Within Allowed) (fun _ _ => True)
    ⟨w, u.result, u.affectedRows⟩

/-- The stores are within what is allowed, and no thread will take them out of it. -/
structure Audience.Within (Allowed : Tag → Nat → Prop) (s : Audience) : Prop where
  stores : s.stores.Within Allowed
  updates : ∀ u ∈ s.updates, u.Holds Allowed s.stores
  commands : ∀ p ∈ s.processes, ∀ h ∈ p.handlers, h.Commands

namespace Audience.Within
variable {Allowed : Tag → Nat → Prop} {s t : Audience} {e : AudienceEvent}

theorem init {w : Stores} (h : w.Within Allowed) : Within Allowed { stores := w } :=
  ⟨h, fun _ hu => (List.not_mem_nil hu).elim, fun _ hp => (List.not_mem_nil hp).elim⟩

/-- What is not the step of an update is interference to all of them. -/
theorem beside (h : s.Within Allowed) {w : Stores} (hw : w.Within Allowed) : ∀ u ∈ s.updates, u.Holds Allowed w :=
  fun u hu => Thread.Holds.env (h.updates u hu) keeps_rely ⟨hw, rfl⟩

theorem set_process (h : s.Within Allowed) {pid : Nat} {p q : Process} {e : ProcessEvent}
    (hp : s.processes[pid]? = some p) (hq : p.step e = some q) :
    ∀ p ∈ s.processes.set pid q, ∀ h ∈ p.handlers, h.Commands := by
  intro p' hp'
  rcases Count.mem_set hp' with rfl | hp'
  · exact Process.step_commands (h.commands p (List.mem_of_getElem? hp)) hq
  · exact h.commands p' hp'

theorem step (h : s.Within Allowed) (hs : s.step e = some t) : t.Within Allowed := by
  cases e with
  | start =>
    obtain rfl := Option.some.inj hs
    refine ⟨h.stores, h.updates, fun p hp => ?_⟩
    rcases List.mem_append.mp hp with hp | hp
    · exact h.commands p hp
    · obtain rfl := List.mem_singleton.mp hp
      exact fun _ hi => by cases hi
  | update tag =>
    obtain rfl := Option.some.inj hs
    refine ⟨h.stores, fun u hu => ?_, h.commands⟩
    rcases List.mem_append.mp hu with hu | hu
    · exact h.updates u hu
    · obtain rfl := List.mem_singleton.mp hu
      exact wp_updateUserInfo_within tag h.stores
  | process pid e =>
    obtain ⟨p, hp, hs⟩ := Option.bind_eq_some_iff.mp hs
    split at hs
    next => cases hs
    next =>
      obtain ⟨q, hq, hs⟩ := Option.bind_eq_some_iff.mp hs
      obtain rfl := Option.some.inj hs
      exact ⟨h.stores, h.updates, h.set_process hp hq⟩
  | redis pid i a =>
    obtain ⟨p, hp, hs⟩ := Option.bind_eq_some_iff.mp hs
    obtain ⟨x, hi, hs⟩ := Option.bind_eq_some_iff.mp hs
    split at hs
    next cmd hn =>
      obtain ⟨q, hq, hs⟩ := Option.bind_eq_some_iff.mp hs
      obtain rfl := Option.some.inj hs
      have hcmd := (h.commands p (List.mem_of_getElem? hp) x (List.mem_of_getElem? hi)).next hn
      have hstores := h.stores.redisCommand hcmd.bounded a
      exact ⟨hstores, h.beside hstores, h.set_process hp hq⟩
    next => cases hs
  | updater j => cases hs
  | expire =>
    obtain ⟨entry, -, hs⟩ := Option.bind_eq_some_iff.mp hs
    split at hs
    next => cases hs
    next =>
      obtain rfl := Option.some.inj hs
      have hstores : Stores.Within Allowed { s.stores with redis := s.stores.redis.remove tmpUserInfoKey } :=
        ⟨h.stores.tables, h.stores.bits.remove _⟩
      exact ⟨hstores, h.beside hstores, h.commands⟩

theorem trans (h : s.Within Allowed) (ht : Audience.Trans s e t) : t.Within Allowed := by
  cases ht with
  | step hs => exact h.step hs
  | @updater j u thread c hu hstep =>
    have hholds : u.Holds Allowed s.stores := h.updates u (List.mem_of_getElem? hu)
    have hnext : thread.Holds updaterTry (Beside Allowed) (UpdaterState.Within Allowed) (fun _ _ => True) c :=
      @Thread.Holds.step _ _ _ _ _ _ _ _ (u.thread, _) (thread, c) hholds hstep
    have hstores : UpdaterState.Within Allowed c := wp.inv hnext
    refine ⟨hstores, fun v hv => ?_, h.commands⟩
    rcases Count.mem_set hv with rfl | hv
    · exact hnext
    · exact h.beside hstores v hv

end Audience.Within

end PushSystem
