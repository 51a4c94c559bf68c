import Mathlib.Data.List.Chain
import PushSystem.Theorems.Daemon.Chunks

/-! The chunks that `SelectProducerAndSend` cuts a request into. They are an exact partition of the request unless
    the loop variable wraps on its way past `endUid`; then the loop starts over from the lowest uids. -/

namespace PushSystem

/-! ### Iterations -/

/-- An iteration of the loop that finds a producer, in whatever state the daemon is: the chunk it sends, and the
    loop variable afterwards. -/
inductive Iteration (request : ProduceMsgRequest) (curUid : UInt64) : ProduceMsgRequest → UInt64 → Prop where
  | of_sends {s t : State} {push draw svrId d c curUid'} (hcur : curUid ≤ request.endUid)
    (hd : s.daemon.Sends draw svrId d) (hs : s.selectProducerAndSend push request curUid draw = (t, curUid'))
    (hc : t.calls = s.calls ++ [c]) : Iteration request curUid c.request curUid'

/-- Successive iterations: the chunks they send, and the loop variable afterwards. -/
inductive Iterations (request : ProduceMsgRequest) : UInt64 → List ProduceMsgRequest → UInt64 → Prop where
  | nil {curUid} : Iterations request curUid [] curUid
  | cons {curUid chunk next chunks last} (h : Iteration request curUid chunk next)
    (hs : Iterations request next chunks last) : Iterations request curUid (chunk :: chunks) last

section Iterations
variable {r : ProduceMsgRequest} {cur last last' : UInt64} {chunk : ProduceMsgRequest}
  {chunks chunks' : List ProduceMsgRequest}

/-- An idle producer is found at once. -/
theorem exists_sends : ∃ (s : State) (svrId : UInt64) (d : Daemon), s.daemon.Sends 0 svrId d :=
  ⟨{ daemon := { gSetIdleProducer := (∅ : OrdSet UInt64).set 0 () } }, 0, _, .idle rfl⟩

theorem iteration_iff {next : UInt64} :
    Iteration r cur chunk next ↔ cur ≤ r.endUid ∧ chunk = chunkAt r cur ∧ next = cur + uidCountPerTime := by
  constructor
  · rintro ⟨hcur, hd, hs, hc⟩
    have hsent : ∀ (s : State) (push : Nat) (draw : Fin 10001) (svrId : UInt64) (d : Daemon),
        s.daemon.Sends draw svrId d →
        s.selectProducerAndSend push r cur draw = (s.sent d svrId r push cur, cur + uidCountPerTime) := by
      intro s push draw svrId d hd
      unfold State.selectProducerAndSend
      cases hd with
      | idle h | ranked h =>
        rw [h]
        rfl
    rw [hsent _ _ _ _ _ hd] at hs
    obtain ⟨rfl, rfl⟩ := Prod.mk.inj hs
    obtain rfl := List.singleton_injective (List.append_cancel_left hc)
    exact ⟨hcur, rfl, rfl⟩
  · rintro ⟨hcur, rfl, rfl⟩
    obtain ⟨s, svrId, d, hd⟩ := exists_sends
    cases hd with
    | idle h => exact @Iteration.of_sends r cur _ _ 0 _ _ _ _ _ hcur (.idle h) (by rw [State.selectProducerAndSend, h]) rfl
    | ranked h => exact @Iteration.of_sends r cur _ _ 0 _ _ _ _ _ hcur (.ranked h) (by rw [State.selectProducerAndSend, h]) rfl

theorem Iterations.next (hcur : cur ≤ r.endUid) (h : Iterations r (cur + uidCountPerTime) chunks last) :
    Iterations r cur (chunkAt r cur :: chunks) last := .cons (iteration_iff.mpr ⟨hcur, rfl, rfl⟩) h

theorem Iterations.head (h : Iterations r cur chunks last) : ∀ d ∈ chunks.head?, d.startUid = cur ∧ d.startUid ≤ r.endUid := by
  intro d hd
  cases h with
  | nil => cases hd
  | cons hi =>
    obtain ⟨hle, rfl, -⟩ := iteration_iff.mp hi
    obtain rfl := Option.some.inj hd
    exact ⟨rfl, hle⟩

/-- The iterations are determined: those of any run are the first ones of a run that has ended. -/
theorem Iterations.prefix_of_ended (h : Iterations r cur chunks last) (hend : r.endUid < last)
    (h' : Iterations r cur chunks' last') : chunks' <+: chunks := by
  induction h generalizing chunks' with
  | nil =>
    cases h' with
    | nil => exact List.prefix_refl _
    | cons hi => exact absurd (iteration_iff.mp hi).1 (UInt64.not_le.mpr hend)
  | cons hi _ ih =>
    cases h' with
    | nil => exact List.nil_prefix
    | cons hi' h' =>
      obtain ⟨-, rfl, rfl⟩ := iteration_iff.mp hi
      obtain ⟨-, rfl, rfl⟩ := iteration_iff.mp hi'
      exact (List.prefix_cons_inj _).mpr (ih hend h')

end Iterations

/-! ### Partitions -/

/-- The chunks are consecutive intervals of at most `UID_COUNT_PER_TIME` uids that share no uid and together
    cover those of the request. -/
structure ProduceMsgRequest.Partitions (r : ProduceMsgRequest) (chunks : List ProduceMsgRequest) : Prop where
  msgId : ∀ c ∈ chunks, c.msgId = r.msgId
  size : ∀ c ∈ chunks, c.startUid ≤ c.endUid ∧ c.endUid.toNat - c.startUid.toNat + 1 ≤ uidCountPerTime.toNat
  consecutive : chunks.IsChain fun c d => d.startUid.toNat = c.endUid.toNat + 1
  disjoint : chunks.Pairwise fun c d => ∀ uid, c.Covers uid → ¬d.Covers uid
  union : ∀ uid, r.Covers uid ↔ ∃ c ∈ chunks, c.Covers uid

/-- The loop over a request ends, and has then sent a partition of the request. -/
def ChunksPartition (r : ProduceMsgRequest) : Prop :=
  ∃ chunks, r.Partitions chunks ∧ (∃ last, Iterations r r.startUid chunks last ∧ r.endUid < last) ∧
    ∀ chunks' last', Iterations r r.startUid chunks' last' → chunks' <+: chunks

/-- The loop variable does not wrap on its way from `cur` past `endUid`. -/
def ProduceMsgRequest.NoWrap (r : ProduceMsgRequest) (cur : UInt64) : Prop :=
  cur ≤ r.endUid → cur.toNat + ((r.endUid.toNat - cur.toNat) / 4096 + 1) * 4096 < 2 ^ 64

section Partitions
variable {r : ProduceMsgRequest} {cur last : UInt64} {chunks : List ProduceMsgRequest}

theorem ProduceMsgRequest.NoWrap.lt (h : r.NoWrap cur) (hcur : cur ≤ r.endUid) : cur.toNat + 4096 < 2 ^ 64 := by
  have := h hcur
  omega

theorem ProduceMsgRequest.NoWrap.next (h : r.NoWrap cur) (hcur : cur ≤ r.endUid) : r.NoWrap (cur + uidCountPerTime) := by
  intro hnext
  have hadd := add_uidCount_toNat_of_lt (h.lt hcur)
  have hlt := h hcur
  rw [UInt64.le_iff_toNat_le, hadd] at hnext
  rw [hadd]
  have hdiv : (r.endUid.toNat - cur.toNat) / 4096 = (r.endUid.toNat - (cur.toNat + 4096)) / 4096 + 1 := by omega
  omega

theorem ProduceMsgRequest.Bounded.noWrap (hb : r.Bounded) : r.NoWrap cur := by
  intro hcur
  have hle := UInt64.le_iff_toNat_le.mp hcur
  unfold ProduceMsgRequest.Bounded at hb
  omega

/-- The loop variable grows until it has passed `endUid`. -/
theorem exists_iterations (h : r.NoWrap cur) : ∃ chunks last, Iterations r cur chunks last ∧ r.endUid < last := by
  induction hn : r.endUid.toNat + 1 - cur.toNat using Nat.strong_induction_on generalizing cur with
  | _ n ih =>
    by_cases hcur : cur ≤ r.endUid
    · have hadd := add_uidCount_toNat_of_lt (h.lt hcur)
      have hle := UInt64.le_iff_toNat_le.mp hcur
      obtain ⟨chunks, last, hs, hend⟩ := ih _ (by omega) (h.next hcur) rfl
      exact ⟨_, last, hs.next hcur, hend⟩
    · exact ⟨[], cur, .nil, UInt64.not_le.mp hcur⟩

/-- A chunk followed by a partition of what is left. -/
theorem ProduceMsgRequest.Partitions.cons
    (h : ({ r with startUid := cur + uidCountPerTime } : ProduceMsgRequest).Partitions chunks)
    (hcur : cur ≤ r.endUid) (hlt : cur.toNat + 4096 < 2 ^ 64)
    (hhead : ∀ d ∈ chunks.head?, d.startUid = cur + uidCountPerTime ∧ d.startUid ≤ r.endUid) :
    ({ r with startUid := cur } : ProduceMsgRequest).Partitions (chunkAt r cur :: chunks) := by
  have hadd := add_uidCount_toNat_of_lt hlt
  have hend := chunkAt_endUid_toNat_of_lt (r := r) hlt
  have hstart : (chunkAt r cur).startUid = cur := rfl
  have hle := UInt64.le_iff_toNat_le.mp hcur
  have hcount : uidCountPerTime.toNat = 4096 := rfl
  have hcovers : ∀ uid, (∃ c ∈ chunks, c.Covers uid) ↔ cur.toNat + 4096 ≤ uid.toNat ∧ uid.toNat ≤ r.endUid.toNat := by
    intro uid
    rw [← h.union uid, ProduceMsgRequest.Covers, UInt64.le_iff_toNat_le, UInt64.le_iff_toNat_le, hadd]
  have hchunk : ∀ uid, (chunkAt r cur).Covers uid ↔
      cur.toNat ≤ uid.toNat ∧ uid.toNat ≤ min (cur.toNat + 4095) r.endUid.toNat := by
    intro uid
    rw [ProduceMsgRequest.Covers, UInt64.le_iff_toNat_le, UInt64.le_iff_toNat_le, hstart, hend]
  refine ⟨?_, ?_, ?_, ?_, ?_⟩
  · intro c hc
    rcases List.mem_cons.mp hc with rfl | hc
    · rfl
    · exact h.msgId c hc
  · intro c hc
    rcases List.mem_cons.mp hc with rfl | hc
    · rw [UInt64.le_iff_toNat_le, hstart, hend, hcount]
      omega
    · exact h.size c hc
  · cases chunks with
    | nil => exact List.isChain_singleton _
    | cons d chunks =>
      obtain ⟨hd, hdle⟩ := hhead d rfl
      rw [hd, UInt64.le_iff_toNat_le, hadd] at hdle
      refine List.isChain_cons_cons.mpr ⟨?_, h.consecutive⟩
      rw [hd, hadd, hend]
      omega
  · refine List.pairwise_cons.mpr ⟨fun d hd uid hc hduid => ?_, h.disjoint⟩
    have hlate := (hcovers uid).mp ⟨d, hd, hduid⟩
    have hearly := (hchunk uid).mp hc
    omega
  · intro uid
    simp only [List.mem_cons, exists_eq_or_imp]
    rw [hcovers, hchunk, ProduceMsgRequest.Covers, UInt64.le_iff_toNat_le, UInt64.le_iff_toNat_le]
    show cur.toNat ≤ _ ∧ _ ≤ r.endUid.toNat ↔ _
    omega

theorem Iterations.partitions (h : Iterations r cur chunks last) (hend : r.endUid < last) (hw : r.NoWrap cur) :
    ({ r with startUid := cur } : ProduceMsgRequest).Partitions chunks := by
  induction h with
  | @nil cur =>
    refine ⟨by simp, by simp, List.isChain_nil, List.Pairwise.nil, fun uid => ?_⟩
    simp only [List.not_mem_nil, false_and, exists_false, iff_false]
    exact fun hu => absurd (UInt64.le_trans hu.1 hu.2) (UInt64.not_le.mpr hend)
  | cons hi hs ih =>
    obtain ⟨hcur, rfl, rfl⟩ := iteration_iff.mp hi
    exact (ih hend (hw.next hcur)).cons hcur (hw.lt hcur) hs.head

/-- A loop variable that wraps sends a chunk below the one before. -/
theorem exists_wrapped (h : ¬r.NoWrap cur) :
    ∃ chunks c d last, Iterations r cur (chunks ++ [c, d]) last ∧ d.startUid < c.startUid := by
  induction hn : (r.endUid.toNat - cur.toNat) / 4096 generalizing cur with
  | zero =>
    obtain ⟨hcur, hge⟩ := Classical.not_imp.mp h
    have hle := UInt64.le_iff_toNat_le.mp hcur
    have hlt : (cur + uidCountPerTime).toNat < cur.toNat := by
      have := cur.toNat_lt
      simp only [UInt64.toNat_add, uidCountPerTime, UInt64.reduceToNat]
      omega
    have hnext : cur + uidCountPerTime ≤ r.endUid := UInt64.le_iff_toNat_le.mpr (by omega)
    exact ⟨[], _, _, _, (Iterations.next hnext .nil).next hcur, UInt64.lt_iff_toNat_lt.mpr hlt⟩
  | succ n ih =>
    obtain ⟨hcur, hge⟩ := Classical.not_imp.mp h
    have hend := r.endUid.toNat_lt
    have hadd : (cur + uidCountPerTime).toNat = cur.toNat + 4096 := add_uidCount_toNat_of_lt (by omega)
    have hwraps : ¬r.NoWrap (cur + uidCountPerTime) := by
      refine Classical.not_imp.mpr ⟨UInt64.le_iff_toNat_le.mpr (by omega), ?_⟩
      rw [hadd]
      omega
    obtain ⟨chunks, c, d, last, hs, hlt⟩ := ih hwraps (by rw [hadd]; omega)
    exact ⟨chunkAt r cur :: chunks, c, d, last, hs.next hcur, hlt⟩

theorem not_chunksPartition (h : ¬r.NoWrap r.startUid) : ¬ChunksPartition r := by
  rintro ⟨chunks, hp, -, hprefix⟩
  obtain ⟨first, c, d, last, hs, hlt⟩ := exists_wrapped h
  obtain ⟨rest, rfl⟩ := hprefix _ _ hs
  have hchain := hp.consecutive
  simp only [List.append_assoc, List.cons_append, List.nil_append] at hchain
  have hnext := (List.isChain_append_cons_cons.mp hchain).2.1
  have hsize := (hp.size c (by simp)).1
  rw [UInt64.lt_iff_toNat_lt] at hlt
  rw [UInt64.le_iff_toNat_le] at hsize
  omega

end Partitions

/-- The loop ends with a partition of the request exactly if its variable does not wrap. -/
theorem chunks_partition_iff (r : ProduceMsgRequest) : ChunksPartition r ↔
    (r.startUid ≤ r.endUid →
      r.startUid.toNat + ((r.endUid.toNat - r.startUid.toNat) / 4096 + 1) * 4096 < 2 ^ 64) := by
  constructor
  · intro h
    by_contra hw
    exact not_chunksPartition hw h
  · intro hw
    obtain ⟨chunks, last, hs, hend⟩ := exists_iterations hw
    exact ⟨chunks, hs.partitions hend hw, ⟨last, hs, hend⟩, fun _ _ hs' => hs.prefix_of_ended hend hs'⟩

/-- A push of the last 4096 uids goes on with the uids from 0. -/
theorem chunks_not_partition : ¬ChunksPartition ⟨1, 18446744073709547520, 18446744073709551615⟩ :=
  not_chunksPartition (by unfold ProduceMsgRequest.NoWrap; decide)

end PushSystem
