import PushSystem.Theorems.Daemon.Live
import Mathlib.Data.List.Chain

/-! A sweep removes exactly the silent servers. One pass of `CheckProcAlive` is described by what it does to
    each id; over the runs of a schedule, which says when each critical section runs, the timestamp of an
    entry is not before any heartbeat of its server. -/

namespace PushSystem

namespace Daemon
variable {d d' : Daemon} {now : Int} {id : UInt64}

/-! ### One pass -/

/-- The loop removes the expired ones of the entries it visits. -/
theorem find?_sweepLoop (now : Int) (l : List (UInt64 × ServerInfo)) (d : Daemon) (id : UInt64) :
    (sweepLoop now l d).gSvrId2SvrInfo.find? id =
      if ∃ x ∈ l, x.1 = id ∧ expired now x.2 = true then none else d.gSvrId2SvrInfo.find? id := by
  induction l generalizing d with
  | nil => simp [sweepLoop]
  | cons x l ih =>
    rw [sweepLoop, ih]
    simp only [List.exists_mem_cons_iff]
    by_cases hexp : expired now x.2 = true
    · rw [if_pos hexp, removeServer_infos, OrdMap.find?_erase]
      by_cases hid : x.1 = id
      · simp [hid, hexp]
      · simp only [hid, false_and, false_or, if_false]
    · rw [if_neg hexp]
      simp only [hexp, Bool.false_eq_true, and_false, false_or]

/-- A pass removes exactly the entries that are expired. -/
theorem find?_checkProcAlive (d : Daemon) (now : Int) (id : UInt64) :
    (d.checkProcAlive now).gSvrId2SvrInfo.find? id =
      (d.gSvrId2SvrInfo.find? id).filter fun info => ¬now - info.timestamp > 10 := by
  have hsweep : (d.checkProcAlive now).gSvrId2SvrInfo.find? id = _ := find?_sweepLoop now _ d id
  rw [hsweep]
  cases hid : d.gSvrId2SvrInfo.find? id with
  | none => simp
  | some info =>
    have hex : (∃ x ∈ d.gSvrId2SvrInfo.entries, x.1 = id ∧ expired now x.2 = true) ↔ now - info.timestamp > 10 := by
      constructor
      · rintro ⟨x, hx, rfl, hexp⟩
        obtain rfl := Option.some.inj (hid.symm.trans (OrdMap.find?_eq_some_iff.mpr hx))
        exact of_decide_eq_true hexp
      · intro hexp
        exact ⟨(id, info), OrdMap.find?_eq_some_iff.mp hid, rfl, decide_eq_true hexp⟩
    by_cases hexp : now - info.timestamp > 10
    · simp only [if_pos (hex.mpr hexp), Option.filter_some, hexp, not_true_eq_false, decide_false, Bool.false_eq_true,
        if_false]
    · simp only [if_neg (mt hex.mp hexp), Option.filter_some, hexp, not_false_eq_true, decide_true, if_true]

theorem failCount_checkProcAlive {p : ProducerState}
    (hp : (d.checkProcAlive now).gSvrId2ProducerState.find? id = some p) : p.failCount = 0 := by
  obtain ⟨q, -, rfl⟩ := Option.map_eq_some_iff.mp ((OrdMap.find?_mapValues _ _ _).symm.trans hp)
  rfl

/-- A removal leaves the producers alone but for the one it removes. -/
theorem removeServer_other {svrId : UInt64} {procName : String} (h : id ∈ d.gSvrId2ProducerState)
    (hne : svrId = id → procName ≠ producerName) :
    (d.removeServer svrId procName).gSvrId2ProducerState.find? id = d.gSvrId2ProducerState.find? id ∧
      (id ∈ (d.removeServer svrId procName).gSetIdleProducer ↔ id ∈ d.gSetIdleProducer) := by
  unfold Daemon.removeServer
  simp only
  split
  next hn =>
    have hid : svrId ≠ id := fun hid => hne hid hn.symm
    have hfind : (d.gSvrId2ProducerState.erase svrId).find? id = d.gSvrId2ProducerState.find? id := by
      rw [OrdMap.find?_erase, if_neg hid]
    rw [find?_rebalance_producers, hfind, rebalance_idle, OrdMap.mem_erase]
    · exact ⟨rfl, and_iff_right hid.symm⟩
    · exact (OrdMap.mem_erase _ _ _).mpr ⟨hid.symm, h⟩
  next => exact ⟨rfl, Iff.rfl⟩

theorem sweepLoop_other {l : List (UInt64 × ServerInfo)} (h : id ∈ d.gSvrId2ProducerState)
    (hl : ∀ x ∈ l, x.1 = id → expired now x.2 = true → x.2.procName ≠ producerName) :
    (sweepLoop now l d).gSvrId2ProducerState.find? id = d.gSvrId2ProducerState.find? id ∧
      (id ∈ (sweepLoop now l d).gSetIdleProducer ↔ id ∈ d.gSetIdleProducer) := by
  induction l generalizing d with
  | nil => exact ⟨rfl, Iff.rfl⟩
  | cons x l ih =>
    have hl' := fun y hy => hl y (List.mem_cons_of_mem x hy)
    unfold sweepLoop
    split
    next hexp =>
      obtain ⟨hfind, hidle⟩ := removeServer_other h fun hid => hl x List.mem_cons_self hid hexp
      obtain ⟨hfind', hidle'⟩ := ih (OrdMap.mem_iff.mpr (hfind ▸ OrdMap.mem_iff.mp h)) hl'
      exact ⟨hfind'.trans hfind, hidle'.trans hidle⟩
    next => exact ih h hl'

/-- A pass clears the failures of the producers it leaves, and nothing else of them. -/
theorem checkProcAlive_other {p : ProducerState} (hp : d.gSvrId2ProducerState.find? id = some p)
    (hkept : ∀ info, d.gSvrId2SvrInfo.find? id = some info → now - info.timestamp > 10 → info.procName ≠ producerName) :
    (d.checkProcAlive now).gSvrId2ProducerState.find? id = some { p with failCount := 0 } ∧
      (id ∈ (d.checkProcAlive now).gSetIdleProducer ↔ id ∈ d.gSetIdleProducer) := by
  obtain ⟨hfind, hidle⟩ := sweepLoop_other (OrdMap.mem_iff.mpr ⟨p, hp⟩) fun x hx hid hexp =>
    hkept x.2 (hid ▸ OrdMap.find?_eq_some_iff.mpr hx) (of_decide_eq_true hexp)
  rw [checkProcAlive, resetFailCounts, OrdMap.find?_mapValues, hfind, hp, Option.map_some]
  exact ⟨rfl, hidle⟩

/-! ### The iterator -/

/-- The entry an iterator at `k` moves to: the first one above `k`. -/
def nextEntry (d : Daemon) (k : UInt64) : Option (UInt64 × ServerInfo) := d.gSvrId2SvrInfo.entries.find? fun x => k < x.1

/-- The first loop of `CheckProcAlive` by its iterator, which stands at an entry of the map as it is now, or
    at its end; `fuel` bounds the entries it visits. -/
def sweepFrom (now : Int) : Nat → Option (UInt64 × ServerInfo) → Daemon → Daemon
  | _, none, d => d
  | 0, some _, d => d
  | fuel + 1, some (svrId, info), d =>
    let next := if expired now info then d.removeServer svrId info.procName else d
    sweepFrom now fuel (next.nextEntry svrId) next

theorem nextEntry_of_entries {x : UInt64 × ServerInfo} {l₁ l₂ : List (UInt64 × ServerInfo)}
    (h : d.gSvrId2SvrInfo.entries = l₁ ++ l₂) (h₁ : ∀ y ∈ l₁, y.1 ≤ x.1) (h₂ : ∀ y ∈ l₂, x.1 < y.1) :
    d.nextEntry x.1 = l₂.head? := by
  have hnone : l₁.find? (fun y => decide (x.1 < y.1)) = none := by
    rw [List.find?_eq_none]
    intro y hy hlt
    exact absurd (h₁ y hy) (not_le.mpr (of_decide_eq_true hlt))
  rw [nextEntry, h, List.find?_append, hnone, Option.none_or]
  cases l₂ with
  | nil => rfl
  | cons y l₂ => simp [h₂ y List.mem_cons_self]

/-- Neither the erasures nor the rebalances in between make the iterator skip or revisit an entry. -/
theorem sweepFrom_eq_sweepLoop {l₁ l₂ : List (UInt64 × ServerInfo)} {fuel : Nat}
    (h : d.gSvrId2SvrInfo.entries = l₁ ++ l₂) (hfuel : l₂.length ≤ fuel) :
    sweepFrom now fuel l₂.head? d = sweepLoop now l₂ d := by
  induction l₂ generalizing l₁ d fuel with
  | nil => cases fuel <;> rfl
  | cons x l₂ ih =>
    obtain ⟨fuel, rfl⟩ : ∃ n, fuel = n + 1 := Nat.exists_eq_succ_of_ne_zero (by simp at hfuel; omega)
    have hsorted := d.gSvrId2SvrInfo.sorted
    rw [h, List.pairwise_append] at hsorted
    have h₁ : ∀ y ∈ l₁, y.1 < x.1 := fun y hy => hsorted.2.2 y hy x List.mem_cons_self
    have h₂ : ∀ y ∈ l₂, x.1 < y.1 := fun y hy => List.rel_of_pairwise_cons hsorted.2.1 hy
    have hlen : l₂.length ≤ fuel := Nat.le_of_succ_le_succ hfuel
    rw [List.head?_cons, sweepFrom, sweepLoop]
    by_cases hexp : expired now x.2 = true
    · have hentries : (d.removeServer x.1 x.2.procName).gSvrId2SvrInfo.entries = l₁ ++ l₂ := by
        rw [removeServer_infos]
        show (d.gSvrId2SvrInfo.entries.filter fun y => y.1 ≠ x.1) = _
        have hfilter : ∀ l : List (UInt64 × ServerInfo), (∀ y ∈ l, y.1 ≠ x.1) → (l.filter fun y => y.1 ≠ x.1) = l :=
          fun l hl => List.filter_eq_self.mpr fun y hy => decide_eq_true (hl y hy)
        rw [h, List.filter_append, List.filter_cons_of_neg (by simp), hfilter l₁ fun y hy => (h₁ y hy).ne,
          hfilter l₂ fun y hy => (h₂ y hy).ne']
      rw [if_pos hexp, nextEntry_of_entries hentries (fun y hy => (h₁ y hy).le) h₂]
      exact ih hentries hlen
    · have hentries : d.gSvrId2SvrInfo.entries = (l₁ ++ [x]) ++ l₂ := by rw [h, List.append_assoc, List.singleton_append]
      have hle : ∀ y ∈ l₁ ++ [x], y.1 ≤ x.1 := by
        intro y hy
        rcases List.mem_append.mp hy with hy | hy
        · exact (h₁ y hy).le
        · exact (List.mem_singleton.mp hy ▸ le_rfl)
      rw [if_neg hexp, nextEntry_of_entries hentries hle h₂]
      exact ih hentries hlen

theorem checkProcAlive_eq_sweepFrom (d : Daemon) (now : Int) :
    d.checkProcAlive now = (sweepFrom now d.gSvrId2SvrInfo.size d.gSvrId2SvrInfo.first? d).resetFailCounts := by
  have hentries : d.gSvrId2SvrInfo.entries = [] ++ d.gSvrId2SvrInfo.entries := (List.nil_append _).symm
  rw [checkProcAlive, ← sweepFrom_eq_sweepLoop hentries le_rfl]
  rfl

/-! ### Timestamps -/

/-- Each entry of `d'` is one of `d` with the timestamp it had. -/
def KeepsTimes (d d' : Daemon) : Prop :=
  ∀ id info', d'.gSvrId2SvrInfo.find? id = some info' →
    ∃ info, d.gSvrId2SvrInfo.find? id = some info ∧ info'.timestamp = info.timestamp

namespace KeepsTimes

theorem of_eq (h : d'.gSvrId2SvrInfo = d.gSvrId2SvrInfo) : KeepsTimes d d' := fun _ info hinfo => ⟨info, h ▸ hinfo, rfl⟩

theorem loadBalance (d : Daemon) (req : LoadBalanceRequest) (score : ℚ) : KeepsTimes d (d.loadBalance req score).2 := by
  unfold Daemon.loadBalance
  cases hf : d.gSvrId2SvrInfo.find? req.serverId with
  | none => exact of_eq rfl
  | some info =>
    intro id x hx
    rcases OrdMap.find?_set_eq_some_iff.mp hx with ⟨rfl, rfl⟩ | ⟨-, hx⟩
    · exact ⟨info, hf, rfl⟩
    · exact ⟨x, hx, rfl⟩

theorem sends {draw : Fin 10001} {svrId : UInt64} (hs : d.Sends draw svrId d') : KeepsTimes d d' := by
  cases hs <;> exact of_eq rfl

theorem decreaseProducerTask (d : Daemon) (svrId : UInt64) : KeepsTimes d (d.decreaseProducerTask svrId) := by
  cases hp : d.gSvrId2ProducerState.find? svrId with
  | none => exact of_eq (by rw [decreaseProducerTask_of_none hp])
  | some p => exact of_eq (by rw [decreaseProducerTask_of_some hp])

theorem countFailure (d : Daemon) (svrId : UInt64) : KeepsTimes d (d.countFailure svrId) := by
  unfold Daemon.countFailure
  split
  · exact of_eq rfl
  · split
    · intro id info hinfo
      rw [rebalance_infos] at hinfo
      exact ⟨info, (OrdMap.find?_erase_eq_some_iff.mp hinfo).2, rfl⟩
    · exact of_eq rfl

theorem checkProcAlive (d : Daemon) (now : Int) : KeepsTimes d (d.checkProcAlive now) := by
  intro id info hinfo
  rw [find?_checkProcAlive, Option.filter_eq_some_iff] at hinfo
  exact ⟨info, hinfo.1, rfl⟩

end KeepsTimes

/-- The entry of `id`, if there is one, is not older than any of the times `beats`. -/
def NotBefore (d : Daemon) (id : UInt64) (beats : List Int) : Prop :=
  ∀ info, d.gSvrId2SvrInfo.find? id = some info → ∀ b ∈ beats, b ≤ info.timestamp

theorem NotBefore.keeps {beats : List Int} (h : NotBefore d id beats) (hk : KeepsTimes d d') : NotBefore d' id beats := by
  intro info' hinfo' b hb
  obtain ⟨info, hinfo, ht⟩ := hk id info' hinfo'
  exact ht ▸ h info hinfo b hb

theorem NotBefore.silent {beats : List Int} (h : NotBefore d id beats) :
    NotBefore d id (beats ++ (none : Option Int).toList) := by
  rwa [Option.toList_none, List.append_nil]

theorem NotBefore.clientRegister {beats : List Int} (h : NotBefore d id beats) (hb : ∀ b ∈ beats, b ≤ now)
    (req : ClientRegisterRequest) (peer : String) (draw : Fin (2 ^ 31)) :
    NotBefore (d.clientRegister req peer draw now).2 id beats := by
  intro info hinfo b hbm
  obtain ⟨x, hx, rfl⟩ := Option.map_eq_some_iff.mp ((find?_clientRegister ..).symm.trans hinfo)
  have hle : b ≤ x.timestamp := by
    rw [OrdMap.find?_insertNew] at hx
    split at hx
    next => exact Option.some.inj hx ▸ hb b hbm
    next => exact h x hx b hbm
  split <;> exact hle

theorem NotBefore.heartBeat {beats : List Int} (h : NotBefore d id beats) (hb : ∀ b ∈ beats, b ≤ now)
    (req : HeartBeatRequest) :
    NotBefore (d.heartBeat req now).2 id (beats ++ if req.serverId = id then [now] else []) := by
  unfold Daemon.heartBeat
  cases hf : d.gSvrId2SvrInfo.find? req.serverId with
  | none =>
    intro info hinfo b hbm
    have hne : req.serverId ≠ id := by
      rintro rfl
      exact absurd (hf.symm.trans hinfo) nofun
    rw [if_neg hne, List.append_nil] at hbm
    exact h info hinfo b hbm
  | some x =>
    intro info hinfo b hbm
    rcases OrdMap.find?_set_eq_some_iff.mp hinfo with ⟨hid, rfl⟩ | ⟨hid, hinfo⟩
    · rw [if_pos hid.symm, List.mem_append, List.mem_singleton] at hbm
      rcases hbm with hbm | rfl
      · exact hb b hbm
      · exact le_rfl
    · rw [if_neg (Ne.symm hid), List.append_nil] at hbm
      exact h info hinfo b hbm

end Daemon

/-! ### Schedules -/

/-- An event and the time at which its critical section runs. -/
structure TimedEvent where
  clock : Int
  event : Event

/-- Registrations and heartbeats read the clock in their critical sections; a sweep has read it before. -/
def TimedEvent.Samples (x : TimedEvent) : Prop :=
  match x.event with
  | .clientRegister _ _ _ now | .heartBeat _ now => now = x.clock
  | .checkProcAlive now => now ≤ x.clock
  | _ => True

/-- The time that the event adds to the heartbeats of `id`. -/
def TimedEvent.beatOf (id : UInt64) (x : TimedEvent) : Option Int :=
  match x.event with
  | .heartBeat req now => if req.serverId = id then some now else none
  | _ => none

/-- The events of a run in the order of a clock that does not go back. -/
structure Schedule where
  events : List TimedEvent
  ordered : events.Pairwise fun x y => x.clock ≤ y.clock
  samples : ∀ x ∈ events, x.Samples

namespace Schedule
variable (w : Schedule) {id : UInt64} {i j : Nat} {reg sweep : TimedEvent} {now : Int}

/-- The state before event `n`. -/
def stateAt (n : Nat) : Option State := Runs.exec State.step AnyEvent ((w.events.take n).map (·.event)) {}

/-- Event `i` enters `id` in the registry. -/
def Registers (i : Nat) (id : UInt64) : Prop :=
  ∃ s t, w.stateAt i = some s ∧ w.stateAt (i + 1) = some t ∧
    id ∉ s.daemon.gSvrId2SvrInfo ∧ id ∈ t.daemon.gSvrId2SvrInfo

/-- Event `j` is a sweep at `now`, and it removes `id` from the registry. -/
def SweptAway (j : Nat) (now : Int) (id : UInt64) : Prop :=
  (∃ clock, w.events[j]? = some ⟨clock, .checkProcAlive now⟩) ∧
  ∃ s t, w.stateAt j = some s ∧ w.stateAt (j + 1) = some t ∧
    id ∈ s.daemon.gSvrId2SvrInfo ∧ id ∉ t.daemon.gSvrId2SvrInfo

/-- The times of event `i` and of the heartbeats of `id` after it. -/
def beats (i : Nat) (id : UInt64) : List Int :=
  (w.events[i]?.map (·.clock)).toList ++ (w.events.drop (i + 1)).filterMap (TimedEvent.beatOf id)

/-- The beats before event `j`. -/
def beatsBefore (i j : Nat) (id : UInt64) : List Int :=
  (w.events[i]?.map (·.clock)).toList ++ ((w.events.take j).drop (i + 1)).filterMap (TimedEvent.beatOf id)

theorem stateAt_succ {n : Nat} {x : TimedEvent} (hx : w.events[n]? = some x) :
    w.stateAt (n + 1) = (w.stateAt n).bind fun s => s.step x.event := by
  simp only [stateAt, List.take_add_one, hx, Option.toList_some, List.map_append, List.map_singleton, Runs.exec_snoc,
    if_true]

end Schedule

theorem TimedEvent.Samples.beat {x : TimedEvent} (h : x.Samples) {id : UInt64} {b : Int} (hb : x.beatOf id = some b) :
    b = x.clock := by
  obtain ⟨clock, e⟩ := x
  cases e with
  | heartBeat req now =>
    simp only [beatOf] at hb
    split at hb
    · exact Option.some.inj hb ▸ h
    · cases hb
  | _ => cases hb

/-- A step at `x.clock` keeps the entry of `id` from being older than the beats, its own included. -/
theorem notBefore_step {s t : State} {x : TimedEvent} {id : UInt64} {beats : List Int}
    (h : s.daemon.NotBefore id beats) (hb : ∀ b ∈ beats, b ≤ x.clock) (hx : x.Samples) (hs : State.Steps s x.event t) :
    t.daemon.NotBefore id (beats ++ (x.beatOf id).toList) := by
  obtain ⟨clock, e⟩ := x
  change State.Steps s e t at hs
  cases hs with
  | clientRegister =>
    obtain rfl := hx
    exact (h.clientRegister hb _ _ _).silent
  | @heartBeat req now =>
    obtain rfl : now = clock := hx
    have := h.heartBeat hb req
    simp only [TimedEvent.beatOf]
    split
    next hid => simpa [hid] using this
    next hid => simpa [hid] using this
  | loadBalance => exact (h.keeps (.loadBalance _ _ _)).silent
  | pushSend _ _ hd => exact (h.keeps (.sends hd)).silent
  | resendSend _ _ _ hd => exact (h.keeps (.sends hd)).silent
  | succeed | resend => exact (h.keeps (.decreaseProducerTask _ _)).silent
  | countFailure => exact (h.keeps (.countFailure _ _)).silent
  | checkProcAlive => exact (h.keeps (.checkProcAlive _ _)).silent
  | reBalanceTimer => exact (h.keeps (.of_eq Daemon.rebalance_infos)).silent
  | beginPush | pushWait | pushPastEnd | resendWait | resendPastEnd | reply | rpcFail => exact h.silent

namespace Schedule
variable (w : Schedule) {id : UInt64} {i j n : Nat} {now : Int}

theorem beatsBefore_succ {x : TimedEvent} (hx : w.events[n]? = some x) (hi : i < n) :
    w.beatsBefore i (n + 1) id = w.beatsBefore i n id ++ (x.beatOf id).toList := by
  have hn : n < w.events.length := (List.getElem?_eq_some_iff.mp hx).1
  have hdrop : (w.events.take (n + 1)).drop (i + 1) = (w.events.take n).drop (i + 1) ++ [x] := by
    rw [List.take_add_one, hx, Option.toList_some, List.drop_append_of_le_length (by rw [List.length_take]; omega)]
  rw [beatsBefore, hdrop, List.filterMap_append, ← List.append_assoc, ← beatsBefore]
  cases hb : x.beatOf id <;> simp [hb]

theorem beats_eq (hij : i < j) (hj : j ≤ w.events.length) :
    w.beats i id = w.beatsBefore i j id ++ (w.events.drop j).filterMap (TimedEvent.beatOf id) := by
  have hdrop : w.events.drop (i + 1) = (w.events.take j).drop (i + 1) ++ w.events.drop j := by
    rw [← List.drop_append_of_le_length (by rw [List.length_take]; omega), List.take_append_drop]
  rw [beats, hdrop, List.filterMap_append, ← List.append_assoc, beatsBefore]

/-- A beat is not after the events that follow it. -/
theorem beatsBefore_le {x : TimedEvent} (hx : w.events[n]? = some x) (hi : i < n) {b : Int}
    (hb : b ∈ w.beatsBefore i n id) : b ≤ x.clock := by
  have hle : ∀ y ∈ w.events.take n, y.clock ≤ x.clock := by
    intro y hy
    have hp := w.ordered
    rw [← List.take_append_drop n w.events, List.pairwise_append] at hp
    exact hp.2.2 y hy x (List.mem_of_getElem? (i := 0) (by simpa using hx))
  rcases List.mem_append.mp hb with hb | hb
  · obtain ⟨y, hy, rfl⟩ := Option.map_eq_some_iff.mp (Option.mem_toList.mp hb)
    exact hle y (List.mem_of_getElem? (i := i) (by rw [List.getElem?_take, if_pos hi, hy]))
  · obtain ⟨y, hy, hbeat⟩ := List.mem_filterMap.mp hb
    have hmem := List.mem_of_mem_drop hy
    exact (w.samples y (List.mem_of_mem_take hmem)).beat hbeat ▸ hle y hmem

/-- As long as an id that was entered at event `i` is in the registry, its timestamp is not before its beats. -/
theorem notBefore_of_registers (hreg : w.Registers i id) (hi : i < n) (hn : n ≤ w.events.length) {t : State}
    (ht : w.stateAt n = some t) : t.daemon.NotBefore id (w.beatsBefore i n id) := by
  induction n generalizing t with
  | zero => omega
  | succ n ih =>
    obtain ⟨x, hx⟩ : ∃ x, w.events[n]? = some x := ⟨_, List.getElem?_eq_getElem hn⟩
    rw [stateAt_succ w hx] at ht
    obtain ⟨s, hs, hstep⟩ := Option.bind_eq_some_iff.mp ht
    have hx' : x.Samples := w.samples x (List.mem_of_getElem? hx)
    rcases Nat.lt_succ_iff_lt_or_eq.mp hi with hlt | rfl
    · rw [w.beatsBefore_succ hx hlt]
      exact notBefore_step (ih hlt (by omega) hs) (fun b hb => w.beatsBefore_le hx hlt hb) hx' (State.steps_of_step hstep)
    · -- There was no entry before event `i`.
      obtain ⟨s', -, hs', -, hno, -⟩ := hreg
      obtain rfl := Option.some.inj (hs.symm.trans hs')
      have hnone : s.daemon.NotBefore id [x.clock] := fun info hinfo =>
        absurd (OrdMap.mem_iff.mpr ⟨info, hinfo⟩) hno
      have hbeats : w.beatsBefore i (i + 1) id = [x.clock] := by simp [beatsBefore, hx]
      have := notBefore_step hnone (fun b hb => (List.mem_singleton.mp hb).le) hx' (State.steps_of_step hstep)
      rw [hbeats]
      exact fun info hinfo b hb => this info hinfo b (List.mem_append_left _ hb)

/-- Some beat before the sweep is at most 10 seconds before its time. -/
theorem exists_recent_beat {clock : Int} (hij : i < j) (hj : w.events[j]? = some ⟨clock, .checkProcAlive now⟩)
    (hchain : (w.beats i id).IsChain fun a b => b - a ≤ 10)
    (hlast : ∀ b ∈ (w.beats i id).getLast?, now - b ≤ 10) : ∃ b ∈ w.beatsBefore i j id, now - b ≤ 10 := by
  have hlen : j < w.events.length := (List.getElem?_eq_some_iff.mp hj).1
  have hnow : now ≤ clock := w.samples _ (List.mem_of_getElem? hj)
  obtain ⟨reg, hreg⟩ : ∃ reg, w.events[i]? = some reg := ⟨_, List.getElem?_eq_getElem (by omega)⟩
  have hne : w.beatsBefore i j id ≠ [] := by simp [beatsBefore, hreg]
  have hget := List.getLast?_eq_some_getLast hne
  rw [w.beats_eq hij hlen.le] at hchain hlast
  refine ⟨_, List.getLast_mem hne, ?_⟩
  cases hafter : (w.events.drop j).filterMap (TimedEvent.beatOf id) with
  | nil => exact hlast _ (by rw [hafter, List.append_nil, hget]; rfl)
  | cons y l =>
    -- The next beat is not before the sweep, which has read the clock before.
    have hgap : y - (w.beatsBefore i j id).getLast hne ≤ 10 :=
      (List.isChain_append.mp hchain).2.2 _ hget y (by rw [hafter]; rfl)
    obtain ⟨z, hz, hbeat⟩ := List.mem_filterMap.mp (hafter ▸ List.mem_cons_self : y ∈ _)
    have hzc : clock ≤ z.clock := by
      rw [← List.getElem_cons_drop hlen, List.mem_cons] at hz
      obtain ⟨hlt, hget⟩ := List.getElem?_eq_some_iff.mp hj
      rcases hz with rfl | hz
      · rw [hget]
      · have hp := w.ordered
        rw [← List.take_append_drop j w.events, List.pairwise_append, ← List.getElem_cons_drop hlen] at hp
        have := List.rel_of_pairwise_cons hp.2.1 hz
        rwa [hget] at this
    have hy : y = z.clock := (w.samples z (List.mem_of_mem_drop hz)).beat hbeat
    omega

end Schedule

/-- A producer that is heard of at 8 and 18; the sweep of the time 15 gets the mutex at 16. -/
def heardOfTwice : Schedule where
  events := [⟨0, registerAs producerName⟩, ⟨8, .heartBeat ⟨5⟩ 8⟩, ⟨16, .checkProcAlive 15⟩, ⟨18, .heartBeat ⟨5⟩ 18⟩]
  ordered := by decide
  samples := by simp [TimedEvent.Samples, registerAs]

/-- A producer that was heard of at 8 and whose calls have failed three times. -/
def failedThrice : Daemon where
  gSvrId2SvrInfo := OrdMap.set ∅ 5 (.make "10.0.0.1:50053" producerName 601 8)
  gSvrId2ProducerState := OrdMap.set ∅ 5 ⟨some ⟨0, "10.0.0.1:50053"⟩, 2, 3⟩

end PushSystem
