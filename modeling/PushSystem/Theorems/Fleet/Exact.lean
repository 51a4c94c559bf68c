import PushSystem.Theorems.Audience.Exact
import PushSystem.Theorems.Fleet.Allowed

/-! Whom a push reaches. If updates run one after the other and fetch all rows, and the audience is computed from
    published bitmaps and kept while it is read, a push that is over has reached the users of its range that are in all
    three tables, and no others of it. -/

namespace PushSystem
open Redis Bitmap Prog

/-! ### The runs -/

/-- The pushes are `Bounded`, updates run one after the other, and the audience is kept while it is read. -/
def FleetOrderly (f : Fleet) : FleetEvent → Prop
  | .audience e => AudienceKept f.audience e ∧ OneUpdate f.audience e
  | e => FleetBounded f e

instance (f : Fleet) : (e : FleetEvent) → Decidable (FleetOrderly f e)
  | .audience e => inferInstanceAs (Decidable (AudienceKept f.audience e ∧ OneUpdate f.audience e))
  | .daemon e => inferInstanceAs (Decidable (FleetBounded f (.daemon e)))
  | .start _ | .receive _ _ | .reply _ => isTrue trivial

/-- An update that fetches leaves no row of its result set. -/
def Fleet.Fetched (f : Fleet) : FleetEvent → Fleet → Prop
  | .audience e, g => f.audience.Fetched e g.audience
  | _, _ => True

/-- The runs of the fleet from the stores that are orderly and whose fetches are complete. -/
def OrderlyReaches (w : Stores) (f : Fleet) : Prop :=
  Runs.Reaches (fun f e g => FleetOrderly f e ∧ f.Fetched e g ∧ Fleet.Trans f e g) { audience := { stores := w } } f

theorem FleetOrderly.bounded {f : Fleet} {e : FleetEvent} (h : FleetOrderly f e) : FleetBounded f e := by
  cases e with
  | audience => trivial
  | start | daemon | receive | reply => exact h

/-! ### The invariant -/

/-- The bitmaps are exact, also those that have been read. -/
structure Fleet.Exact (tables : String → List UserRow) (f : Fleet) : Prop where
  inv : FleetInv f
  grid : GridInv f.daemon
  kept : AudienceInv f.audience
  audience : f.audience.Exact tables
  bitmaps : ∀ pid i bitmap, f.bitmaps pid i = some bitmap → MarksAll tables bitmap

section Exact
variable {tables : String → List UserRow} {f g : Fleet} {e : FleetEvent}

/-- The audience exists when it is read. -/
theorem Fleet.Exact.note (h : f.Exact tables) (e : AudienceEvent) :
    ∀ pid i bitmap, f.note e pid i = some bitmap → MarksAll tables bitmap := by
  intro pid i bitmap hb
  rcases f.note_cases e with heq | ⟨pid', i', p, x, key, first, last, rfl, hp, hi, hn, heq⟩
  · exact h.bitmaps pid i bitmap (heq ▸ hb)
  · obtain ⟨k, hprog⟩ := Handler.prog_of_next hn
    have hcommands := (h.kept.safe pid' p i' x hp hi).commands
    rw [hprog] at hcommands
    obtain rfl := (hcommands.1 _ rfl).getrange
    by_cases hsame : (pid, i) = (pid', i')
    · obtain ⟨rfl, rfl⟩ := Prod.mk.inj hsame
      have hreading : x.reading := by
        rw [Handler.reading, hprog]
        rfl
      obtain ⟨entry, hentry⟩ := Option.isSome_iff_exists.mp
        (h.kept.reading ⟨p, List.mem_of_getElem? hp, x, List.mem_of_getElem? hi, hreading⟩)
      rw [heq, Function.update_self, Function.update_self] at hb
      obtain rfl := Option.some.inj hb
      have hvalue : f.audience.stores.redis.value tmpUserInfoKey = entry.bytes := by simp [Store.value, hentry]
      rw [hvalue]
      exact h.audience.stores.audience entry hentry
    · rw [Fleet.note_of_ne hsame] at hb
      exact h.bitmaps pid i bitmap hb

theorem Fleet.Exact.step (h : f.Exact tables) (hok : FleetOrderly f e) (hfetched : f.Fetched e g) (ht : f.Trans e g) :
    g.Exact tables := by
  have hs := Fleet.steps_of_trans ht
  have hgrid := hs.grid hok.bounded h.grid
  rcases ht.audience_cases with ⟨haudience, hbitmaps⟩ | ⟨e', htrans, ⟨rfl, hbitmaps⟩ | ⟨harrival, hbitmaps⟩⟩
  · exact ⟨h.inv.step hs, hgrid, haudience ▸ h.kept, haudience ▸ h.audience, hbitmaps ▸ h.bitmaps⟩
  · refine ⟨h.inv.step hs, hgrid, h.kept.keep hok.1 htrans,
      h.audience.trans h.kept hok.1 hok.2 hfetched htrans, ?_⟩
    rw [hbitmaps]
    exact h.note e'
  · have hfree : AudienceKept f.audience e' ∧ OneUpdate f.audience e' ∧ f.audience.Fetched e' g.audience := by
      cases e' with
      | start | process => exact ⟨trivial, trivial, trivial⟩
      | update | redis | updater | expire => cases harrival
    exact ⟨h.inv.step hs, hgrid, h.kept.keep hfree.1 htrans,
      h.audience.trans h.kept hfree.1 hfree.2.1 hfree.2.2 htrans, hbitmaps ▸ h.bitmaps⟩

theorem Fleet.exact_of_reaches {w : Stores} (hw : w.Exact tables) (hreal : w.NoneOrReal) (h : OrderlyReaches w f) :
    f.Exact tables := by
  have hkept : AudienceInv { stores := w } := by
    refine ⟨hreal, fun ⟨_, hp, _⟩ => (List.not_mem_nil hp).elim, fun _ hu => (List.not_mem_nil hu).elim,
      fun _ _ _ _ hp => ?_⟩
    simp at hp
  exact Runs.Reaches.invariant h ⟨.init w, gridInv_of_reaches .refl, hkept,
    .init hw, fun _ _ _ hb => by cases hb⟩ fun f e g hf ⟨hok, hfetched, ht⟩ => hf.step hok hfetched ht

end Exact

/-- A push that starts at a byte and is over has reached a user of its range, up to `END_UID`, exactly if the user is
    in all three tables: then one of the messages that the broker has accepted from the request of the call that holds
    the user is to the user. -/
theorem push_reaches {tables : String → List UserRow} {w : Stores} (hw : w.Exact tables) (hreal : w.NoneOrReal)
    {f : Fleet} (h : OrderlyReaches w f) {p : Nat} {x : Push} (ho : f.PushOver p x)
    (hstart : x.request.startUid.toNat % 8 = 0) {uid : UInt64} (hu : x.request.Covers uid)
    (hend : x.request.endUid ≤ endUid) :
    ∃ call pid i c r, f.daemon.holders p uid = [.answered call] ∧ f.Link call pid i c r ∧
      (∀ send ∈ r.data.sends, send.stage = .acked) ∧
      (⟨uid, x.request.msgId⟩ ∈ r.data.sends.map (·.body) ↔ ∀ tag, HasUid tables tag uid.toNat) := by
  have hf := Fleet.exact_of_reaches hw hreal h
  obtain ⟨call, pid, i, c, r, bitmap, hholders, hl, hstop, hbitmap, haccepted, hsent⟩ :=
    hf.inv.delivered hf.grid ho hstart hu
  have hmarks := hf.bitmaps pid i bitmap hbitmap
  have hcovers := UInt64.le_iff_toNat_le.mp hu.2
  have hstop := UInt64.le_iff_toNat_le.mp hstop
  have hend : x.request.endUid.toNat ≤ 100000000 := UInt64.le_iff_toNat_le.mp hend
  refine ⟨call, pid, i, c, r, hholders, hl, haccepted, ?_⟩
  rw [hsent (by rw [hmarks.length]; omega), hmarks.bits]
  exact and_iff_right (by omega)

/-- A run of the fleet that is given by its events, none of which is a step of an update. -/
theorem OrderlyReaches.of_events (P : Fleet → Prop) [DecidablePred P] (w : Stores) (es : List FleetEvent)
    (h : (Runs.exec Fleet.step FleetOrderly es { audience := { stores := w } }).any (fun f => decide (P f)) = true) :
    ∃ f, OrderlyReaches w f ∧ P f := by
  obtain ⟨f, hrun, hf⟩ := Runs.exists_of_exec es h
  refine ⟨f, hrun.mono fun f e g ⟨hok, hs⟩ => ⟨hok, ?_, .step hs⟩, hf⟩
  cases e with
  | audience e =>
    cases e with
    | updater j =>
      -- the outcome of a step of an update is not given by its event
      have hs : f.step (.audience (.updater j)) = some g := hs
      simp [Fleet.step, Audience.step] at hs
    | start | update | process | redis | expire => trivial
  | start | daemon | receive | reply => trivial

/-- The audience whose only user is 0, as it is computed from bitmaps that end with their table's windows. -/
def onlyUser : List Byte := 0x80 :: List.replicate 12500479 0

theorem testBit_onlyUser {uid : Nat} : testBit onlyUser uid ↔ uid = 0 := by
  rcases Nat.lt_or_ge uid 8 with hlt | hge
  · have hbyte : testBit onlyUser uid = testBit [0x80] uid := by
      have hdiv : uid / 8 = 0 := by omega
      simp only [testBit, onlyUser, hdiv, List.getD_cons_zero]
    have h : ∀ uid < 8, testBit [0x80] uid ↔ uid = 0 := by decide
    rw [hbyte]
    exact h uid hlt
  · have hzero : testBit onlyUser uid = testBit (List.replicate 12500479 0) (uid - 8) := by
      have hdiv : uid / 8 = (uid - 8) / 8 + 1 := by omega
      have hmod : uid % 8 = (uid - 8) % 8 := by omega
      simp only [testBit, onlyUser, hdiv, hmod, List.getD_cons_succ]
    have hne : uid ≠ 0 := by omega
    rw [hzero, testBit_replicate_zero]
    simpa using hne

/-- Each table has the user 0 only, and the audience has been computed. -/
def onlyUserStores : Stores where
  tables := fun _ => [⟨0, 1⟩]
  redis := fun key => if key = tmpUserInfoKey then some ⟨onlyUser, some (30 * 60)⟩ else none

theorem onlyUserStores_exact : onlyUserStores.Exact fun _ => [⟨0, 1⟩] := by
  refine ⟨rfl, fun tag entry hentry => ?_, fun entry hentry => ?_⟩
  · have hnone : onlyUserStores.redis (genReleaseKey (userInfoKey tag)) = none := by
      simp only [onlyUserStores, if_neg (release_ne_tmp tag)]
    rw [hnone] at hentry
    cases hentry
  · have hsome : onlyUserStores.redis tmpUserInfoKey = some ⟨onlyUser, some (30 * 60)⟩ := by
      simp only [onlyUserStores, if_true]
    rw [hsome] at hentry
    obtain rfl := Option.some.inj hentry
    refine ⟨by rw [onlyUser, List.length_cons, List.length_replicate], fun uid => ?_⟩
    have hrow : ∀ tag, HasUid (fun _ => [⟨0, 1⟩]) tag uid ↔ uid = 0 := fun tag => by simp [HasUid, eq_comm]
    simp only [testBit_onlyUser, hrow, forall_const]
    omega

theorem push_reaches_onlyUser : ∃ f : Fleet, OrderlyReaches onlyUserStores f ∧ ∀ uid : UInt64, uid ≤ 7 →
    ∃ call pid i c r, f.daemon.holders 0 uid = [.answered call] ∧ f.Link call pid i c r ∧
      (∀ send ∈ r.data.sends, send.stage = .acked) ∧
      (⟨uid, 1⟩ ∈ r.data.sends.map (·.body) ↔ ∀ tag, HasUid (fun _ => [⟨0, 1⟩]) tag uid.toNat) := by
  obtain ⟨f, hf, hsettled, x, hx, hrequest, hend⟩ := OrderlyReaches.of_events
    (fun f => (∀ c ∈ f.daemon.calls, c.push = 0 → c.Settled) ∧
      ∃ x ∈ f.daemon.pushes[0]?, x.request = ⟨1, 0, 7⟩ ∧ x.request.endUid < x.curUid)
    onlyUserStores (onePush ++ readsAndSends 0 ++
      [.audience (.process 0 (.broker 0 (.onSuccess 0))), .reply 0, .daemon (.handleCompletion 0)]) (by decide +kernel)
  refine ⟨f, hf, fun uid huid => ?_⟩
  have hreaches := @push_reaches _ _ onlyUserStores_exact (fun _ => rfl) f hf 0 x ⟨hx, hend, hsettled⟩
    (by rw [hrequest]; decide) uid (by rw [hrequest]; exact ⟨UInt64.zero_le, huid⟩) (by rw [hrequest]; decide)
  rwa [hrequest] at hreaches

end PushSystem
