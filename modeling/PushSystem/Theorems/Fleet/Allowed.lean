import PushSystem.Theorems.Audience.Within
import PushSystem.Theorems.Fleet.Delivery

/-! Who is sent a message. Whatever fails, and while the user tables change, no message goes to a user that one of the
    three tables has never had, unless a range is read past the end of the bitmap. -/

namespace PushSystem
open Redis Bitmap Prog

/-! ### The producers, the updates and Redis -/

section Audience
variable {f g : Fleet} {e : FleetEvent}

/-- A step of the fleet is one of the daemon, or one of the processes, the updates or Redis as they would make it
    alone. -/
theorem Fleet.Trans.audience_cases (h : f.Trans e g) :
    g.audience = f.audience ∧ g.bitmaps = f.bitmaps ∨
      ∃ e', f.audience.Trans e' g.audience ∧ (e = .audience e' ∧ g.bitmaps = f.note e' ∨
        e'.isArrival ∧ g.bitmaps = f.bitmaps) := by
  cases h with
  | @updater j audience h => exact Or.inr ⟨_, h, Or.inl ⟨rfl, rfl⟩⟩
  | step h =>
    cases e with
    | start address =>
      obtain rfl := Option.some.inj h
      exact Or.inr ⟨.start, .step rfl, Or.inr ⟨rfl, rfl⟩⟩
    | daemon e =>
      change (if _ then _ else _) = _ at h
      split at h
      next => cases h
      next =>
        obtain ⟨daemon, -, h⟩ := Option.bind_eq_some_iff.mp h
        obtain rfl := Option.some.inj h
        exact Or.inl ⟨rfl, rfl⟩
    | audience e =>
      change (if _ then _ else _) = _ at h
      split at h
      next => cases h
      next =>
        obtain ⟨audience, ha, h⟩ := Option.bind_eq_some_iff.mp h
        obtain rfl := Option.some.inj h
        exact Or.inr ⟨_, .step ha, Or.inl ⟨rfl, rfl⟩⟩
    | receive call pid =>
      obtain ⟨c, -, h⟩ := Option.bind_eq_some_iff.mp h
      obtain ⟨stub, -, h⟩ := Option.bind_eq_some_iff.mp h
      obtain ⟨address, -, h⟩ := Option.bind_eq_some_iff.mp h
      obtain ⟨p, -, h⟩ := Option.bind_eq_some_iff.mp h
      split at h
      next =>
        obtain ⟨audience, ha, h⟩ := Option.bind_eq_some_iff.mp h
        obtain rfl := Option.some.inj h
        exact Or.inr ⟨_, .step ha, Or.inr ⟨rfl, rfl⟩⟩
      next => cases h
    | reply call =>
      obtain ⟨x, -, h⟩ := Option.bind_eq_some_iff.mp h
      obtain ⟨p, -, h⟩ := Option.bind_eq_some_iff.mp h
      obtain ⟨x, -, h⟩ := Option.bind_eq_some_iff.mp h
      obtain ⟨reply, -, h⟩ := Option.bind_eq_some_iff.mp h
      obtain ⟨daemon, -, h⟩ := Option.bind_eq_some_iff.mp h
      obtain rfl := Option.some.inj h
      exact Or.inl ⟨rfl, rfl⟩

end Audience

/-! ### The bitmaps that are read -/

/-- A bitmap marks users only that are allowed for all three tables. -/
def BitmapWithin (Allowed : Tag → Nat → Prop) (bitmap : List Byte) : Prop :=
  ∀ uid, testBit bitmap uid → ∀ tag, Allowed tag uid

section Bitmaps
variable {Allowed : Tag → Nat → Prop} {f g : Fleet} {e : FleetEvent}

/-- A request reads the audience only. -/
theorem AudienceCommand.getrange {key : String} {first last : Nat} (h : AudienceCommand (.getrange key first last)) :
    key = tmpUserInfoKey := by
  obtain ⟨startUid, endUid, h⟩ := h
  cases h with
  | getrange => rfl

theorem Fleet.note_within (h : f.audience.Within Allowed)
    (hf : ∀ pid i bitmap, f.bitmaps pid i = some bitmap → BitmapWithin Allowed bitmap) (e : AudienceEvent) :
    ∀ pid i bitmap, f.note e pid i = some bitmap → BitmapWithin Allowed bitmap := by
  intro pid i bitmap hb
  rcases f.note_cases e with heq | ⟨pid', i', p, h', key, first, last, rfl, hp, hi, hn, heq⟩
  · exact hf pid i bitmap (heq ▸ hb)
  · have hcommand := (h.commands p (List.mem_of_getElem? hp) h' (List.mem_of_getElem? hi)).next hn
    obtain rfl := hcommand.getrange
    by_cases hsame : (pid, i) = (pid', i')
    · obtain ⟨rfl, rfl⟩ := Prod.mk.inj hsame
      rw [heq, Function.update_self, Function.update_self] at hb
      obtain rfl := Option.some.inj hb
      exact fun uid hbit => marks_tmp.mp (h.stores.bits _ uid hbit)
    · rw [Fleet.note_of_ne hsame] at hb
      exact hf pid i bitmap hb

end Bitmaps

/-! ### Runs -/

/-- The chunks are on their grid, and all bitmaps that have been read are within what is allowed. -/
structure Fleet.Within (Allowed : Tag → Nat → Prop) (f : Fleet) : Prop where
  inv : FleetInv f
  grid : GridInv f.daemon
  audience : f.audience.Within Allowed
  bitmaps : ∀ pid i bitmap, f.bitmaps pid i = some bitmap → BitmapWithin Allowed bitmap

section Runs
variable {Allowed : Tag → Nat → Prop} {f g : Fleet} {e : FleetEvent}

/-- The chunks stay on the grid of their pushes. -/
theorem Fleet.Steps.grid (hs : f.Steps e g) (hok : FleetBounded f e) (hgrid : GridInv f.daemon) : GridInv g.daemon := by
  rcases hs.daemon_cases with heq | ⟨e', rfl, -, hd⟩ | ⟨call, _, _, _, reply, rfl, -, -, -, hd⟩
  · rwa [heq]
  · exact hgrid.step hok hd
  · have hbounded : PushesBounded f.daemon (.completion call (.reply reply.err)) := trivial
    exact hgrid.step hbounded hd

theorem Fleet.Within.step (h : f.Within Allowed) (hok : FleetBounded f e) (ht : f.Trans e g) : g.Within Allowed := by
  have hs := Fleet.steps_of_trans ht
  have hgrid := hs.grid hok h.grid
  rcases ht.audience_cases with ⟨haudience, hbitmaps⟩ | ⟨e', htrans, hbitmaps⟩
  · exact ⟨h.inv.step hs, hgrid, haudience ▸ h.audience, hbitmaps ▸ h.bitmaps⟩
  · refine ⟨h.inv.step hs, hgrid, h.audience.trans htrans, ?_⟩
    rcases hbitmaps with ⟨-, hbitmaps⟩ | ⟨-, hbitmaps⟩
    · rw [hbitmaps]
      exact Fleet.note_within h.audience h.bitmaps e'
    · rw [hbitmaps]
      exact h.bitmaps

/-- The tables change to others that have allowed users only. -/
theorem Fleet.Within.write (h : f.Within Allowed) {tables : String → List UserRow}
    (htables : ∀ tag uid, HasUid tables tag uid → Allowed tag uid) : (f.write tables).Within Allowed := by
  have hs : f.Steps (.audience .expire) (f.write tables) := .stores rfl
  have hstores : Stores.Within Allowed { f.audience.stores with tables } := ⟨htables, h.audience.stores.bits⟩
  exact ⟨h.inv.step hs, h.grid, ⟨hstores, h.audience.beside hstores, h.audience.commands⟩, h.bitmaps⟩

end Runs

/-- The pushes are `Bounded`, and the tables are only given users that are allowed. -/
def ServiceAllowed (Allowed : Tag → Nat → Prop) (f : Fleet) : ServiceEvent → Prop
  | .fleet e => FleetBounded f e
  | .write tables => ∀ tag uid, HasUid tables tag uid → Allowed tag uid

/-- The runs of the fleet from the stores, beside those who write the tables. -/
def ServiceReaches (Allowed : Tag → Nat → Prop) (w : Stores) (f : Fleet) : Prop :=
  Runs.Reaches (Runs.under Fleet.ServiceTrans (ServiceAllowed Allowed)) { audience := { stores := w } } f

theorem Fleet.within_of_reaches {Allowed : Tag → Nat → Prop} {w : Stores} {f : Fleet} (hw : w.Within Allowed)
    (h : ServiceReaches Allowed w f) : f.Within Allowed := by
  refine Runs.Reaches.invariant h ⟨.init w, gridInv_of_reaches .refl, .init hw,
    fun _ _ _ hb => by cases hb⟩ fun f e g hf ⟨hok, hs⟩ => ?_
  cases hs with
  | fleet ht => exact hf.step hok ht
  | write => exact hf.write hok

/-- A message of a push that starts at a byte goes to a user that is allowed for all three tables, if its byte is inside
    the bitmap that its request has read. -/
theorem messages_allowed {Allowed : Tag → Nat → Prop} {w : Stores} (hw : w.Within Allowed) {f : Fleet}
    (h : ServiceReaches Allowed w f) {pid i : Nat} {r : Handler} {send : Send} (hr : f.request? pid i = some r)
    (hsend : send ∈ r.data.sends) :
    ∃ call c x bitmap, f.Link call pid i c r ∧ f.daemon.pushes[c.push]? = some x ∧ f.bitmaps pid i = some bitmap ∧
      (x.request.startUid.toNat % 8 = 0 → send.body.toUid.toNat / 8 < bitmap.length →
        ∀ tag, Allowed tag send.body.toUid.toNat) := by
  have hf := Fleet.within_of_reaches hw h
  obtain ⟨bitmap, userInfoStr, hbitmap, hcopied, hbody⟩ := (hf.inv.decodes pid i r hr).mem_sends hsend
  obtain ⟨uid, huid, hbody⟩ := List.mem_map.mp hbody
  obtain ⟨call, hcall⟩ := hf.inv.linked.origin pid i r hr
  obtain ⟨c, r', hl⟩ := hf.inv.linked.link call pid i hcall
  obtain rfl := Option.some.inj (hr.symm.trans hl.request)
  have hmem := List.mem_of_getElem? hl.sent
  obtain ⟨x, hx, hfits⟩ := hf.grid.chunks.fits c hmem
  obtain ⟨y, hy, hgrid⟩ := hf.grid.calls c hmem
  obtain rfl := Option.some.inj (hx.symm.trans hy)
  refine ⟨call, c, x, bitmap, hl, hx, hbitmap, fun hstart hin => ?_⟩
  rw [← hbody] at hin ⊢
  rw [hl.same] at hcopied huid
  exact hf.bitmaps pid i bitmap hbitmap uid.toNat (hcopied.bit hfits.nonempty (hgrid.aligned hstart) huid hin)

/-- A run of the fleet that is given by its events. -/
theorem ServiceReaches.of_events (Allowed : Tag → Nat → Prop) (P : Fleet → Prop) [DecidablePred P] (w : Stores)
    (es : List FleetEvent)
    (h : (Runs.exec Fleet.step FleetBounded es { audience := { stores := w } }).any (fun f => decide (P f)) = true) :
    ∃ f, ServiceReaches Allowed w f ∧ P f := by
  obtain ⟨f, hrun, hf⟩ := Runs.exists_of_exec es h
  exact ⟨f, Runs.Reaches.invariant hrun .refl fun f e g hg hs =>
    Runs.Reaches.step (e := .fleet e) hg ⟨hs.1, .fleet (.step hs.2)⟩, hf⟩

/-- The bitmaps that have been published mark the user 0 only. -/
theorem within_publishedStores : (publishedStores [0, 1, 2]).Within fun _ uid => uid = 0 := by
  have hbyte : ∀ uid, testBit [0x80] uid → uid = 0 := by
    intro uid hbit
    rcases Nat.lt_or_ge uid 8 with hlt | hge
    · have h : ∀ uid < 8, testBit [0x80] uid → uid = 0 := by decide
      exact h uid hlt hbit
    · rw [testBit_eq_false (by simpa using hge)] at hbit
      cases hbit
  refine ⟨fun _ _ ⟨_, hrow, _⟩ => (List.not_mem_nil hrow).elim, fun key uid hbit => ?_⟩
  have hzero : uid = 0 := by
    by_cases hkey : key ∈ [0, 1, 2].map fun tag : Tag => genReleaseKey (userInfoKey tag)
    · simp only [Store.value, publishedStores, if_pos hkey, Option.map_some, Option.getD_some] at hbit
      exact hbyte uid hbit
    · simp only [Store.value, publishedStores, if_neg hkey, Option.map_none, Option.getD_none, testBit_nil] at hbit
      cases hbit
  exact ⟨fun _ _ => hzero, fun _ _ => hzero, fun _ _ => hzero⟩

/-- The user 0 is sent its message, although the tables have no rows any more. -/
theorem messages_allowed_sent : ∃ f : Fleet, ∃ r send bitmap, f.audience.stores.tables = (fun _ => []) ∧
    f.request? 0 0 = some r ∧ send ∈ r.data.sends ∧ f.bitmaps 0 0 = some bitmap ∧
      (send.body.toUid.toNat / 8 < bitmap.length → ∀ _ : Tag, send.body.toUid.toNat = 0) := by
  obtain ⟨f, hrun, hsent, hpushes⟩ := ServiceReaches.of_events (fun _ uid => uid = 0)
    (fun f => (f.request? 0 0).map (fun r => r.data.sends.map (·.body)) = some [⟨0, 1⟩] ∧
      ∀ x ∈ f.daemon.pushes, x.request.startUid.toNat % 8 = 0)
    (publishedStores [0, 1, 2]) (onePush ++ computesAndSends 0) (by decide +kernel)
  have hwrite : ServiceReaches (fun _ uid => uid = 0) (publishedStores [0, 1, 2]) (f.write fun _ => []) :=
    Runs.Reaches.step (e := .write fun _ => []) hrun ⟨fun _ _ ⟨_, hrow, _⟩ => (List.not_mem_nil hrow).elim, .write⟩
  obtain ⟨r, hr, hbodies⟩ := Option.map_eq_some_iff.mp hsent
  obtain ⟨send, hsends, -⟩ := List.map_eq_singleton_iff.mp hbodies
  have hr : (f.write fun _ => []).request? 0 0 = some r := hr
  have hsend : send ∈ r.data.sends := hsends ▸ List.mem_singleton_self _
  obtain ⟨_, _, x, bitmap, -, hx, hbitmap, hallowed⟩ := messages_allowed within_publishedStores hwrite hr hsend
  exact ⟨f.write fun _ => [], r, send, bitmap, rfl, hr, hsend, hbitmap, hallowed (hpushes x (List.mem_of_getElem? hx))⟩

end PushSystem
