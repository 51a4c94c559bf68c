import PushSystem.Theorems.UserInfoUpdate.Faultless

/-! Published bitmaps are complete, as long as `mysql_fetch_row` does not fail part way through a result. -/

namespace PushSystem
open Redis Bitmap Prog

/-- The entry has a bitmap that is complete: up to `END_UID` its bits are the uids of the table. -/
def Complete (tables : String → List UserRow) (tag : Tag) (entry : Option Entry) : Prop :=
  ∃ e, entry = some e ∧ ∀ uid ≤ endUid.toNat, (testBit e.bytes uid ↔ HasUid tables tag uid)

/-- `mysql_fetch_row` returns a null pointer only when nothing of the result set is left. -/
def RowsFetched : Machine UpdaterOp UpdaterOp.Ret UpdaterState
  | .fetchRows, _, _, _, t => t.result = []
  | _, _, _, _, _ => True

theorem fetched_true_iff {tables : String → List UserRow} {tag : Tag} {uid : Nat} :
    Fetched tables tag (fun _ => True) uid ↔ HasUid tables tag uid := by
  simp [Fetched, HasUid]

/-- Whatever is given up, at any moment of an update whose fetches are complete the RELEASE key is as it was
    or holds the complete bitmap. -/
theorem release_complete {tag : Tag} {s t : UpdaterState} {th : Thread UpdaterOp UpdaterOp.Ret Unit}
    (h : Reaches (updaterTry.under RowsFetched) Producers (updateUserInfo tag) s th t) :
    t.release tag = s.release tag ∨ Complete s.stores.tables tag (t.release tag) := by
  have hfetch : ∀ n s r t, (updaterTry.under RowsFetched) .fetchRows n s (some r) t →
      ∀ x, x ∈ r ↔ x ∈ s.result ∧ True := by
    rintro n s r t ⟨⟨m, hr, rfl⟩, hleft⟩ x
    have hleft : s.result.drop m = [] := hleft
    have hall : s.result.take m = s.result := by
      have := List.take_append_drop m s.result
      rwa [hleft, List.append_nil] at this
    rw [Option.some.inj hr, hall, and_true]
  have hw := wp_updateUserInfo (M := updaterTry.under RowsFetched) (E := Producers) tag
    (fun _ _ _ _ _ hm => hm.1) (fun _ _ he => he) hfetch s
  have hend := (h.holds hw ⟨fun _ s t hp _ he => hp.producers he, fun _ _ _ _ _ _ => trivial⟩).inv
  refine hend.release.imp_right fun ⟨e, he, hbits⟩ => ⟨e, he, fun uid huid => ?_⟩
  exact (hbits uid huid).trans fetched_true_iff

/-- The official fan 5 is the only user, and nothing has been published. -/
def oneFan : UpdaterState :=
  { stores := { tables := fun name => if name = "official_fans" then [⟨5, 1⟩] else [] } }

theorem release_complete_oneFan : ∃ t, Returns (updaterTry.under RowsFetched) Producers (updateUserInfo 0) oneFan () t ∧
    t.release 0 ≠ none ∧ (t.release 0 = none ∨ Complete oneFan.stores.tables 0 (t.release 0)) := by
  have hanswer : ∀ o s, (updaterTry.under RowsFetched) o 0 s (some (answer List.length 0 o s).1)
      (answer List.length 0 o s).2 := by
    intro o s
    refine ⟨updaterTry_answer _ _ o s, ?_⟩
    cases o <;> first | trivial | exact List.drop_length
  have hrun := returns_eval_unit (E := Producers) hanswer (updateUserInfo 0) oneFan
  obtain ⟨e, he, -⟩ :=
    (eval_updateUserInfo List.length 0 (s := oneFan) (F := fun _ => True) (fun rows x => by simp) (Or.inl rfl)).release
  exact ⟨_, hrun, by rw [he]; simp, release_complete hrun⟩

/-- Every fetch fails at once, and the empty bitmap is published. -/
theorem release_incomplete : ∃ t, Returns updaterTry Producers (updateUserInfo 0) oneFan () t ∧
    ¬(t.release 0 = oneFan.release 0 ∨ Complete oneFan.stores.tables 0 (t.release 0)) := by
  obtain ⟨e, he, henc⟩ :=
    (eval_updateUserInfo (fun _ => 0) 0 (s := oneFan) (F := fun _ => False) (fun rows x => by simp) (Or.inl rfl)).release
  refine ⟨_, returns_eval_unit (updaterTry_answer (fun _ => 0) 0) (updateUserInfo 0) oneFan, ?_⟩
  rw [he]
  rintro (hnone | ⟨e', he', hbits⟩)
  · cases hnone
  · obtain rfl := Option.some.inj he'
    have hfan : HasUid oneFan.stores.tables 0 5 := ⟨⟨5, 1⟩, List.mem_singleton_self _, rfl, by decide⟩
    obtain ⟨-, row, -, -, -, hfetched⟩ := (henc.bits 5).mp ((hbits 5 (by decide)).mpr hfan)
    exact hfetched

end PushSystem
