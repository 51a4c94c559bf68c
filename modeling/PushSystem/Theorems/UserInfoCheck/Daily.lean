import PushSystem.UserInfoCheck
import PushSystem.Theorems.UserInfoUpdate.Faultless

/-! When a check calls `UpdateUserInfo`. The month and the day of the month are compared, so a record is taken for
    one of today on its anniversaries too. -/

namespace PushSystem
open Calendar

/-- The same calendar day. -/
def SameDay (d e : Date) : Prop := d.year = e.year ∧ d.mon = e.mon ∧ d.mday = e.mday

/-- The same day of the year, which is what is compared. -/
def SameMonthAndDay (d e : Date) : Prop := d.mday = e.mday ∧ d.mon = e.mon

theorem sameDay_iff {d e : Date} : SameDay d e ↔ SameMonthAndDay d e ∧ d.year = e.year :=
  ⟨fun ⟨hy, hm, hd⟩ => ⟨⟨hd, hm⟩, hy⟩, fun ⟨⟨hd, hm⟩, hy⟩ => ⟨hy, hm, hd⟩⟩

/-- Two instants fall on the same date if they fall on the same day. -/
theorem sameDay_localtime_iff {offset : Int} {t now : UInt64} :
    SameDay (localtime offset t) (localtime offset now) ↔ localDay offset t = localDay offset now := by
  rw [← Date.ofDayNumber_inj, ← localtime, ← localtime, Date.ext_iff, SameDay]

/-- An anniversary is at least 365 days later. -/
theorem localDay_add_le {offset : Int} {t now : UInt64}
    (h : SameMonthAndDay (localtime offset t) (localtime offset now))
    (hne : ¬SameDay (localtime offset t) (localtime offset now)) :
    localDay offset t + 365 ≤ localDay offset now ∨ localDay offset now + 365 ≤ localDay offset t := by
  have hyear : (localtime offset t).year ≠ (localtime offset now).year := fun hy => hne (sameDay_iff.mpr ⟨h, hy⟩)
  rcases Int.lt_or_gt_of_ne hyear with hlt | hlt
  · have hle := Date.dayNumber_add_le h.2 h.1 hlt
    rw [localtime, localtime, Date.dayNumber_ofDayNumber, Date.dayNumber_ofDayNumber] at hle
    exact Or.inl hle
  · have hle := Date.dayNumber_add_le h.2.symm h.1.symm hlt
    rw [localtime, localtime, Date.dayNumber_ofDayNumber, Date.dayNumber_ofDayNumber] at hle
    exact Or.inr hle

/-! ### One check -/

/-- A check updates unless its `SELECT` is given up or it fetches a record of the same month and day. -/
theorem Check.updates_iff {c : Check} {offset : Int} {recorded : Option UInt64} :
    c.Updates offset recorded ↔
      c.selected = true ∧
        ∀ t ∈ recorded, c.fetched = true → ¬SameMonthAndDay (localtime offset t) (localtime offset c.now) := by
  obtain ⟨tag, now, selected, fetched⟩ := c
  unfold Check.Updates checkAndUpdateUserInfo
  cases selected with
  | false => simp [Check.answer, Prog.pure_def]
  | true =>
    cases fetched with
    | false => simp [Check.answer]
    | true =>
      cases recorded with
      | none => simp [Check.answer]
      | some t =>
        by_cases h : SameMonthAndDay (localtime offset t) (localtime offset now)
        · have hcond := h
          unfold SameMonthAndDay at hcond
          simp [Check.answer, Prog.pure_def, hcond, h]
        · have hcond := h
          unfold SameMonthAndDay at hcond
          simp [Check.answer, hcond, h]

/-! ### Runs -/

namespace Checked

/-- The check skipped the update if the record is one of the same day, and only then; so it updated if the record
    is one of an earlier day. -/
def Daily (offset : Int) (x : Checked) : Prop :=
  ∀ t ∈ x.recorded,
    (x.updated = false ↔ SameDay (localtime offset t) (localtime offset x.check.now)) ∧
      (localDay offset t < localDay offset x.check.now → x.updated = true)

/-- What makes a check decide by the day: the record that it fetches is not one of the same month and day of another
    year; a record that it does not come to fetch is one of the same day; one that it fails to fetch is not. -/
def Judges (offset : Int) (x : Checked) : Prop :=
  ∀ t ∈ x.recorded,
    if x.check.selected = false then SameDay (localtime offset t) (localtime offset x.check.now)
    else if x.check.fetched = false then ¬SameDay (localtime offset t) (localtime offset x.check.now)
    else SameMonthAndDay (localtime offset t) (localtime offset x.check.now) →
      (localtime offset t).year = (localtime offset x.check.now).year

end Checked

section Runs
variable {offset : Int} {others : UpdaterState → UpdaterState → Prop} {s₀ s : UpdaterState} {cs : List Checked}

/-- A run calls `UpdateUserInfo` where a check of the record that it finds does. -/
theorem MainRuns.updated_iff (h : MainRuns offset others s₀ cs s) {x : Checked} (hx : x ∈ cs) :
    x.updated = true ↔ x.check.Updates offset x.recorded := by
  induction h with
  | start => cases hx
  | others _ _ ih => exact ih hx
  | skip _ _ hc ih =>
    rcases List.mem_append.mp hx with hx | hx
    · exact ih hx
    · obtain rfl := List.mem_singleton.mp hx
      exact ⟨fun hu => (nomatch hu), fun hu => absurd hu hc⟩
  | update _ _ hc _ ih =>
    rcases List.mem_append.mp hx with hx | hx
    · exact ih hx
    · obtain rfl := List.mem_singleton.mp hx
      exact ⟨fun _ => hc, fun _ => rfl⟩

theorem Checked.daily_iff {x : Checked} (hx : x.updated = true ↔ x.check.Updates offset x.recorded) :
    x.Daily offset ↔ x.Judges offset := by
  obtain ⟨recorded, ⟨tag, now, selected, fetched⟩, updated⟩ := x
  refine forall₂_congr fun t ht => ?_
  obtain rfl : recorded = some t := ht
  have hlater : (updated = false ↔ SameDay (localtime offset t) (localtime offset now)) →
      localDay offset t < localDay offset now → updated = true := fun hskip hlt => by
    rw [sameDay_localtime_iff] at hskip
    exact Bool.of_not_eq_false fun hf => absurd (hskip.mp hf) (Int.ne_of_lt hlt)
  rw [and_iff_left_of_imp hlater]
  simp only [Check.updates_iff, Option.mem_some_iff, forall_eq'] at hx
  rw [← Bool.not_eq_true, hx]
  cases selected with
  | false => simp
  | true =>
    cases fetched with
    | false => simp
    | true =>
      simp only [true_and, forall_const, not_not, sameDay_iff, Bool.true_eq_false, if_false]
      exact ⟨fun h hs => (h.mp hs).2, fun h => ⟨fun hs => ⟨hs, h hs⟩, And.left⟩⟩

/-- In every run of `main` each check decides by the day exactly if it judges its record rightly. -/
theorem checks_daily_iff (h : MainRuns offset others s₀ cs s) :
    (∀ x ∈ cs, x.Daily offset) ↔ ∀ x ∈ cs, x.Judges offset :=
  forall₂_congr fun _ hx => Checked.daily_iff (h.updated_iff hx)

/-- A record that is fetched less than 365 days later is judged rightly. -/
theorem checks_daily_of_recent (h : MainRuns offset others s₀ cs s)
    (hfetched : ∀ x ∈ cs, x.check.selected = true ∧ x.check.fetched = true)
    (hrecent : ∀ x ∈ cs, ∀ t ∈ x.recorded,
      localDay offset t ≤ localDay offset x.check.now ∧ localDay offset x.check.now < localDay offset t + 365) :
    ∀ x ∈ cs, x.Daily offset := by
  refine (checks_daily_iff h).mpr fun x hx t ht => ?_
  obtain ⟨hselected, hfetched⟩ := hfetched x hx
  obtain ⟨hle, hlt⟩ := hrecent x hx t ht
  rw [if_neg (by simp [hselected]), if_neg (by simp [hfetched])]
  intro hsame
  by_contra hyear
  rcases localDay_add_le hsame fun hday => hyear hday.1 with hfar | hfar <;> omega

end Runs

/-- The official fans were updated at 2017-07-14 02:40:00 UTC, the active users on the day before. -/
def recordedTables : UpdaterState where
  stores := { records := [(0, 1500000000), (1, 1499900000)] }

/-- An hour later the one is skipped and the other updated. -/
theorem checks_daily_iff_recorded : ∃ cs s, MainRuns 28800 (fun _ _ => False) recordedTables cs s ∧
    cs.map (·.updated) = [false, true] ∧ ((∀ x ∈ cs, x.Daily 28800) ↔ ∀ x ∈ cs, x.Judges 28800) := by
  have hstart : MainRuns 28800 (fun _ _ => False) recordedTables [] recordedTables := .start
  have hfirst := hstart.skip (c := ⟨0, 1500003600, true, true⟩) rfl (by decide +kernel)
  have hsecond := hfirst.update (c := ⟨1, 1500003600, true, true⟩) rfl (by decide +kernel)
    (Prog.returns_eval_unit (updaterTry_answer (fun _ => 0) 0) (updateUserInfo 1) recordedTables)
  exact ⟨_, _, hsecond, rfl, checks_daily_iff hsecond⟩

/-- The anniversary of the update of the official fans passes without one. -/
theorem checks_anniversary : ¬∀ (offset : Int) (others : UpdaterState → UpdaterState → Prop) (s₀ s : UpdaterState)
    (cs : List Checked), MainRuns offset others s₀ cs s → (∀ x ∈ cs, ∀ t ∈ x.recorded, t ≤ x.check.now) →
    ∀ x ∈ cs, x.Daily offset := by
  intro hall
  have hstart : MainRuns 28800 (fun _ _ => False) recordedTables [] recordedTables := .start
  have hrun := hstart.skip (c := ⟨0, 1531536000, true, true⟩) rfl (by decide +kernel)
  have hlater : ∀ x ∈ [(⟨some 1500000000, ⟨0, 1531536000, true, true⟩, false⟩ : Checked)], ∀ t ∈ x.recorded,
      t ≤ x.check.now := by decide
  have hdaily := hall _ _ _ _ _ hrun hlater _ (List.mem_singleton.mpr rfl) 1500000000 (by rfl)
  exact Bool.false_ne_true (hdaily.2 (by decide +kernel))

end PushSystem
