import PushSystem.LoadBalance

/-! A score as text: what the daemon reads from the text that a producer sends is the score with six significant
    digits. -/

namespace PushSystem
open Decimal

/-! ### Reading a number -/

/-- What follows the digits of a number: nothing, or an exponent for the power of ten. -/
structure Follows (rest : List Char) (power : ℚ) : Prop where
  exponent : takeExponent rest = some power
  digit : ∀ c ∈ rest.head?, c.isDigit = false
  point : rest.head? ≠ some '.'

section Read
variable {negative : Bool} {c : Char} {cs whole fraction rest : List Char} {power score : ℚ} {text : String}

/-- A run of digits ends where the digits do. -/
theorem takeWhile_digits (h : ∀ c ∈ cs, c.isDigit) (hrest : ∀ c ∈ rest.head?, c.isDigit = false) :
    (cs ++ rest).takeWhile Char.isDigit = cs ∧ (cs ++ rest).dropWhile Char.isDigit = rest := by
  rw [List.takeWhile_append_of_pos h, List.dropWhile_append_of_pos h]
  cases rest with
  | nil => simp
  | cons c rest =>
    have hc : c.isDigit = false := hrest c rfl
    simp [hc]

theorem takeSign_digit (hc : c.isDigit) : takeSign (c :: cs) = (false, c :: cs) := by
  unfold takeSign
  split
  next heq =>
    obtain ⟨rfl, -⟩ := List.cons.inj heq
    cases hc
  next heq =>
    obtain ⟨rfl, -⟩ := List.cons.inj heq
    cases hc
  next => rfl

theorem isSpace_digit (hc : c.isDigit) : isSpace c = false := by
  by_contra hspace
  simp only [isSpace, decide_eq_true_eq, Bool.not_eq_false] at hspace
  rcases hspace with rfl | rfl | rfl | rfl | rfl | rfl <;> cases hc

/-- What is read from a sign, digits with a point between them, and an exponent. -/
theorem extractScore_digits (hne : whole ≠ []) (hwhole : ∀ c ∈ whole, c.isDigit) (hfraction : ∀ c ∈ fraction, c.isDigit)
    (hrest : Follows rest power) (htext : text.toList =
      (if negative then ['-'] else []) ++ (whole ++ ((if fraction = [] then [] else '.' :: fraction) ++ rest))) :
    extractScore text score =
      applySign negative ((digitsValue (whole ++ fraction) : ℚ) / 10 ^ fraction.length * power) := by
  obtain ⟨c, cs, rfl⟩ := List.exists_cons_of_ne_nil hne
  have hc : c.isDigit := hwhole c (List.mem_cons_self ..)
  have hstart : text.toList.dropWhile isSpace = text.toList := by
    rw [htext]
    cases negative with
    | true => rfl
    | false => exact List.dropWhile_cons_of_neg (by simp [isSpace_digit hc])
  have hsigned : takeSign text.toList =
      (negative, c :: cs ++ ((if fraction = [] then [] else '.' :: fraction) ++ rest)) := by
    rw [htext]
    cases negative with
    | true => rfl
    | false => exact takeSign_digit hc
  have hafter : ∀ c ∈ ((if fraction = [] then [] else '.' :: fraction) ++ rest).head?, c.isDigit = false := by
    split
    · exact hrest.digit
    · rintro c hc
      obtain rfl := Option.some.inj hc
      rfl
  obtain ⟨htake, hdrop⟩ := takeWhile_digits hwhole hafter
  obtain ⟨htakeFraction, hdropFraction⟩ := takeWhile_digits hfraction hrest.digit
  unfold extractScore
  rw [hstart]
  split
  next hnil =>
    rw [htext] at hnil
    simp at hnil
  next =>
    simp only [hsigned, htake, hdrop, List.isEmpty_cons, Bool.false_eq_true, false_and, if_false]
    by_cases hnil : fraction = []
    · subst hnil
      cases rest with
      | nil => simp [hrest.exponent]
      | cons r rest =>
        have hr : r ≠ '.' := fun heq => hrest.point (by rw [heq]; rfl)
        simp [hr, hrest.exponent]
    · simp only [if_neg hnil, List.cons_append, htakeFraction, hdropFraction, hrest.exponent]

end Read

/-! ### Writing a number -/

theorem digitChar_spec : ∀ d < 10, (Nat.digitChar d).isDigit ∧ (Nat.digitChar d).toNat - '0'.toNat = d := by decide

section Write
variable {ds whole fraction : List Nat}

theorem digitsValue_digitChars (h : ∀ d ∈ ds, d < 10) : digitsValue (digitChars ds) = value ds := by
  induction ds using List.reverseRecOn with
  | nil => rfl
  | append_singleton ds d ih =>
    have hd := (digitChar_spec d (h d (by simp))).2
    rw [value_snoc, ← ih fun x hx => h x (List.mem_append_left _ hx), digitsValue, digitsValue, digitChars, digitChars,
      List.map_append, List.foldl_append, List.map_singleton, List.foldl_cons, List.foldl_nil, hd]

theorem isDigit_digitChars (h : ∀ d ∈ ds, d < 10) : ∀ c ∈ digitChars ds, c.isDigit := by
  intro c hc
  obtain ⟨d, hd, rfl⟩ := List.mem_map.mp hc
  exact (digitChar_spec d (h d hd)).1

theorem pointChars_eq : pointChars whole fraction = digitChars whole ++
    if digitChars (fraction.rdropWhile fun d => d = 0) = [] then []
    else '.' :: digitChars (fraction.rdropWhile fun d => d = 0) := by
  unfold pointChars
  split
  next hnil => simp [hnil, digitChars]
  next hcons => simp [hcons, digitChars]

/-- What is written with a point is read back. -/
theorem extractScore_pointChars {negative : Bool} {rest : List Char} {power score : ℚ} {text : String}
    (hne : whole ≠ []) (hwhole : ∀ d ∈ whole, d < 10) (hfraction : ∀ d ∈ fraction, d < 10) (hrest : Follows rest power)
    (htext : text.toList = (if negative then ['-'] else []) ++ (pointChars whole fraction ++ rest)) :
    extractScore text score = applySign negative ((value whole + Decimal.fraction ℚ fraction) * power) := by
  have hstripped : ∀ d ∈ fraction.rdropWhile fun d => d = 0, d < 10 := fun d hd =>
    hfraction d ((List.rdropWhile_prefix _ _).subset hd)
  have hvalue : digitsValue (digitChars whole ++ digitChars (fraction.rdropWhile fun d => d = 0)) =
      value (whole ++ fraction.rdropWhile fun d => d = 0) := by
    rw [digitChars, digitChars, ← List.map_append, ← digitChars, digitsValue_digitChars fun d hd => ?_]
    exact (List.mem_append.mp hd).elim (hwhole d) (hstripped d)
  rw [pointChars_eq, List.append_assoc] at htext
  rw [extractScore_digits (by simpa [digitChars] using hne) (isDigit_digitChars hwhole) (isDigit_digitChars hstripped)
    hrest htext, hvalue, digitChars, List.length_map, value_append_div, fraction_rdropWhile]

/-- An exponent is read back. -/
theorem follows_exponentChars (e : ℤ) : Follows (exponentChars e) (10 ^ e) := by
  have hdigits : ∀ d ∈ if e.natAbs < 10 then lastDigits 2 e.natAbs else digits e.natAbs, d < 10 := by
    split
    · exact fun _ => lt_of_mem_lastDigits
    · exact fun _ => lt_of_mem_digits
  have hvalue : value (if e.natAbs < 10 then lastDigits 2 e.natAbs else digits e.natAbs) = e.natAbs := by
    split
    · rw [value_lastDigits]
      omega
    · exact value_digits _
  have hne : (if e.natAbs < 10 then lastDigits 2 e.natAbs else digits e.natAbs) ≠ [] := by
    split
    · exact List.ne_nil_of_length_pos (by simp)
    · exact digits_ne_nil _
  refine ⟨?_, fun c hc => ?_, ?_⟩
  · unfold exponentChars
    generalize (if e.natAbs < 10 then lastDigits 2 e.natAbs else digits e.natAbs) = ds at *
    have htake : (digitChars ds ++ []).takeWhile Char.isDigit = digitChars ds :=
      (takeWhile_digits (isDigit_digitChars hdigits) (by simp)).1
    rw [List.append_nil] at htake
    have hnil : (digitChars ds).isEmpty = false := by simpa [digitChars] using hne
    have hsign : takeSign ((if e < 0 then '-' else '+') :: digitChars ds) = (decide (e < 0), digitChars ds) := by
      by_cases he : e < 0 <;> simp [he, takeSign]
    simp only [takeExponent, true_or, if_true, hsign, htake, hnil, Bool.false_eq_true, if_false,
      digitsValue_digitChars hdigits, hvalue, decide_eq_true_eq]
    obtain ⟨n, rfl | rfl⟩ := e.eq_nat_or_neg
    · simp
    · rcases Nat.eq_zero_or_pos n with rfl | hn
      · simp
      · simp [hn]
  · obtain rfl := Option.some.inj hc
    rfl
  · simp [exponentChars]

theorem follows_nil : Follows [] 1 := ⟨rfl, by simp, by simp⟩

end Write

/-! ### The round trip -/

/-- The score with six significant digits. -/
def sixDigits (score : ℚ) : ℚ :=
  if score = 0 then 0 else if score < 0 then -rounded 5 (-score) else rounded 5 score

theorem extractScore_positiveChars {negative : Bool} {x score : ℚ} {text : String}
    (htext : text.toList = (if negative then ['-'] else []) ++ positiveChars x) :
    extractScore text score = applySign negative (rounded 5 x) := by
  have hten : (10 : ℚ) ≠ 0 := by norm_num
  unfold positiveChars at htext
  unfold rounded
  generalize significant 5 x = s at *
  obtain ⟨m, e⟩ := s
  simp only at htext
  by_cases he : -4 ≤ e ∧ e < 6
  · obtain ⟨k, hk, hexp⟩ : ∃ k : Nat, (5 - e).toNat = k ∧ e - 5 = -k := ⟨(5 - e).toNat, rfl, by omega⟩
    rw [if_pos he, hk] at htext
    rw [extractScore_pointChars (digits_ne_nil _) (fun _ => lt_of_mem_digits) (fun _ => lt_of_mem_lastDigits) follows_nil
      (by rw [htext, List.append_nil]), value_digits, ← fraction_lastDigits]
    simp [hexp, div_eq_mul_inv]
  · rw [if_neg he] at htext
    rw [extractScore_pointChars (digits_ne_nil _) (fun _ => lt_of_mem_digits) (fun _ => lt_of_mem_lastDigits)
      (follows_exponentChars e) htext, value_digits, ← fraction_lastDigits]
    have hscale : (10 : ℚ) ^ (e - 5) = 10 ^ e / 10 ^ 5 := by
      rw [zpow_sub₀ hten]
      rfl
    simp only [Nat.cast_ofNat, hscale]
    congr 1
    ring

theorem extractScore_insertScore (score left : ℚ) : extractScore (insertScore score) left = sixDigits score := by
  rcases lt_trichotomy score 0 with hneg | rfl | hpos
  · have htext : (insertScore score).toList = (if true then ['-'] else []) ++ positiveChars (-score) := by
      simp [insertScore, hneg, hneg.ne]
    rw [extractScore_positiveChars htext, sixDigits, if_neg hneg.ne, if_pos hneg]
    rfl
  · have htext : (insertScore 0).toList = (if false then ['-'] else []) ++
        (['0'] ++ ((if ([] : List Char) = [] then [] else '.' :: []) ++ [])) := by simp [insertScore]
    have hdigit : ∀ c ∈ ['0'], c.isDigit := List.forall_mem_singleton.mpr rfl
    rw [extractScore_digits (by simp) hdigit (by simp) follows_nil htext]
    simp [digitsValue, applySign, sixDigits]
  · have htext : (insertScore score).toList = (if false then ['-'] else []) ++ positiveChars score := by
      simp [insertScore, hpos.not_gt, hpos.ne']
    rw [extractScore_positiveChars htext, sixDigits, if_neg hpos.ne', if_neg hpos.not_gt]
    rfl

theorem sixDigits_of_pos {x : ℚ} (hx : 0 < x) : sixDigits x = rounded 5 x := by
  rw [sixDigits, if_neg hx.ne', if_neg hx.not_gt]

theorem sixDigits_neg (x : ℚ) : sixDigits (-x) = -sixDigits x := by
  rcases lt_trichotomy x 0 with hneg | rfl | hpos
  · rw [sixDigits_of_pos (neg_pos.mpr hneg), sixDigits, if_neg hneg.ne, if_pos hneg, neg_neg]
  · simp [sixDigits]
  · rw [sixDigits_of_pos hpos, sixDigits, if_neg (neg_neg_of_pos hpos).ne, if_pos (neg_neg_of_pos hpos), neg_neg]

theorem sixDigits_pos {x : ℚ} (hx : 0 < x) : 0 < sixDigits x := by
  rw [sixDigits_of_pos hx]
  exact rounded_pos hx

theorem abs_sixDigits_sub_of_pos {x : ℚ} (hx : 0 < x) : |sixDigits x - x| ≤ |x| / 200000 := by
  have herr := abs_rounded_sub (p := 5) hx
  norm_num at herr
  rwa [sixDigits_of_pos hx, abs_of_pos hx]

/-- The daemon reads the score that was written, to six significant digits: it has the same sign, and is off by no
    more than its 200000th part. -/
theorem score_read (score left : ℚ) :
    extractScore (insertScore score) left = sixDigits score ∧ |sixDigits score - score| ≤ |score| / 200000 ∧
      (0 < sixDigits score ↔ 0 < score) ∧ (sixDigits score < 0 ↔ score < 0) := by
  refine ⟨extractScore_insertScore score left, ?_⟩
  rcases lt_trichotomy score 0 with hneg | rfl | hpos
  · have hx : 0 < -score := neg_pos.mpr hneg
    have hsix : sixDigits score < 0 := by
      have := sixDigits_pos hx
      rwa [sixDigits_neg, neg_pos] at this
    have herr := abs_sixDigits_sub_of_pos hx
    rw [sixDigits_neg, neg_sub_neg, abs_sub_comm, abs_neg] at herr
    exact ⟨herr, iff_of_false hsix.not_gt hneg.not_gt, iff_of_true hsix hneg⟩
  · simp [sixDigits]
  · have hsix := sixDigits_pos hpos
    exact ⟨abs_sixDigits_sub_of_pos hpos, iff_of_true hsix hpos, iff_of_false hsix.not_gt hpos.not_gt⟩

/-- The least and the greatest score in use, one that is written with an exponent, and one that is carried. -/
example : [1 / 10000, 10, 70 / 10007, -1 / 12345678, 9999995 / 10].map insertScore =
    ["0.0001", "10", "0.0069951", "-8.1e-08", "1e+06"] := by decide +kernel

end PushSystem
