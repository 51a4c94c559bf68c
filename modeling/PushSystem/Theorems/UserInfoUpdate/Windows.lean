import PushSystem.Theorems.UserInfoUpdate.Calls

/-! The loop over the windows builds the bitmap of the rows that were fetched: after `i` windows the TEMP
    key holds `i` windows of bits, one for each uid below. -/

namespace PushSystem
open Redis Bitmap Prog

/-! ### Keys -/

theorem forall_tag {P : Tag → Prop} : (∀ tag, P tag) ↔ P 0 ∧ P 1 ∧ P 2 := by
  constructor
  · exact fun h => ⟨h 0, h 1, h 2⟩
  · rintro ⟨h₀, h₁, h₂⟩
    exact Fin.forall_fin_succ.mpr ⟨h₀, Fin.forall_fin_two.mpr ⟨h₁, h₂⟩⟩

theorem temp_ne_release (tag tag' : Tag) : genTempKey (userInfoKey tag) ≠ genReleaseKey (userInfoKey tag') := by
  revert tag tag'
  decide +kernel

theorem diff_ne_release (tag tag' : Tag) : genDiffKey (userInfoKey tag) ≠ genReleaseKey (userInfoKey tag') := by
  revert tag tag'
  decide +kernel

theorem temp_ne_diff (tag tag' : Tag) : genTempKey (userInfoKey tag) ≠ genDiffKey (userInfoKey tag') := by
  revert tag tag'
  decide +kernel

theorem release_ne_tmp (tag : Tag) : genReleaseKey (userInfoKey tag) ≠ tmpUserInfoKey := by
  revert tag
  decide +kernel

theorem temp_ne_tmp (tag : Tag) : genTempKey (userInfoKey tag) ≠ tmpUserInfoKey := by
  revert tag
  decide +kernel

theorem diff_ne_tmp (tag : Tag) : genDiffKey (userInfoKey tag) ≠ tmpUserInfoKey := by
  revert tag
  decide +kernel

/-! ### Rows -/

/-- The table of the tag has the uid, in a row that the updater asks for. -/
def HasUid (tables : String → List UserRow) (tag : Tag) (uid : Nat) : Prop :=
  ∃ row ∈ tables (tableNames tag), row.uid.toNat = uid ∧ (tag = 2 → row.opened = 1)

/-- The table has the uid in a row that was fetched. -/
def Fetched (tables : String → List UserRow) (tag : Tag) (F : UInt64 → Prop) (uid : Nat) : Prop :=
  ∃ row ∈ tables (tableNames tag), row.uid.toNat = uid ∧ (tag = 2 → row.opened = 1) ∧ F row.uid

theorem mem_rows_genSQL {w : Stores} {tag : Tag} {uid : Nat} {x : UInt64} :
    x ∈ w.rows (genSQL tag uid) ↔
      (∃ row ∈ w.tables (tableNames tag), (tag = 2 → row.opened = 1) ∧ row.uid = x) ∧
        uid ≤ x.toNat ∧ x.toNat < uid + 10240 := by
  simp only [Stores.rows, genSQL, List.mem_map, List.mem_filter, Query.Selects, countsPerLoop, UInt64.reduceToNat,
    Bool.and_eq_true, Bool.or_eq_true, Bool.not_eq_true', decide_eq_true_eq, decide_eq_false_iff_not, beq_iff_eq]
  constructor
  · rintro ⟨row, ⟨hrow, ⟨hfirst, hlast⟩, hopen⟩, rfl⟩
    exact ⟨⟨row, hrow, fun htag => hopen.resolve_left fun h => h htag, rfl⟩, by omega, by omega⟩
  · rintro ⟨⟨row, hrow, hopen, rfl⟩, hfirst, hlast⟩
    refine ⟨row, ⟨hrow, ⟨by omega, by omega⟩, ?_⟩, rfl⟩
    by_cases htag : tag = 2
    · exact Or.inr (hopen htag)
    · exact Or.inl htag

/-- The offset of a row in its window. -/
theorem offset_toNat {uid x : UInt64} (h : uid.toNat ≤ x.toNat) : (x - uid).toNat = x.toNat - uid.toNat := by
  rw [UInt64.toNat_sub_of_le _ _ (UInt64.le_iff_toNat_le.mpr h)]

theorem testBit_windowBitmap {uid : UInt64} {rows : List UInt64}
    (h : ∀ x ∈ rows, uid.toNat ≤ x.toNat ∧ x.toNat < uid.toNat + 10240) :
    (windowBitmap uid rows).length = 1280 ∧
      ∀ j, testBit (windowBitmap uid rows) j ↔ ∃ x ∈ rows, x.toNat = uid.toNat + j := by
  have hlen : (List.replicate (countsPerLoop.toNat / 8) (0 : Byte)).length = 1280 := List.length_replicate
  obtain ⟨hl, hb⟩ := testBit_setBits (List.replicate (countsPerLoop.toNat / 8) 0)
    (fun x : UInt64 => (x - uid).toNat) (l := rows) fun x hx => by
      rw [hlen, offset_toNat (h x hx).1]
      have := h x hx
      omega
  refine ⟨hl.trans hlen, fun j => (hb j).trans ?_⟩
  simp only [testBit_replicate_zero, Bool.false_eq_true, or_false]
  refine exists_congr fun x => and_congr_right fun hx => ?_
  rw [offset_toNat (h x hx).1]
  have := (h x hx).1
  omega

/-! ### The invariant of the loop -/

/-- The first `windows` windows of the table's bitmap. -/
structure Encodes (tables : String → List UserRow) (tag : Tag) (F : UInt64 → Prop) (windows : Nat)
    (bytes : List Byte) : Prop where
  length : bytes.length = 1280 * windows
  bits : ∀ j, testBit bytes j ↔ j < 10240 * windows ∧ Fetched tables tag F j

/-- Until it publishes, an update changes no key but the TEMP and the DIFF key of its tag. -/
structure Building (tag : Tag) (redis : Redis.Store String) (tables : String → List UserRow) (s : UpdaterState) :
    Prop where
  unchanged : s.stores.tables = tables
  frame : ∀ key, key ≠ genTempKey (userInfoKey tag) → key ≠ genDiffKey (userInfoKey tag) → key ≠ tmpUserInfoKey →
    s.stores.redis key = redis key

/-- The TEMP key holds the first `windows` windows. -/
structure Built (tag : Tag) (redis : Redis.Store String) (tables : String → List UserRow) (F : UInt64 → Prop)
    (windows : Nat) (s : UpdaterState) : Prop extends Building tag redis tables s where
  temp : Encodes tables tag F windows (s.stores.redis.value (genTempKey (userInfoKey tag)))

/-- The next window may be in the TEMP key already. -/
structure Writing (tag : Tag) (redis : Redis.Store String) (tables : String → List UserRow) (F : UInt64 → Prop)
    (windows : Nat) (s : UpdaterState) : Prop extends Building tag redis tables s where
  length : (s.stores.redis.value (genTempKey (userInfoKey tag))).length = 1280 * windows ∨
    (s.stores.redis.value (genTempKey (userInfoKey tag))).length = 1280 * (windows + 1)
  bits : ∀ j < 10240 * windows,
    (testBit (s.stores.redis.value (genTempKey (userInfoKey tag))) j ↔ Fetched tables tag F j)

/-- No `SELECT` is given up, and no Redis command but those that are answered with an error. -/
structure Faultless (M : Machine UpdaterOp UpdaterOp.Ret UpdaterState) : Prop where
  redis : ∀ cmd n s t, M (.redis cmd) n s (some none) t → (s.stores.exec cmd).1 = .error
  select : ∀ tag uid n s t, ¬M (.mysql (genSQL tag uid)) n s (some false) t

section Loop
variable {tag : Tag} {redis : Redis.Store String} {tables : String → List UserRow} {F : UInt64 → Prop} {i : Nat}
variable {s t : UpdaterState}

/-- Changes of the TEMP and the DIFF key and of the audience. -/
theorem Building.of_eq (h : Building tag redis tables s) (ht : t.stores.tables = s.stores.tables)
    (hkey : ∀ key, key ≠ genTempKey (userInfoKey tag) → key ≠ genDiffKey (userInfoKey tag) → key ≠ tmpUserInfoKey →
      t.stores.redis key = s.stores.redis key) : Building tag redis tables t :=
  ⟨ht.trans h.unchanged, fun key hk hk' hk'' => (hkey key hk hk' hk'').trans (h.frame key hk hk' hk'')⟩

/-- Changes of the DIFF key and of the audience. -/
theorem Built.of_eq (h : Built tag redis tables F i s) (ht : t.stores.tables = s.stores.tables)
    (hkey : ∀ key, key ≠ genDiffKey (userInfoKey tag) ∧ key ≠ tmpUserInfoKey →
      t.stores.redis key = s.stores.redis key) : Built tag redis tables F i t := by
  refine ⟨h.toBuilding.of_eq ht fun key _ hd htmp => hkey key ⟨hd, htmp⟩, ?_⟩
  rw [Store.value_of_eq (hkey _ ⟨temp_ne_diff tag tag, temp_ne_tmp tag⟩)]
  exact h.temp

theorem Writing.of_eq (h : Writing tag redis tables F i s) (ht : t.stores.tables = s.stores.tables)
    (hkey : ∀ key, key ≠ tmpUserInfoKey → t.stores.redis key = s.stores.redis key) :
    Writing tag redis tables F i t := by
  have htemp := Store.value_of_eq (hkey _ (temp_ne_tmp tag))
  exact ⟨h.toBuilding.of_eq ht fun key _ _ htmp => hkey key htmp, by rw [htemp]; exact h.length,
    by rw [htemp]; exact h.bits⟩

theorem Building.producers (h : Building tag redis tables s) (he : Producers s t) : Building tag redis tables t :=
  h.of_eq he.tables fun _ _ _ htmp => he.redis htmp

theorem Built.producers (h : Built tag redis tables F i s) (he : Producers s t) : Built tag redis tables F i t :=
  h.of_eq he.tables fun _ hk => he.redis hk.2

theorem Writing.producers (h : Writing tag redis tables F i s) (he : Producers s t) :
    Writing tag redis tables F i t := h.of_eq he.tables fun _ hk => he.redis hk

theorem Built.mysqlQuery (h : Built tag redis tables F i s) (q : Query) (a : Attempt) :
    Built tag redis tables F i (s.mysqlQuery q a) := by
  cases a <;> cases q <;> exact h.of_eq rfl fun _ _ => rfl

/-- The TEMP key is deleted first. -/
theorem Building.del (h : Building tag redis tables s) (F : UInt64 → Prop) :
    Built tag redis tables F 0 (s.exec (.del (genTempKey (userInfoKey tag)))) := by
  refine ⟨h.of_eq rfl fun key hk _ _ => Stores.exec_of_not_mem fun hmem => hk (List.mem_singleton.mp hmem), ?_⟩
  have hvalue : (s.exec (.del (genTempKey (userInfoKey tag)))).stores.redis.value (genTempKey (userInfoKey tag)) = [] :=
    Store.value_remove_self
  rw [hvalue]
  exact ⟨rfl, fun j => by simp⟩

theorem Built.writing (h : Built tag redis tables F i s) : Writing tag redis tables F i s :=
  ⟨h.toBuilding, Or.inl h.temp.length, fun j hj => (h.temp.bits j).trans ⟨fun hb => hb.2, fun hb => ⟨hj, hb⟩⟩⟩

theorem Built.toWriting (h : Built tag redis tables F (i + 1) s) : Writing tag redis tables F i s :=
  ⟨h.toBuilding, Or.inr h.temp.length,
    fun j hj => (h.temp.bits j).trans ⟨fun hb => hb.2, fun hb => ⟨by omega, hb⟩⟩⟩

/-- Writing the window `i` once more changes nothing. -/
theorem Writing.setrange (h : Writing tag redis tables F i s) {value : List Byte} (hlen : value.length = 1280)
    (hbits : ∀ j < 10240, (testBit value j ↔ Fetched tables tag F (10240 * i + j))) :
    Built tag redis tables F (i + 1) (s.exec (.setrange (genTempKey (userInfoKey tag)) (1280 * i) value)) := by
  have hne : value.isEmpty = false := by
    cases value with
    | nil => simp at hlen
    | cons => rfl
  refine ⟨h.toBuilding.of_eq rfl fun key hk _ _ => Stores.exec_of_not_mem fun hmem => hk (List.mem_singleton.mp hmem),
    ?_⟩
  have hvalue : (s.exec (.setrange (genTempKey (userInfoKey tag)) (1280 * i) value)).stores.redis.value
      (genTempKey (userInfoKey tag)) =
        setRange (s.stores.redis.value (genTempKey (userInfoKey tag))) (1280 * i) value := by
    simp [UpdaterState.exec, Stores.exec, Store.exec, hne]
  rw [hvalue]
  refine ⟨?_, fun j => ?_⟩
  · rw [length_setRange, hlen]
    rcases h.length with hl | hl <;> rw [hl] <;> omega
  · rw [testBit_setRange, hlen]
    by_cases hj : 8 * (1280 * i) ≤ j ∧ j < 8 * (1280 * i + 1280)
    · rw [if_pos hj, hbits _ (by omega)]
      have hsum : 10240 * i + (j - 8 * (1280 * i)) = j := by omega
      rw [hsum]
      exact ⟨fun hb => ⟨by omega, hb⟩, fun hb => hb.2⟩
    · rw [if_neg hj]
      rcases Nat.lt_or_ge j (10240 * i) with hlt | hge
      · exact (h.bits j hlt).trans ⟨fun hb => ⟨by omega, hb⟩, fun hb => hb.2⟩
      · rw [testBit_eq_false (by rcases h.length with hl | hl <;> rw [hl] <;> omega)]
        simp only [Bool.false_eq_true, false_iff, not_and]
        omega

/-- The bitmap of a window has the bits of the rows that are fetched. -/
theorem testBit_windowBitmap_fetched {uid : UInt64} {r : List UInt64}
    (hr : ∀ x, x ∈ r ↔ ((∃ row ∈ tables (tableNames tag), (tag = 2 → row.opened = 1) ∧ row.uid = x) ∧
      uid.toNat ≤ x.toNat ∧ x.toNat < uid.toNat + 10240) ∧ F x) {j : Nat} (hj : j < 10240) :
    testBit (windowBitmap uid r) j ↔ Fetched tables tag F (uid.toNat + j) := by
  rw [(testBit_windowBitmap fun x hx => ((hr x).mp hx).1.2).2 j]
  constructor
  · rintro ⟨x, hx, hxj⟩
    obtain ⟨⟨⟨row, hrow, hopen, rfl⟩, -⟩, hF⟩ := (hr x).mp hx
    exact ⟨row, hrow, hxj, hopen, hF⟩
  · rintro ⟨row, hrow, hxj, hopen, hF⟩
    exact ⟨row.uid, (hr _).mpr ⟨⟨⟨row, hrow, hopen, rfl⟩, by omega⟩, hF⟩, hxj⟩

variable {M : Machine UpdaterOp UpdaterOp.Ret UpdaterState} {E : UpdaterState → UpdaterState → Prop}

/-- The loop from window `i` on. A fetch admits the rows of the result set in `F`. -/
theorem wp_updateWindows (hM : ∀ o n s r t, M o n s r t → updaterTry o n s r t)
    (hfetch : ∀ n s r t, M .fetchRows n s (some r) t → ∀ x, x ∈ r ↔ x ∈ s.result ∧ F x)
    (hE : ∀ s t, E s t → Producers s t) (uid : UInt64) (hi : i ≤ 9766) (huid : uid.toNat = 10240 * i)
    (h : Built tag redis tables F i s) :
    wp M E (Building tag redis tables) (updateWindows tag uid)
      (fun ok t => (ok = true → Built tag redis tables F 9766 t) ∧ (ok = false → ¬Faultless M)) s := by
  have hkeeps : Keeps E (Building tag redis tables) fun (ok : Bool) t =>
      (ok = true → Built tag redis tables F 9766 t) ∧ (ok = false → ¬Faultless M) :=
    ⟨fun _ s t hb _ he => hb.producers (hE s t he), fun a s t _ hq he =>
      ⟨fun ha => (hq.1 ha).producers (hE s t he), hq.2⟩⟩
  -- the windows that are left
  obtain ⟨n, hn⟩ : ∃ n, i + n = 9766 := ⟨9766 - i, by omega⟩
  induction n generalizing i uid s with
  | zero =>
    obtain rfl : i = 9766 := hn
    have hend : ¬uid ≤ endUid := by
      rw [UInt64.le_iff_toNat_le, huid]
      decide
    rw [updateWindows, dif_neg hend]
    exact ⟨h.toBuilding, fun _ => h, by simp⟩
  | succ n ih =>
    have hle : uid ≤ endUid := by
      rw [UInt64.le_iff_toNat_le, huid]
      simp only [endUid, UInt64.reduceToNat]
      omega
    rw [updateWindows, dif_pos hle]
    simp only [perform_bind]
    refine wp_mysql hM (Built tag redis tables F i) h (fun _ hb => hb.toBuilding)
      (fun s t hb he => hb.producers (hE s t he)) (fun s a hb => hb.mysqlQuery _ a) (fun n s t hb hm => ?_)
      fun s hb => ?_
    · exact ⟨hb.toBuilding, by simp, fun _ hf => hf.select _ _ _ _ _ hm⟩
    simp only [Bool.not_true, Bool.false_eq_true, if_false]
    refine wp_fetchRows hM
      (fun s => Built tag redis tables F i s ∧ ∀ x, x ∈ s.result ↔
        (∃ row ∈ tables (tableNames tag), (tag = 2 → row.opened = 1) ∧ row.uid = x) ∧
          uid.toNat ≤ x.toNat ∧ x.toNat < uid.toNat + 10240)
      ⟨hb.mysqlQuery _ .heard, fun x => by rw [← hb.unchanged]; exact mem_rows_genSQL⟩
      (fun _ hb => hb.1.toBuilding) (fun s t hb he => ⟨hb.1.producers (hE s t he), ?_⟩) fun n s r t hb hm => ?_
    · rw [(hE s t he).result]
      exact hb.2
    have ht : Built tag redis tables F i t := by
      obtain ⟨m, -, rfl⟩ := hM _ _ _ _ _ hm
      exact ⟨⟨hb.1.unchanged, hb.1.frame⟩, hb.1.temp⟩
    have hr : ∀ x ∈ r, uid.toNat ≤ x.toNat ∧ x.toNat < uid.toNat + 10240 := fun x hx =>
      ((hb.2 x).mp ((hfetch n s r t hm x).mp hx).1).2
    have hlen := (testBit_windowBitmap hr).1
    have hwindow : ∀ j < 10240, (testBit (windowBitmap uid r) j ↔ Fetched tables tag F (10240 * i + j)) := fun j hj =>
      huid ▸ testBit_windowBitmap_fetched (fun x => (hfetch n s r t hm x).trans (and_congr_left' (hb.2 x))) hj
    have hoffset : uid.toNat / 8 = 1280 * i := by omega
    rw [hoffset]
    refine wp_redis hM (Writing tag redis tables F i) ht.writing (fun _ hb => hb.toBuilding)
      (fun s t hb he => hb.producers (hE s t he)) (fun n s r hb _ _ => (hb.setrange hlen hwindow).toWriting)
      (fun n s t hb hm => ⟨hb.toBuilding, by simp, fun _ hf => ?_⟩) fun s hb _ => ?_
    · exact absurd (hf.redis _ _ _ _ hm) (Store.exec_setrange_ne_error _ _ _ _)
    simp only [Option.isNone_some, Bool.false_eq_true, if_false]
    refine wp_freeReply hM hkeeps (wp_freeResult hM (Built tag redis tables F (i + 1)) (hb.setrange hlen hwindow)
      (fun _ hb => hb.toBuilding) (fun s t hb he => hb.producers (hE s t he)) fun s hb => ?_)
    have hadd : (uid + countsPerLoop).toNat = 10240 * (i + 1) := by
      simp only [UInt64.toNat_add, countsPerLoop, UInt64.reduceToNat]
      omega
    exact ih _ (by omega) hadd ⟨⟨hb.unchanged, hb.frame⟩, hb.temp⟩ (by omega)

end Loop

end PushSystem
