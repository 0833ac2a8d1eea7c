import StripsReach.Mutex.Timeline
import StripsReach.Proofs.Least

/-!
# Entries are recorded once, where they come up first

A timeline is fed one batch of entries after another, each for a level, and the levels come in
any order. The lemmas say where an entry stands afterwards: at the level of the first batch that
has it, and nowhere else.
-/

namespace StripsReach.Timeline

variable {α : Type} [Ord α]

theorem levelCount_openLevel (t : Timeline α) (level : Nat) :
    (t.openLevel level).levelCount = max t.levelCount (level + 1) := by
  simp only [openLevel, levelCount, List.length_append, List.length_replicate]
  omega

variable [Std.TransOrd α]

/-- Opening levels moves no entry. -/
theorem atLevel_openLevel (t : Timeline α) (opened level : Nat) :
    (t.openLevel opened).atLevel level = t.atLevel level := by
  have hsame : ((t.openLevel opened).levels[level]?).getD ∅ = (t.levels[level]?).getD ∅ := by
    rw [openLevel]
    by_cases hl : level < t.levels.length
    · rw [List.getElem?_append_left hl]
    · rw [List.getElem?_append_right (by omega), List.getElem?_eq_none (by omega : _ ≤ level)]
      rw [List.getElem?_replicate]
      split <;> rfl
  rw [atLevel, atLevel, hsame]

theorem levelCount_record {t : Timeline α} {level : Nat} (hopen : level < t.levelCount) (a : α) :
    (record level t a).levelCount = t.levelCount := by
  rw [record]
  split
  · rfl
  · change ((t.openLevel level).levels.modify level _).length = _
    rw [List.length_modify]
    change (t.openLevel level).levelCount = _
    rw [levelCount_openLevel]
    omega

theorem levelCount_recordAll (t : Timeline α) (level : Nat) (entries : List α) :
    (t.recordAll level entries).levelCount = max t.levelCount (level + 1) := by
  have hfold : ∀ t : Timeline α, level < t.levelCount →
      (entries.foldl (record level) t).levelCount = t.levelCount := by
    induction entries with
    | nil => intro t _; rfl
    | cons a entries ih =>
      intro t ht
      have hrec := levelCount_record ht a
      rw [List.foldl_cons, ih _ (by omega), hrec]
  have hopen := levelCount_openLevel t level
  rw [recordAll, hfold _ (by omega), hopen]

/-- That `t` has recorded a batch for each level of `levels`, one after another, where entry `a`
came up in batch number `k` iff `holds k a`. -/
structure Recorded (levels : List Nat) (holds : Nat → α → Prop) (t : Timeline α) : Prop where
  mem_all : ∀ a, a ∈ t.all ↔ ∃ k < levels.length, holds k a
  mem_atLevel : ∀ a level, a ∈ t.atLevel level ↔
    ∃ k, levels[k]? = some level ∧ IsLeast {j | holds j a} k
  levelCount : ∀ level, level < t.levelCount ↔ ∃ l ∈ levels, level ≤ l

/-- A recorded entry stands at exactly one level. -/
theorem Recorded.existsUnique {levels : List Nat} {holds : Nat → α → Prop} {t : Timeline α}
    (h : Recorded levels holds t) {a : α} (ha : a ∈ t.all) : ∃! level, a ∈ t.atLevel level := by
  obtain ⟨k, hk, hh⟩ := (h.mem_all a).mp ha
  obtain ⟨first, hleast⟩ := exists_isLeast (S := {j | holds j a}) hh
  have hlt : first < levels.length := (hleast.2 hh).trans_lt hk
  refine ⟨levels[first], ?_, ?_⟩
  · exact (h.mem_atLevel _ _).mpr ⟨_, List.getElem?_eq_getElem hlt, hleast⟩
  · intro level hlevel
    obtain ⟨j, hj, hjleast⟩ := (h.mem_atLevel _ _).mp hlevel
    rw [hjleast.unique hleast, List.getElem?_eq_getElem hlt] at hj
    exact (Option.some.inj hj).symm

private theorem mem_foldl_union {sets : List (Std.ExtTreeSet α)} {s : Std.ExtTreeSet α} {a : α} :
    a ∈ sets.foldl (· ∪ ·) s ↔ a ∈ s ∨ ∃ r ∈ sets, a ∈ r := by
  induction sets generalizing s with
  | nil => simp
  | cons r sets ih =>
    rw [List.foldl_cons, ih, Std.ExtTreeSet.mem_union_iff, or_assoc]
    simp only [List.mem_cons, or_and_right, exists_or, exists_eq_left]

variable [Std.LawfulEqOrd α]

theorem mem_entries {t : Timeline α} {a : α} : a ∈ t.entries ↔ a ∈ t.all :=
  Std.ExtTreeSet.mem_toList

theorem mem_atLevel {t : Timeline α} {level : Nat} {a : α} :
    a ∈ t.atLevel level ↔ a ∈ (t.levels[level]?).getD ∅ :=
  Std.ExtTreeSet.mem_toList

theorem mem_upToLevel {t : Timeline α} {level : Nat} {a : α} :
    a ∈ t.upToLevel level ↔ ∃ l ≤ level, a ∈ t.atLevel l := by
  rw [upToLevel, Std.ExtTreeSet.mem_toList, mem_foldl_union]
  simp only [Std.ExtTreeSet.not_mem_empty, false_or, mem_atLevel]
  constructor
  · rintro ⟨r, hr, ha⟩
    obtain ⟨l, hl⟩ := List.mem_iff_getElem?.mp hr
    rw [List.getElem?_take] at hl
    split at hl
    · exact ⟨l, by omega, by rwa [hl]⟩
    · cases hl
  · rintro ⟨l, hl, ha⟩
    cases hr : t.levels[l]? with
    | none => simp [hr] at ha
    | some r =>
      refine ⟨r, List.mem_iff_getElem?.mpr ⟨l, ?_⟩, by simpa [hr] using ha⟩
      rw [List.getElem?_take, if_pos (by omega), hr]

/-- What stands up to a level is told by its members alone, as are all entries. -/
theorem upToLevel_eq_entries {t r : Timeline α} {level : Nat}
    (h : ∀ a, a ∈ t.upToLevel level ↔ a ∈ r.entries) : t.upToLevel level = r.entries := by
  refine congrArg Std.ExtTreeSet.toList (Std.ExtTreeSet.ext_mem fun a => ?_)
  rw [← Std.ExtTreeSet.mem_toList, ← Std.ExtTreeSet.mem_toList]
  exact h a

theorem mem_all_record {t : Timeline α} {level : Nat} {a b : α} :
    b ∈ (record level t a).all ↔ b = a ∨ b ∈ t.all := by
  rw [record]
  split
  · case isTrue ha => exact ⟨.inr, fun h => h.elim (fun hb => hb ▸ ha) id⟩
  · change b ∈ t.all.insert a ↔ _
    rw [Std.ExtTreeSet.mem_insert, Std.LawfulEqCmp.compare_eq_iff_eq, eq_comm]

/-- One entry recorded: it stands at the level unless it stood somewhere before. -/
theorem mem_atLevel_record {t : Timeline α} {level l : Nat} {a b : α} :
    b ∈ (record level t a).atLevel l ↔
      b ∈ t.atLevel l ∨ (l = level ∧ b = a ∧ a ∉ t.all) := by
  rw [record]
  split
  · case isTrue ha => simp [ha]
  · case isFalse ha =>
    have hopened : b ∈ t.atLevel l ↔ b ∈ ((t.openLevel level).levels[l]?).getD ∅ := by
      rw [← atLevel_openLevel t level, mem_atLevel]
    rw [hopened, mem_atLevel]
    change b ∈ (((t.openLevel level).levels.modify level (·.insert a))[l]?).getD ∅ ↔ _
    rw [List.getElem?_modify, Option.map_eq_map]
    by_cases hl : level = l
    · subst hl
      have hlt : level < (t.openLevel level).levels.length := by
        have hcount := levelCount_openLevel t level
        rw [levelCount] at hcount
        omega
      simp only [↓reduceIte, List.getElem?_eq_getElem hlt, Option.map_some, Option.getD_some]
      rw [Std.ExtTreeSet.mem_insert, Std.LawfulEqCmp.compare_eq_iff_eq, or_comm, eq_comm (a := a)]
      simp only [ha, not_false_eq_true, and_true, true_and]
    · have hl' : ¬ l = level := fun h => hl h.symm
      simp only [hl, hl', ↓reduceIte, false_and, or_false, Option.map_id']

theorem mem_all_recordAll {t : Timeline α} {level : Nat} {entries : List α} {b : α} :
    b ∈ (t.recordAll level entries).all ↔ b ∈ entries ∨ b ∈ t.all := by
  have hfold : ∀ t : Timeline α,
      b ∈ (entries.foldl (record level) t).all ↔ b ∈ entries ∨ b ∈ t.all := by
    induction entries with
    | nil => simp
    | cons a entries ih =>
      intro t
      rw [List.foldl_cons, ih, mem_all_record, List.mem_cons, or_left_comm, or_assoc]
  exact hfold (t.openLevel level)

/-- One batch recorded: what is new in it stands at its level, and what stood before stays. -/
theorem mem_atLevel_recordAll {t : Timeline α} {level l : Nat} {entries : List α} {b : α} :
    b ∈ (t.recordAll level entries).atLevel l ↔
      b ∈ t.atLevel l ∨ (l = level ∧ b ∈ entries ∧ b ∉ t.all) := by
  have hfold : ∀ t : Timeline α, b ∈ (entries.foldl (record level) t).atLevel l ↔
      b ∈ t.atLevel l ∨ (l = level ∧ b ∈ entries ∧ b ∉ t.all) := by
    induction entries with
    | nil => simp
    | cons a entries ih =>
      intro t
      rw [List.foldl_cons, ih, mem_atLevel_record, mem_all_record, List.mem_cons]
      by_cases hb : b = a
      · subst hb
        simp only [true_or, not_true_eq_false, and_false, or_false, true_and]
      · simp only [hb, false_and, and_false, or_false, false_or]
  rw [recordAll, hfold, atLevel_openLevel]
  rfl

theorem recorded_empty (holds : Nat → α → Prop) : Recorded [] holds (empty : Timeline α) := by
  constructor
  · intro a
    simp [empty]
  · intro a level
    simp [StripsReach.Timeline.mem_atLevel, empty]
  · intro level
    simp [empty, Timeline.levelCount]

/-- The least index is the same if nothing changes up to it. -/
theorem isLeast_congr_of_lt {p q : Nat → Prop} {n k : Nat} (h : ∀ j < n, (q j ↔ p j))
    (hk : k < n) : IsLeast {j | q j} k ↔ IsLeast {j | p j} k := by
  have hbound : ∀ {r s : Nat → Prop}, (∀ j < n, (s j ↔ r j)) →
      k ∈ lowerBounds {j | r j} → k ∈ lowerBounds {j | s j} := by
    intro r s hrs hlow j hj
    by_contra hjk
    exact hjk (hlow ((hrs j (by omega)).mp hj))
  exact and_congr (h k hk) ⟨hbound fun j hj => (h j hj).symm, hbound h⟩

/-- One more batch. What it shares with the batches before keeps its level. -/
theorem recorded_recordAll {levels : List Nat} {holds more : Nat → α → Prop} {t : Timeline α}
    (h : Recorded levels holds t) (level : Nat) {entries : List α}
    (hold : ∀ k < levels.length, ∀ a, more k a ↔ holds k a)
    (hnew : ∀ a, a ∈ entries ↔ more levels.length a) :
    Recorded (levels ++ [level]) more (t.recordAll level entries) := by
  have hall : ∀ a, a ∈ t.all ↔ ∃ k < levels.length, more k a := by
    intro a
    rw [h.mem_all]
    exact exists_congr fun k => and_congr_right fun hk => (hold k hk a).symm
  constructor
  · intro a
    rw [mem_all_recordAll, hnew, hall, List.length_append, List.length_singleton,
      Nat.exists_lt_succ_right, or_comm]
  · intro a l
    rw [mem_atLevel_recordAll, hnew, hall, h.mem_atLevel]
    constructor
    · rintro (⟨k, hk, hleast⟩ | ⟨rfl, hlast, hnone⟩)
      · have hlt : k < levels.length := (List.getElem?_eq_some_iff.mp hk).1
        refine ⟨k, by rw [List.getElem?_append_left hlt, hk], ?_⟩
        exact (isLeast_congr_of_lt (fun j hj => hold j hj a) hlt).mpr hleast
      · refine ⟨levels.length, by simp, hlast, ?_⟩
        intro j hj
        by_contra hlt
        exact hnone ⟨j, by omega, hj⟩
    · rintro ⟨k, hk, hleast⟩
      by_cases hlt : k < levels.length
      · rw [List.getElem?_append_left hlt] at hk
        exact .inl ⟨k, hk, (isLeast_congr_of_lt (fun j hj => hold j hj a) hlt).mp hleast⟩
      · obtain ⟨hk', hl⟩ := List.getElem?_eq_some_iff.mp hk
        have hlast : k = levels.length := by
          rw [List.length_append, List.length_singleton] at hk'
          omega
        subst hlast
        refine .inr ⟨by simpa using hl.symm, hleast.1, ?_⟩
        rintro ⟨j, hj, hh⟩
        exact Nat.not_lt.mpr (hleast.2 hh) hj
  · intro l
    have hlt : l < (t.recordAll level entries).levelCount ↔ l < t.levelCount ∨ l ≤ level := by
      rw [levelCount_recordAll]
      omega
    rw [hlt, h.levelCount]
    simp only [List.mem_append, List.mem_singleton, or_and_right, exists_or, exists_eq_left]

end StripsReach.Timeline
