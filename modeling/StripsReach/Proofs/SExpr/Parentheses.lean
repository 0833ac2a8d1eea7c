import Mathlib.Combinatorics.Enumerative.DyckWord
import StripsReach.Proofs.SExpr.Reading

/-!
# Parentheses outside comments

Read as steps up and down, the parentheses of a text outside its comments say where its lists end.
Those of a run of expressions form a Dyck word: each list closes what it opens. In front of a list
that is never closed no prefix has gone further down than up.
-/

namespace StripsReach.SExpr

/-- The parentheses of a text outside its comments, where `comment` tells whether the text starts
inside one. -/
def parenthesesFrom (comment : Bool) : List Char → List DyckStep
  | [] => []
  | c :: rest =>
    if comment then parenthesesFrom (!endsLine c) rest
    else if c = '(' then .U :: parenthesesFrom false rest
    else if c = ')' then .D :: parenthesesFrom false rest
    else parenthesesFrom (c = ';') rest

def parentheses (s : List Char) : List DyckStep := parenthesesFrom false s

/-- Outside comments as many parentheses are closed as opened, and none before it is opened. -/
def Balanced (s : List Char) : Prop := ∃ w : DyckWord, w.toList = parentheses s

variable {s rest inside chars t : List Char} {items : List SExpr} {c : Char}

/-! ### Parentheses outside comments -/

theorem parentheses_opening : parentheses ('(' :: s) = .U :: parentheses s := rfl

theorem parentheses_closing : parentheses (')' :: s) = .D :: parentheses s := rfl

theorem parentheses_plain (hopening : c ≠ '(') (hclosing : c ≠ ')') (hcomment : c ≠ ';') :
    parentheses (c :: s) = parentheses s := by
  simp [parentheses, parenthesesFrom, hopening, hclosing, hcomment]

theorem ne_of_isBlank (h : isBlank c = true) : c ≠ '(' ∧ c ≠ ')' ∧ c ≠ ';' := by
  refine ⟨?_, ?_, ?_⟩ <;> (rintro rfl; cases h)

theorem parentheses_word (hchars : ∀ c ∈ chars, isDelimiter c = false) :
    parentheses (chars ++ t) = parentheses t := by
  induction chars with
  | nil => rfl
  | cons c chars ih =>
    obtain ⟨hc, hrest⟩ := List.forall_mem_cons.1 hchars
    simp only [isDelimiter, Bool.or_eq_false_iff, decide_eq_false_iff_not] at hc
    rw [List.cons_append, parentheses_plain hc.1.1.1 hc.1.1.2 hc.1.2, ih hrest]

/-- The parentheses are found from left to right. -/
theorem prefix_parenthesesFrom (comment : Bool) (s t : List Char) :
    parenthesesFrom comment s <+: parenthesesFrom comment (s ++ t) := by
  induction s generalizing comment with
  | nil => exact List.nil_prefix
  | cons c rest ih =>
    rw [List.cons_append]
    unfold parenthesesFrom
    split
    · exact ih _
    · split
      · exact (List.prefix_cons_inj _).2 (ih _)
      · split
        · exact (List.prefix_cons_inj _).2 (ih _)
        · exact ih _

theorem exists_parenthesesFrom_eq {comment : Bool} (h : skipFrom comment s ≠ []) :
    ∃ gap, s = gap ++ skipFrom comment s ∧
      ∀ t, parenthesesFrom comment (gap ++ t) = parentheses t := by
  induction s generalizing comment with
  | nil => exact absurd rfl h
  | cons c rest ih =>
    unfold skipFrom at h ⊢
    split at h
    · next hinside =>
      obtain ⟨gap, hgap, hnone⟩ := ih h
      refine ⟨c :: gap, by rw [if_pos hinside, List.cons_append, ← hgap], fun t => ?_⟩
      rw [List.cons_append, parenthesesFrom, if_pos hinside, hnone]
    · next houtside =>
      obtain rfl : comment = false := by simpa using houtside
      rw [if_neg houtside]
      split at h
      · next hblank =>
        obtain ⟨gap, hgap, hnone⟩ := ih h
        refine ⟨c :: gap, by rw [if_pos hblank, List.cons_append, ← hgap], fun t => ?_⟩
        obtain ⟨hopening, hclosing, hcomment⟩ := ne_of_isBlank hblank
        rw [List.cons_append, ← parentheses, parentheses_plain hopening hclosing hcomment]
        exact hnone t
      · next hblank =>
        rw [if_neg hblank]
        split at h
        · next hstart =>
          subst hstart
          obtain ⟨gap, hgap, hnone⟩ := ih h
          refine ⟨';' :: gap, by rw [if_pos rfl, List.cons_append, ← hgap], fun t => ?_⟩
          rw [← hnone t]
          rfl
        · next hstart => exact ⟨[], by rw [if_neg hstart, List.nil_append], fun t => rfl⟩

/-- A gap in front of something else has no parenthesis, and ends outside its comments. -/
theorem exists_parentheses_eq (h : skipGap s ≠ []) :
    ∃ gap, s = gap ++ skipGap s ∧ ∀ t, parentheses (gap ++ t) = parentheses t :=
  exists_parenthesesFrom_eq h

/-- What is skipped up to the end of a text has no parenthesis either. -/
theorem parenthesesFrom_eq_nil {comment : Bool} (h : skipFrom comment s = []) :
    parenthesesFrom comment s = [] := by
  induction s generalizing comment with
  | nil => rfl
  | cons c rest ih =>
    unfold skipFrom at h
    unfold parenthesesFrom
    split at h
    · next hinside => rw [if_pos hinside, ih h]
    · next houtside =>
      split at h
      · next hblank =>
        obtain ⟨hopening, hclosing, hcomment⟩ := ne_of_isBlank hblank
        rw [if_neg houtside, if_neg hopening, if_neg hclosing, decide_eq_false hcomment, ih h]
      · split at h
        · next hstart =>
          subst hstart
          rw [if_neg houtside, if_neg (by decide), if_neg (by decide), decide_eq_true rfl, ih h]
        · cases h

/-! ### Opened before closed -/

/-- No prefix has more steps down than up. -/
def OpensFirst (steps : List DyckStep) : Prop :=
  ∀ front, front <+: steps → front.count .D ≤ front.count .U

theorem opensFirst_nil : OpensFirst [] := by
  intro front hfront
  rw [List.prefix_nil.1 hfront]
  exact Nat.le_refl 0

theorem OpensFirst.cons {steps : List DyckStep} (h : OpensFirst steps) :
    OpensFirst (.U :: steps) := by
  intro front hfront
  rcases List.prefix_cons_iff.1 hfront with rfl | ⟨front, rfl, hrest⟩
  · exact Nat.le_refl 0
  · have hle := h front hrest
    rw [List.count_cons_self, List.count_cons_of_ne (by decide)]
    omega

/-- A Dyck word in front closes all that it opens. -/
theorem OpensFirst.append {steps : List DyckStep} (h : OpensFirst steps) (w : DyckWord) :
    OpensFirst (w.toList ++ steps) := by
  intro front hfront
  rcases List.prefix_or_prefix_of_prefix hfront (List.prefix_append w.toList steps) with
    hshort | ⟨more, rfl⟩
  · have hle := w.count_D_le_count_U front.length
    rwa [← List.prefix_iff_eq_take.1 hshort] at hle
  · have hle := h more ((List.prefix_append_right_inj w.toList).1 hfront)
    have heq := w.count_U_eq_count_D
    rw [List.count_append, List.count_append]
    omega

/-- A parenthesis that nothing closes keeps every prefix from balancing. -/
theorem not_balanced_of_opensFirst {other : List Char} (h : OpensFirst (parentheses inside))
    (hother : other <+: '(' :: inside) (hne : other ≠ []) : ¬ Balanced other := by
  rintro ⟨v, hv⟩
  rcases List.prefix_cons_iff.1 hother with rfl | ⟨other, rfl, more, rfl⟩
  · exact hne rfl
  · have hle := h (parentheses other) (prefix_parenthesesFrom false other more)
    have heq := v.count_U_eq_count_D
    rw [hv, parentheses_opening, List.count_cons_self, List.count_cons_of_ne (by decide)] at heq
    omega

/-! ### Runs of expressions -/

/-- The parentheses of a run of expressions form a Dyck word, whatever follows the run. -/
theorem Reads.exists_taken (h : Reads s items rest) : ∃ taken, s = taken ++ rest ∧
    ∃ w : DyckWord, ∀ t, parentheses (taken ++ t) = w.toList ++ parentheses t := by
  induction h with
  | done s => exact ⟨[], rfl, 0, fun t => rfl⟩
  | @word s chars after rest items hskip hchars _ _ ih =>
    have hsome : skipGap s ≠ [] := by simp [hskip, hchars.1]
    obtain ⟨gap, hgap, hnone⟩ := exists_parentheses_eq hsome
    obtain ⟨taken, htaken, w, hw⟩ := ih
    refine ⟨gap ++ chars ++ taken, ?_, w, fun t => ?_⟩
    · rw [hgap, hskip, htaken]
      simp only [List.append_assoc]
    · rw [List.append_assoc, List.append_assoc, hnone, parentheses_word hchars.2, hw]
  | @list s inside close after rest inner items hopening _ hclosing _ ihInner ihItems =>
    have hsome : skipGap s ≠ [] := by simp [hopening]
    have hsome' : skipGap close ≠ [] := by simp [hclosing]
    obtain ⟨gap, hgap, hnone⟩ := exists_parentheses_eq hsome
    obtain ⟨within, hwithin, v, hv⟩ := ihInner
    obtain ⟨gap', hgap', hnone'⟩ := exists_parentheses_eq hsome'
    obtain ⟨taken, htaken, w, hw⟩ := ihItems
    refine ⟨gap ++ '(' :: within ++ gap' ++ ')' :: taken, ?_, v.nest + w, fun t => ?_⟩
    · rw [hgap, hopening, hwithin, hgap', hclosing, htaken]
      simp only [List.append_assoc, List.cons_append]
    · have hsplit : gap ++ '(' :: within ++ gap' ++ ')' :: taken ++ t =
          gap ++ '(' :: (within ++ (gap' ++ ')' :: (taken ++ t))) := by
        simp only [List.append_assoc, List.cons_append]
      rw [hsplit, hnone, parentheses_opening, hv, hnone', parentheses_closing, hw]
      show _ = v.nest.toList ++ w.toList ++ _
      simp [DyckWord.nest]

theorem opensFirst_of_reads (h : Reads s items rest) (hrest : OpensFirst (parentheses rest)) :
    OpensFirst (parentheses s) := by
  obtain ⟨taken, rfl, w, hw⟩ := h.exists_taken
  rw [hw]
  exact hrest.append w

theorem opensFirst_of_skipGap (h : skipGap s = []) : OpensFirst (parentheses s) := by
  rw [parentheses, parenthesesFrom_eq_nil h]
  exact opensFirst_nil

theorem opensFirst_of_opening (h : skipGap s = '(' :: inside)
    (hinside : OpensFirst (parentheses inside)) : OpensFirst (parentheses s) := by
  have hsome : skipGap s ≠ [] := by simp [h]
  obtain ⟨gap, hgap, hnone⟩ := exists_parentheses_eq hsome
  rw [hgap, h, hnone, parentheses_opening]
  exact hinside.cons

/-- In a text that starts with a list that is never closed, no prefix closes more than it opens. -/
theorem opensFirst_of_unclosed (h : Unclosed s) : OpensFirst (parentheses s) := by
  induction h with
  | ended hopening hinner hend =>
    have hinside := opensFirst_of_reads hinner (opensFirst_of_skipGap hend)
    exact opensFirst_of_opening hopening hinside
  | nested hopening hinner _ ih =>
    have hinside := opensFirst_of_reads hinner ih
    exact opensFirst_of_opening hopening hinside

end StripsReach.SExpr
