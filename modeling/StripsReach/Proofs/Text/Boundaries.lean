import StripsReach.Proofs.Text.OwnCase

/-!
# Where words end for the letter case

Of all characters only the capital sigma has a lower case that depends on what stands around it,
and it looks no further than the nearest character that is not ignorable. A character that is
neither ignorable nor cased thus bounds what it sees: the lower case of a text is put together from
the lower cases of the parts that such characters cut it into.
-/

namespace StripsReach.Text

/-- Characters that a sigma sees no letter past. -/
def Bounds (c : Char) : Prop := isIgnorable c = false ∧ isCased c = false

instance (c : Char) : Decidable (Bounds c) :=
  inferInstanceAs (Decidable (isIgnorable c = false ∧ isCased c = false))

/-- A text into which no word goes on. -/
def AtBound (s : List Char) : Prop := ∀ c ∈ s.head?, Bounds c

variable {s done before after : List Char}

theorem startsCased_of_atBound (h : AtBound after) : startsCased after = false := by
  cases after with
  | nil => rfl
  | cons c after =>
    obtain ⟨hignorable, hcased⟩ := h c rfl
    simp [startsCased, hignorable, hcased]

/-- The look for a letter does not go past the end of the word. -/
theorem startsCased_append (h : AtBound after) : startsCased (s ++ after) = startsCased s := by
  induction s with
  | nil => exact startsCased_of_atBound h
  | cons c s ih =>
    by_cases hc : isIgnorable c = true
    · simpa [startsCased, hc] using ih
    · simp [startsCased, hc]

theorem lowercaseAfter_append (h : AtBound after) :
    lowercaseAfter done (s ++ after) =
      lowercaseAfter done s ++ lowercaseAfter (s.reverse ++ done) after := by
  induction s generalizing done with
  | nil => rfl
  | cons c s ih =>
    rw [List.cons_append, lowercaseAfter, lowercaseAfter, ih, lowerSigma, lowerSigma,
      startsCased_append h, List.reverse_cons, List.append_assoc, List.append_assoc]
    rfl

/-- What stands before the word does not count. -/
theorem lowercaseAfter_append_left (done : List Char) (h : AtBound before) :
    lowercaseAfter (done ++ before) s = lowercaseAfter done s := by
  induction s generalizing done with
  | nil => rfl
  | cons c s ih =>
    rw [lowercaseAfter, lowercaseAfter, lowerSigma, lowerSigma, startsCased_append h,
      ← List.cons_append, ih]

theorem lowercaseAfter_of_atBound (h : AtBound before) :
    lowercaseAfter before s = lowercaseChars s :=
  lowercaseAfter_append_left [] h

theorem lowerChar_ne_nil (c : Char) : lowerChar c ≠ [] := by
  unfold lowerChar
  split
  · exact List.cons_ne_nil _ _
  · split
    · exact List.cons_ne_nil _ _
    · split <;> exact List.cons_ne_nil _ _

theorem lowercaseAfter_ne_nil (h : s ≠ []) : lowercaseAfter done s ≠ [] := by
  cases s with
  | nil => exact absurd rfl h
  | cons c s =>
    rw [lowercaseAfter]
    refine List.append_ne_nil_of_left_ne_nil ?_ _
    split
    · exact List.cons_ne_nil _ _
    · exact lowerChar_ne_nil c

end StripsReach.Text
