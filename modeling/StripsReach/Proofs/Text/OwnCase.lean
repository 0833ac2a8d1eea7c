import StripsReach.Text.Lowercase

/-!
# Characters that are their own lower case

Lower casing leaves a text alone exactly when every character of it is its own lower case, and
what it writes consists of such characters. So a text is in lower case after one round. The
ranges of letters are a table, and what is needed of it is that no image of one range has a lower
case in another.
-/

namespace StripsReach.Text

/-- Characters that are their own lower case, wherever they stand. -/
def OwnCase (c : Char) : Prop := lowerChar c = [c]

instance (c : Char) : Decidable (OwnCase c) := inferInstanceAs (Decidable (lowerChar c = [c]))

namespace CaseRange

/-- The code point that the last letter of a range goes to. -/
def lastImage (range : CaseRange) : Nat := range.image + (range.last - range.first)

/-- Whether no image of `range` has a lower case in `other`: the images lie before it or after
it, or they fall between its letters, both being two apart. -/
def misses (range other : CaseRange) : Bool :=
  Nat.blt range.lastImage other.first || Nat.blt other.last range.image ||
    ((range.step == 2 || range.first == range.last) && other.step == 2 &&
      (range.image + other.first) % 2 == 1)

theorem exists_of_lower?_eq_some {range : CaseRange} {m n : Nat} (h : range.lower? m = some n) :
    range.first ≤ m ∧ m ≤ range.last ∧ (m - range.first) % range.step = 0 ∧
      n = range.image + (m - range.first) := by
  unfold lower? at h
  split at h
  · next hin => exact ⟨hin.1, hin.2.1, hin.2.2, (Option.some.inj h).symm⟩
  · cases h

theorem image_le_of_lower? {range : CaseRange} {m n : Nat} (h : range.lower? m = some n) :
    range.image ≤ n ∧ n ≤ range.lastImage := by
  obtain ⟨hfirst, hlast, -, rfl⟩ := exists_of_lower?_eq_some h
  unfold lastImage
  omega

theorem lower?_image_eq_none {range other : CaseRange} {m n : Nat}
    (hmisses : range.misses other = true) (h : range.lower? m = some n) :
    other.lower? n = none := by
  obtain ⟨hfirst, hlast, hstep, hn⟩ := exists_of_lower?_eq_some h
  obtain ⟨himage, hbound⟩ := image_le_of_lower? h
  simp only [misses, Bool.or_eq_true, Bool.and_eq_true, Nat.blt_eq, beq_iff_eq] at hmisses
  unfold lower?
  split
  · next hother =>
    obtain ⟨hfirst', hlast', hstep'⟩ := hother
    exfalso
    rcases hmisses with (hbefore | hafter) | ⟨⟨htwo, htwo'⟩, hodd⟩
    · omega
    · omega
    · rw [htwo'] at hstep'
      rcases htwo with htwo | hone
      · rw [htwo] at hstep
        omega
      · omega
  · rfl

end CaseRange

theorem isValidChar_lastImage : ∀ range ∈ caseRanges,
    range.lastImage < 0xD800 ∨ 0xDFFF < range.image ∧ range.lastImage < 0x110000 := by
  decide +kernel

/-- The Kelvin sign is the only character beyond ASCII with a lower case in ASCII. -/
theorem image_of_ascii : ∀ range ∈ caseRanges,
    128 ≤ range.image ∨ range.image = 'k'.toNat ∧ range.lastImage = 'k'.toNat := by
  decide +kernel

theorem dotted_not_image : ∀ range ∈ caseRanges,
    range.lastImage < 'İ'.toNat ∨ 'İ'.toNat < range.image := by
  decide +kernel

theorem all_misses :
    (caseRanges.all fun range => caseRanges.all fun other => range.misses other) = true := by
  decide +kernel

theorem misses_of_mem {range other : CaseRange} (hrange : range ∈ caseRanges)
    (hother : other ∈ caseRanges) : range.misses other = true :=
  List.all_eq_true.1 (List.all_eq_true.1 all_misses range hrange) other hother

theorem toNat_ofNat_of_isValidChar {n : Nat} (h : n.isValidChar) : (Char.ofNat n).toNat = n := by
  rw [Char.ofNat, dif_pos h]
  rfl

theorem ownCase_toLower : ∀ n < 128, OwnCase (Char.ofNat n).toLower := by
  decide

/-- A letter that a range gives lies beyond ASCII, but for that of the Kelvin sign. -/
theorem image_cases {range : CaseRange} {m n : Nat} (hmem : range ∈ caseRanges)
    (h : range.lower? m = some n) :
    n = 'k'.toNat ∨ 128 ≤ n ∧ (Char.ofNat n).toNat = n := by
  obtain ⟨himage, hbound⟩ := CaseRange.image_le_of_lower? h
  rcases image_of_ascii range hmem with hwide | ⟨hk, hk'⟩
  · have hvalid : n.isValidChar := by
      rcases isValidChar_lastImage range hmem with hlow | ⟨hhigh, hlast⟩
      · exact Or.inl (by omega)
      · exact Or.inr ⟨by omega, by omega⟩
    exact Or.inr ⟨Nat.le_trans hwide himage, toNat_ofNat_of_isValidChar hvalid⟩
  · exact Or.inl (by omega)

/-- A letter that a range gives has no lower case other than itself. -/
theorem ownCase_image {range : CaseRange} {m n : Nat} (hmem : range ∈ caseRanges)
    (h : range.lower? m = some n) : OwnCase (Char.ofNat n) := by
  rcases image_cases hmem h with rfl | ⟨hwide, hpoint⟩
  · decide
  · have hdotted : Char.ofNat n ≠ 'İ' := by
      intro heq
      have hn : n = 'İ'.toNat := by rw [← heq, hpoint]
      obtain ⟨himage, hbound⟩ := CaseRange.image_le_of_lower? h
      rcases dotted_not_image range hmem with hbefore | hafter <;> omega
    have hnone : caseRanges.findSome? (·.lower? n) = none :=
      List.findSome?_eq_none_iff.2 fun other hother =>
        CaseRange.lower?_image_eq_none (misses_of_mem hmem hother) h
    simp only [OwnCase, lowerChar, hpoint, if_neg (Nat.not_lt.2 hwide), if_neg hdotted, hnone]

/-- What the lower case of a character is made of does not change again. -/
theorem ownCase_of_mem_lowerChar {c d : Char} (h : d ∈ lowerChar c) : OwnCase d := by
  unfold lowerChar at h
  split at h
  · next hascii =>
    obtain rfl := List.mem_singleton.1 h
    simpa using ownCase_toLower c.toNat hascii
  · next hwide =>
    split at h
    · obtain rfl | rfl : d = 'i' ∨ d = '\u0307' := by simpa using h
      · decide
      · decide
    · next hplain =>
      split at h
      · next n hfound =>
        obtain rfl := List.mem_singleton.1 h
        obtain ⟨range, hmem, hlower⟩ := List.exists_of_findSome?_eq_some hfound
        exact ownCase_image hmem hlower
      · next hnone =>
        obtain rfl := List.mem_singleton.1 h
        simp only [OwnCase, lowerChar, if_neg hwide, if_neg hplain, hnone]

theorem ownCase_lowerSigma (done rest : List Char) : OwnCase (lowerSigma done rest) := by
  have hfinal : OwnCase 'ς' := by decide
  have hinner : OwnCase 'σ' := by decide
  unfold lowerSigma
  split
  · exact hfinal
  · exact hinner

theorem ownCase_of_mem_lowercaseAfter {done s : List Char} {d : Char}
    (h : d ∈ lowercaseAfter done s) : OwnCase d := by
  induction s generalizing done with
  | nil => cases h
  | cons c rest ih =>
    rw [lowercaseAfter] at h
    rcases List.mem_append.1 h with hhead | hrest
    · split at hhead
      · obtain rfl := List.mem_singleton.1 hhead
        exact ownCase_lowerSigma done rest
      · exact ownCase_of_mem_lowerChar hhead
    · exact ih hrest

theorem ownCase_of_mem_lowercaseChars {s : List Char} {d : Char} (h : d ∈ lowercaseChars s) :
    OwnCase d :=
  ownCase_of_mem_lowercaseAfter h

/-- A capital sigma is not its own lower case, so what stands around the character does not
matter. -/
theorem lowercaseAfter_cons_of_ownCase {c : Char} (done s : List Char) (h : OwnCase c) :
    lowercaseAfter done (c :: s) = c :: lowercaseAfter (c :: done) s := by
  have hsigma : c ≠ 'Σ' := by
    rintro rfl
    exact absurd h (by decide)
  rw [lowercaseAfter, if_neg hsigma, h]
  rfl

theorem lowercaseAfter_of_ownCase (done : List Char) {s : List Char} (h : ∀ c ∈ s, OwnCase c) :
    lowercaseAfter done s = s := by
  induction s generalizing done with
  | nil => rfl
  | cons c rest ih =>
    obtain ⟨hc, hrest⟩ := List.forall_mem_cons.1 h
    rw [lowercaseAfter_cons_of_ownCase done rest hc, ih _ hrest]

/-- Lower casing leaves alone the texts in which every character is its own lower case. -/
theorem lowercaseChars_eq_self_iff {s : List Char} :
    lowercaseChars s = s ↔ ∀ c ∈ s, OwnCase c := by
  constructor
  · intro h c hc
    rw [← h] at hc
    exact ownCase_of_mem_lowercaseChars hc
  · exact lowercaseAfter_of_ownCase []

end StripsReach.Text
