import Mathlib.Data.List.TakeWhile
import StripsReach.SExpr.Reader

/-!
# Gaps

Between words and parentheses a text may have blanks and comments in any order. `Gap` says so of
the characters in front of a place, by the rules of the notation alone. The reader skips a gap with
one flag for being inside a comment, and what it skips is the longest gap there is: it stops early
neither at a comment that follows another nor at one that ends the text, and takes nothing else.
-/

namespace StripsReach.SExpr

/-- In front of `after` the characters `front` are blanks and whole comments. A comment starts with
a semicolon and goes on up to the end of its line, or of the text. -/
inductive Gap : (front after : List Char) → Prop
  | none (after : List Char) : Gap [] after
  | blank {c : Char} {front after : List Char} :
      isBlank c = true → Gap front after → Gap (c :: front) after
  | comment {chars front after : List Char} :
      (∀ c ∈ chars, endsLine c = false) → (∀ c ∈ (front ++ after).head?, endsLine c = true) →
      Gap front after → Gap (';' :: chars ++ front) after

variable {s front after chars : List Char} {c : Char}

/-! ### What is left -/

theorem skipFrom_suffix (comment : Bool) (s : List Char) : skipFrom comment s <:+ s := by
  induction s generalizing comment with
  | nil => exact List.suffix_rfl
  | cons c rest ih =>
    unfold skipFrom
    split
    · exact (ih _).trans (List.suffix_cons c rest)
    · split
      · exact (ih _).trans (List.suffix_cons c rest)
      · split
        · exact (ih _).trans (List.suffix_cons c rest)
        · exact List.suffix_rfl

theorem skipGap_suffix (s : List Char) : skipGap s <:+ s := skipFrom_suffix false s

/-- A gap is taken whole: what follows it is no blank and starts no comment. -/
theorem head_skipFrom {comment : Bool} {s after : List Char} {c : Char}
    (h : skipFrom comment s = c :: after) : isBlank c = false ∧ c ≠ ';' := by
  induction s generalizing comment with
  | nil => cases h
  | cons d rest ih =>
    unfold skipFrom at h
    split at h
    · exact ih h
    · split at h
      · exact ih h
      · next hblank =>
        split at h
        · exact ih h
        · next hcomment =>
          obtain ⟨rfl, -⟩ := List.cons.inj h
          exact ⟨by simpa using hblank, hcomment⟩

/-- Nothing but a parenthesis both follows a gap and ends a word. -/
theorem eq_paren_of_skipGap {s after : List Char} {c : Char} (h : skipGap s = c :: after)
    (hc : isDelimiter c = true) : c = '(' ∨ c = ')' := by
  obtain ⟨hblank, hcomment⟩ := head_skipFrom h
  simpa [isDelimiter, hblank, hcomment] using hc

/-! ### Blanks and comments one by one -/

theorem isBlank_of_endsLine (h : endsLine c = true) : isBlank c = true := by
  rcases (by simpa [endsLine] using h : c = '\r' ∨ c = '\n') with rfl | rfl <;> rfl

theorem skipGap_blank (hc : isBlank c = true) : skipGap (c :: s) = skipGap s := by
  simp [skipGap, skipFrom, hc]

/-- A text that starts with no gap is left as it is. -/
theorem skipGap_of_head (hblank : isBlank c = false) (hcomment : c ≠ ';') :
    skipGap (c :: s) = c :: s := by
  simp [skipGap, skipFrom, hblank, hcomment]

theorem skipFrom_comment (s : List Char) :
    skipFrom true s = skipGap (s.dropWhile (!endsLine ·)) := by
  induction s with
  | nil => rfl
  | cons c rest ih =>
    by_cases hend : endsLine c = true
    · simp [skipGap, skipFrom, hend, isBlank_of_endsLine hend]
    · simpa [skipFrom, hend] using ih

/-- A run of characters is cut off where the first other character stands. -/
theorem span_append {p : Char → Bool} (hchars : ∀ c ∈ chars, p c = false)
    (hafter : ∀ c ∈ after.head?, p c = true) :
    (chars ++ after).takeWhile (!p ·) = chars ∧ (chars ++ after).dropWhile (!p ·) = after := by
  have hrun : ∀ c ∈ chars, (!p c) = true := by simpa using hchars
  rw [List.takeWhile_append_of_pos hrun, List.dropWhile_append_of_pos hrun]
  cases after with
  | nil => simp
  | cons c after => simp [hafter c rfl]

/-- What is left of the line after a semicolon is skipped. -/
theorem skipGap_comment (hchars : ∀ c ∈ chars, endsLine c = false)
    (hafter : ∀ c ∈ after.head?, endsLine c = true) :
    skipGap (';' :: (chars ++ after)) = skipGap after := by
  have hline := (span_append hchars hafter).2
  show skipFrom true (chars ++ after) = skipGap after
  rw [skipFrom_comment, hline]

/-- The text behind a semicolon is cut where the line ends. -/
theorem exists_comment (rest : List Char) : ∃ comment after, rest = comment ++ after ∧
    (∀ c ∈ comment, endsLine c = false) ∧ ∀ c ∈ after.head?, endsLine c = true := by
  refine ⟨rest.takeWhile (!endsLine ·), rest.dropWhile (!endsLine ·), ?_, ?_, ?_⟩
  · exact List.takeWhile_append_dropWhile.symm
  · exact fun c hc => by simpa using List.mem_takeWhile_imp hc
  · intro c hc
    have hhead := List.head?_dropWhile_not (!endsLine ·) rest
    rw [Option.mem_def.1 hc] at hhead
    simpa using hhead

/-! ### Blanks first, then comments -/

/-- A gap is a run of blanks, and then, where a comment follows, whatever a comment brings. -/
theorem skipGap_eq_skipComments (s : List Char) :
    skipGap s = skipComments (s.dropWhile isBlank) := by
  induction s with
  | nil => rfl
  | cons c rest ih =>
    by_cases hblank : isBlank c = true
    · rw [skipGap_blank hblank, ih, List.dropWhile_cons_of_pos hblank]
    · rw [List.dropWhile_cons_of_neg hblank, skipComments]
      split
      · rfl
      · next hcomment => exact skipGap_of_head (by simpa using hblank) (by simpa using hcomment)

/-- A comment brings the rest of its line, the blanks that follow and the comments after these. -/
theorem skipComments_comment (hchars : ∀ c ∈ chars, endsLine c = false)
    (hafter : ∀ c ∈ after.head?, endsLine c = true) :
    skipComments (';' :: (chars ++ after)) = skipComments (after.dropWhile isBlank) := by
  rw [← skipGap_eq_skipComments, ← skipGap_comment hchars hafter]
  rfl

/-! ### The longest gap -/

/-- What the reader skips is a gap. -/
theorem exists_gap (s : List Char) : ∃ front, s = front ++ skipGap s ∧ Gap front (skipGap s) := by
  match s with
  | [] => exact ⟨[], rfl, .none []⟩
  | c :: rest =>
    by_cases hblank : isBlank c = true
    · obtain ⟨front, hfront, hgap⟩ := exists_gap rest
      rw [skipGap_blank hblank]
      exact ⟨c :: front, by rw [List.cons_append, ← hfront], .blank hblank hgap⟩
    · by_cases hcomment : c = ';'
      · subst hcomment
        obtain ⟨chars, after, hrest, hchars, hafter⟩ := exists_comment rest
        have hshorter : after.length ≤ rest.length := by simp [hrest]
        obtain ⟨front, hfront, hgap⟩ := exists_gap after
        rw [hrest, skipGap_comment hchars hafter]
        refine ⟨';' :: chars ++ front, ?_, .comment hchars (hfront ▸ hafter) hgap⟩
        rw [List.append_assoc, ← hfront, List.cons_append]
      · have hleft : skipGap (c :: rest) = c :: rest :=
          skipGap_of_head (by simpa using hblank) hcomment
        exact ⟨[], hleft.symm, .none _⟩
termination_by s.length

/-- Every gap is skipped. -/
theorem Gap.skipGap_append (h : Gap front after) : skipGap (front ++ after) = skipGap after := by
  induction h with
  | none after => rfl
  | blank hc _ ih => rw [List.cons_append, skipGap_blank hc, ih]
  | comment hchars hline _ ih =>
    rw [List.append_assoc, List.cons_append, skipGap_comment hchars hline, ih]

theorem skipGap_skipGap (s : List Char) : skipGap (skipGap s) = skipGap s := by
  cases h : skipGap s with
  | nil => rfl
  | cons c after =>
    obtain ⟨hblank, hcomment⟩ := head_skipFrom h
    exact skipGap_of_head hblank hcomment

theorem skipFrom_append {comment : Bool} (h : skipFrom comment s ≠ []) (t : List Char) :
    skipFrom comment (s ++ t) = skipFrom comment s ++ t := by
  induction s generalizing comment with
  | nil => exact absurd rfl h
  | cons c rest ih =>
    rw [List.cons_append]
    unfold skipFrom at h ⊢
    split at h
    · next hinside => rw [if_pos hinside, if_pos hinside, ih h]
    · next houtside =>
      rw [if_neg houtside, if_neg houtside]
      split at h
      · next hblank => rw [if_pos hblank, if_pos hblank, ih h]
      · next hblank =>
        rw [if_neg hblank, if_neg hblank]
        split at h
        · next hstart => rw [if_pos hstart, if_pos hstart, ih h]
        · next hstart => rw [if_neg hstart, if_neg hstart, List.cons_append]

/-- Where something follows a gap, the gap is the same in front of any longer text. -/
theorem skipGap_append (h : skipGap s ≠ []) (t : List Char) :
    skipGap (s ++ t) = skipGap s ++ t :=
  skipFrom_append h t

/-- The reader skips the longest gap at the front of a text. The rest is empty or starts with
neither a blank nor a comment, so skipping again takes nothing. -/
theorem skipGap_takes_longest_gap (s : List Char) :
    (∃ front, front ++ skipGap s = s ∧ Gap front (skipGap s) ∧
      ∀ other after, other ++ after = s → Gap other after → other <+: front) ∧
    (skipGap s = [] ∨ ∃ c after, skipGap s = c :: after ∧ isBlank c = false ∧ c ≠ ';') ∧
    skipGap (skipGap s) = skipGap s := by
  refine ⟨?_, ?_, skipGap_skipGap s⟩
  · obtain ⟨front, hfront, hgap⟩ := exists_gap s
    refine ⟨front, hfront.symm, hgap, fun other after hother hgap' => ?_⟩
    -- The other gap is skipped too, so what it leaves still ends in what the reader leaves.
    obtain ⟨more, hmore⟩ : skipGap s <:+ after := by
      rw [← hother, hgap'.skipGap_append]
      exact skipGap_suffix after
    have hsplit : other ++ more ++ skipGap s = front ++ skipGap s := by
      rw [List.append_assoc, hmore, hother, ← hfront]
    exact ⟨more, List.append_cancel_right hsplit⟩
  · cases h : skipGap s with
    | nil => exact Or.inl rfl
    | cons c after => exact Or.inr ⟨c, after, rfl, head_skipFrom h⟩

/-- Of stacked comments, one of them empty and one at the end of the text, none is left, though
the first two are a gap already. -/
theorem skipGap_takes_longest_gap_stacked :
    skipGap "; a (\r;;\n\t; b".toList = [] ∧ Gap "; a (\r;;".toList "\n\t; b".toList ∧
      ∃ front, front ++ [] = "; a (\r;;\n\t; b".toList ∧ "; a (\r;;".toList <+: front := by
  have hskip : skipGap "; a (\r;;\n\t; b".toList = [] := by decide
  have hsecond : Gap [';', ';'] ['\n', '\t', ';', ' ', 'b'] :=
    @Gap.comment [';'] [] _ (by simp [endsLine]) (by simp [endsLine]) (.none _)
  have hboth : Gap "; a (\r;;".toList "\n\t; b".toList :=
    @Gap.comment [' ', 'a', ' ', '('] ['\r', ';', ';'] _ (by simp [endsLine]) (by simp [endsLine])
      (.blank rfl hsecond)
  obtain ⟨⟨front, hfront, -, hlongest⟩, -⟩ := skipGap_takes_longest_gap "; a (\r;;\n\t; b".toList
  rw [hskip] at hfront
  exact ⟨hskip, hboth, front, hfront, hlongest _ _ rfl hboth⟩

end StripsReach.SExpr
