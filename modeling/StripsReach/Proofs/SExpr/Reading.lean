import StripsReach.Proofs.SExpr.Gaps

/-!
# Which expressions a text starts with

`Reads s items rest` says, by the rules of the notation alone, that `s` starts with the
expressions `items` and goes on with `rest`. What the reader takes from a text is such a run, and
it stops only where the text ends, at a parenthesis that closes nothing, or where a list opens
that is never closed.
-/

namespace StripsReach.SExpr

/-- Characters that make up a word. -/
def IsWord (chars : List Char) : Prop := chars ≠ [] ∧ ∀ c ∈ chars, isDelimiter c = false

instance (chars : List Char) : Decidable (IsWord chars) :=
  decidable_of_iff (chars ≠ [] ∧ chars.all (!isDelimiter ·) = true) (by simp [IsWord])

/-- A text that no word goes on into. -/
def AtDelimiter (s : List Char) : Prop := ∀ c ∈ s.head?, isDelimiter c = true

/-- The text `s` starts with the expressions `items`, each after a gap, and goes on with
`rest`. -/
inductive Reads : List Char → List SExpr → List Char → Prop
  | done (s : List Char) : Reads s [] s
  | word {s chars after rest : List Char} {items : List SExpr} :
      skipGap s = chars ++ after → IsWord chars → AtDelimiter after → Reads after items rest →
      Reads s (.word (String.ofList chars) :: items) rest
  | list {s inside close after rest : List Char} {inner items : List SExpr} :
      skipGap s = '(' :: inside → Reads inside inner close → skipGap close = ')' :: after →
      Reads after items rest → Reads s (.list inner :: items) rest

/-- The text `s` starts with a list that is still open where the text ends. -/
inductive Unclosed : List Char → Prop
  | ended {s inside rest : List Char} {inner : List SExpr} :
      skipGap s = '(' :: inside → Reads inside inner rest → skipGap rest = [] → Unclosed s
  | nested {s inside rest : List Char} {inner : List SExpr} :
      skipGap s = '(' :: inside → Reads inside inner rest → Unclosed rest → Unclosed s

/-- Why no further expression is read from a text. -/
inductive Stops : List Char → Prop
  | ended {s : List Char} : skipGap s = [] → Stops s
  | closing {s after : List Char} : skipGap s = ')' :: after → Stops s
  | unclosed {s : List Char} : Unclosed s → Stops s

/-! ### Words -/

theorem isWord_cons_takeWhile {c : Char} (hc : isDelimiter c = false) (s : List Char) :
    IsWord (c :: s.takeWhile (!isDelimiter ·)) := by
  refine ⟨List.cons_ne_nil _ _, fun d hd => ?_⟩
  rcases List.mem_cons.1 hd with rfl | hrest
  · exact hc
  · simpa using List.mem_takeWhile_imp hrest

theorem atDelimiter_dropWhile (s : List Char) : AtDelimiter (s.dropWhile (!isDelimiter ·)) := by
  intro c hc
  have hhead := List.head?_dropWhile_not (!isDelimiter ·) s
  rw [Option.mem_def.1 hc] at hhead
  simpa using hhead

/-! ### The reader -/

theorem readFront?_nil : readFront? [] = none := by
  rw [readFront?, readFront]
  rfl

theorem readFront?_opening (s : List Char) :
    readFront? ('(' :: s) =
      match skipGap (readRun s).2.1 with
      | ')' :: after => some (.list (readRun s).1, after)
      | _ => none := by
  rw [readFront?, readFront, if_pos rfl]
  dsimp only
  split
  · next after hclose => simp only [hclose, Option.map_some]
  · next hother =>
    split
    · next after hclose => exact absurd hclose (hother after)
    · rfl

theorem readFront?_delimiter {c : Char} (hc : isDelimiter c = true) (hopening : c ≠ '(')
    (s : List Char) : readFront? (c :: s) = none := by
  rw [readFront?, readFront, if_neg hopening, if_pos hc]
  rfl

theorem readFront?_word {c : Char} (hc : isDelimiter c = false) (s : List Char) :
    readFront? (c :: s) =
      some (.word (String.ofList (c :: s.takeWhile (!isDelimiter ·))),
        s.dropWhile (!isDelimiter ·)) := by
  have hopening : c ≠ '(' := by
    rintro rfl
    cases hc
  rw [readFront?, readFront, if_neg hopening]
  simp [hc]

theorem readRun_of_none {s : List Char} (h : readFront? (skipGap s) = none) :
    (readRun s).1 = [] ∧ (readRun s).2.1 = s := by
  rw [readRun]
  split
  · exact ⟨rfl, rfl⟩
  · next item rest hlt hfront =>
    rw [readFront?, hfront] at h
    cases h

theorem readRun_of_some {s rest : List Char} {item : SExpr}
    (h : readFront? (skipGap s) = some (item, rest)) :
    (readRun s).1 = item :: (readRun rest).1 ∧ (readRun s).2.1 = (readRun rest).2.1 := by
  rw [readRun]
  split
  · next hfront =>
    rw [readFront?, hfront] at h
    cases h
  · next found rest' hlt hfront =>
    rw [readFront?, hfront] at h
    cases h
    exact ⟨rfl, rfl⟩

/-- Where nothing can be taken the run is empty. -/
theorem reads_readRun_of_none {s : List Char} (hnone : readFront? (skipGap s) = none)
    (hstops : Stops s) : Reads s (readRun s).1 (readRun s).2.1 ∧ Stops (readRun s).2.1 := by
  obtain ⟨hitems, hrest⟩ := readRun_of_none hnone
  rw [hitems, hrest]
  exact ⟨.done s, hstops⟩

/-- What the reader takes from a text is a run of expressions, and it stops for a reason. -/
theorem reads_readRun (s : List Char) :
    Reads s (readRun s).1 (readRun s).2.1 ∧ Stops (readRun s).2.1 := by
  cases hs : skipGap s with
  | nil => exact reads_readRun_of_none (by rw [hs, readFront?_nil]) (.ended hs)
  | cons c inside =>
    have hinside : inside.length < s.length := by
      have hgap := length_skipGap_le s
      rw [hs, List.length_cons] at hgap
      omega
    by_cases hc : isDelimiter c = true
    · obtain rfl | rfl := eq_paren_of_skipGap hs hc
      · obtain ⟨hinner, hend⟩ := reads_readRun inside
        have hfront := readFront?_opening inside
        rw [← hs] at hfront
        cases hend with
        | ended hclose =>
          rw [hclose] at hfront
          exact reads_readRun_of_none hfront (.unclosed (.ended hs hinner hclose))
        | @closing after hclose =>
          rw [hclose] at hfront
          have hafter : after.length < s.length := by
            have hshorter := length_skipGap_le (readRun inside).2.1
            have hle := (readRun inside).2.2
            rw [hclose, List.length_cons] at hshorter
            omega
          obtain ⟨hitems, hrest⟩ := reads_readRun after
          obtain ⟨htaken, hleft⟩ := readRun_of_some hfront
          rw [htaken, hleft]
          exact ⟨.list hs hinner hclose hitems, hrest⟩
        | unclosed hopen =>
          -- What is left starts with an opening parenthesis, so this list is not closed either.
          have hnone : readFront? (skipGap s) = none := by
            cases hopen with
            | ended hagain => rw [hfront, hagain]; rfl
            | nested hagain => rw [hfront, hagain]; rfl
          exact reads_readRun_of_none hnone (.unclosed (.nested hs hinner hopen))
      · exact reads_readRun_of_none (by rw [hs, readFront?_delimiter hc (by decide)]) (.closing hs)
    · have hplain : isDelimiter c = false := by simpa using hc
      have hshorter := length_dropWhile_le (!isDelimiter ·) inside
      have hfront := readFront?_word hplain inside
      rw [← hs] at hfront
      obtain ⟨hitems, hrest⟩ := reads_readRun (inside.dropWhile (!isDelimiter ·))
      obtain ⟨htaken, hleft⟩ := readRun_of_some hfront
      rw [htaken, hleft]
      refine ⟨.word ?_ (isWord_cons_takeWhile hplain inside) (atDelimiter_dropWhile inside) hitems,
        hrest⟩
      rw [hs, List.cons_append, List.takeWhile_append_dropWhile]
termination_by s.length

end StripsReach.SExpr
