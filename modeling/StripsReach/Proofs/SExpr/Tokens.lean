import StripsReach.Proofs.SExpr.Reading

/-!
# Reading token by token

A text can be read in one pass: it is cut into parentheses and words, and a stack of the lists that
are open takes one token after the other. The pass counts lines and characters as it goes, so each
token has its place. The first parenthesis that closes nothing ends the pass; otherwise the
outermost of the lists that are still open at the end is at fault, and without one the number of
expressions decides. `readLower_eq_onePass` says that the reader, which takes whole expressions and
looks at what is left of the text, comes to the same result on every text.
-/

namespace StripsReach.Text.Position

/-- The place behind `c`, which stands at `place`. -/
def next (place : Position) (c : Char) : Position :=
  if c = '\n' then ⟨place.line + 1, 1⟩ else ⟨place.line, place.column + 1⟩

def past (place : Position) (chars : List Char) : Position := chars.foldl next place

theorem past_cons (place : Position) (c : Char) (chars : List Char) :
    place.past (c :: chars) = (place.next c).past chars := rfl

theorem past_append (place : Position) (chars others : List Char) :
    place.past (chars ++ others) = (place.past chars).past others :=
  List.foldl_append

theorem next_after (done : List Char) (c : Char) : (after done).next c = after (done ++ [c]) := by
  by_cases hc : c = '\n'
  · simp [next, after, hc, Nat.add_assoc]
  · simp [next, after, hc, Nat.add_assoc, Nat.add_comm 1]

/-- Lines and characters that are counted on the way come to the place that is found by looking
back. -/
theorem past_start (chars : List Char) : past ⟨1, 1⟩ chars = after chars := by
  suffices h : ∀ done, (after done).past chars = after (done ++ chars) from h []
  induction chars with
  | nil =>
    intro done
    rw [List.append_nil]
    rfl
  | cons c chars ih =>
    intro done
    rw [past_cons, next_after, ih, List.append_assoc, List.singleton_append]

end StripsReach.Text.Position

namespace StripsReach.SExpr

open Text (Position)

inductive Token where
  | opening
  | closing
  | word (name : Name)
  deriving DecidableEq, Repr

/-- The tokens of a text that starts at `place`, each with its own place. A word is a longest run
of characters other than parentheses, semicolons and blanks. -/
def tokensFrom (place : Position) : List Char → List (Token × Position)
  | [] => []
  | c :: rest =>
    if c ∈ [' ', '\t', '\r', '\n'] then tokensFrom (place.next c) rest
    else if c = ';' then
      tokensFrom (place.past (c :: rest.takeWhile (· ∉ ['\r', '\n'])))
        (rest.dropWhile (· ∉ ['\r', '\n']))
    else if c = '(' then (.opening, place) :: tokensFrom (place.next c) rest
    else if c = ')' then (.closing, place) :: tokensFrom (place.next c) rest
    else
      let chars := c :: rest.takeWhile (· ∉ ['(', ')', ';', ' ', '\t', '\r', '\n'])
      (.word (String.ofList chars), place) ::
        tokensFrom (place.past chars)
          (rest.dropWhile (· ∉ ['(', ')', ';', ' ', '\t', '\r', '\n']))
termination_by s => s.length
decreasing_by
  all_goals simp only [List.length_cons]
  · exact Nat.lt_succ_self _
  · exact Nat.lt_succ_of_le (length_dropWhile_le _ _)
  · exact Nat.lt_succ_self _
  · exact Nat.lt_succ_self _
  · exact Nat.lt_succ_of_le (length_dropWhile_le _ _)

def tokens (s : List Char) : List (Token × Position) := tokensFrom ⟨1, 1⟩ s

/-- A list that is open: the place of its parenthesis and the expressions that stand before it
in the list, or the text, around it. -/
structure OpenList where
  place : Position
  before : List SExpr

/-- What has been read: the lists that are open, innermost first, and the expressions so far in
the innermost of them, or in the text where none is open. -/
structure Stack where
  opened : List OpenList
  items : List SExpr

namespace Stack

def empty : Stack := ⟨[], []⟩

def append (stack : Stack) (items : List SExpr) : Stack :=
  { stack with items := stack.items ++ items }

def openList (stack : Stack) (place : Position) : Stack :=
  ⟨⟨place, stack.items⟩ :: stack.opened, []⟩

def step (stack : Stack) : Token × Position → Except Fault Stack
  | (.opening, place) => .ok (stack.openList place)
  | (.closing, place) =>
    match stack.opened with
    | [] => .error (.missingOpen place)
    | inner :: outer => .ok ⟨outer, inner.before ++ [.list stack.items]⟩
  | (.word name, _) => .ok (stack.append [.word name])

/-- What comes of a text that ends here. -/
def finish (stack : Stack) : Except Fault SExpr :=
  match stack.opened.getLast? with
  | some outermost => .error (.missingClose outermost.place)
  | none =>
    match stack.items with
    | [item] => .ok item
    | items => .error (.notOneExpression items.length)

end Stack

/-- The expression that the tokens of a whole text make up, read in one pass. -/
def onePass (tokens : List (Token × Position)) : Except Fault SExpr :=
  tokens.foldlM Stack.step Stack.empty >>= Stack.finish

/-! ### The tokens of a text -/

theorem isBlank_iff {c : Char} : isBlank c = true ↔ c ∈ [' ', '\t', '\r', '\n'] := by
  simp [isBlank, or_assoc]

theorem not_endsLine_eq (c : Char) : (!endsLine c) = decide (c ∉ ['\r', '\n']) := by
  simp [endsLine]

theorem not_isDelimiter_eq (c : Char) :
    (!isDelimiter c) = decide (c ∉ ['(', ')', ';', ' ', '\t', '\r', '\n']) := by
  simp [isDelimiter, isBlank, Bool.and_assoc]

/-- The pass tells characters apart as the reader does. -/
theorem tokensFrom_cons (place : Position) (c : Char) (rest : List Char) :
    tokensFrom place (c :: rest) =
      if isBlank c then tokensFrom (place.next c) rest
      else if c = ';' then
        tokensFrom (place.past (c :: rest.takeWhile (!endsLine ·))) (rest.dropWhile (!endsLine ·))
      else if c = '(' then (.opening, place) :: tokensFrom (place.next c) rest
      else if c = ')' then (.closing, place) :: tokensFrom (place.next c) rest
      else
        (.word (String.ofList (c :: rest.takeWhile (!isDelimiter ·))), place) ::
          tokensFrom (place.past (c :: rest.takeWhile (!isDelimiter ·)))
            (rest.dropWhile (!isDelimiter ·)) := by
  rw [tokensFrom]
  simp only [isBlank_iff, not_endsLine_eq, not_isDelimiter_eq]

theorem tokensFrom_opening (place : Position) (rest : List Char) :
    tokensFrom place ('(' :: rest) = (.opening, place) :: tokensFrom (place.next '(') rest := by
  rw [tokensFrom_cons]
  rfl

theorem tokensFrom_closing (place : Position) (rest : List Char) :
    tokensFrom place (')' :: rest) = (.closing, place) :: tokensFrom (place.next ')') rest := by
  rw [tokensFrom_cons]
  rfl

theorem tokensFrom_word (place : Position) {chars after : List Char} (hchars : IsWord chars)
    (hafter : AtDelimiter after) :
    tokensFrom place (chars ++ after) =
      (.word (String.ofList chars), place) :: tokensFrom (place.past chars) after := by
  obtain ⟨hne, hplain⟩ := hchars
  cases chars with
  | nil => exact absurd rfl hne
  | cons c chars =>
    obtain ⟨hc, hrest⟩ := List.forall_mem_cons.1 hplain
    obtain ⟨htake, hdrop⟩ := span_append hrest hafter
    simp only [isDelimiter, Bool.or_eq_false_iff, decide_eq_false_iff_not] at hc
    obtain ⟨⟨⟨hopening, hclosing⟩, hcomment⟩, hblank⟩ := hc
    rw [List.cons_append, tokensFrom_cons]
    simp only [hblank, hcomment, hopening, hclosing, Bool.false_eq_true, if_false, htake, hdrop]

/-- A gap has no token, and what follows it is placed after it. -/
theorem tokensFrom_gap {gap after : List Char} (h : Gap gap after) (place : Position) :
    tokensFrom place (gap ++ after) = tokensFrom (place.past gap) after := by
  induction h generalizing place with
  | none after => rfl
  | @blank c gap after hc _ ih =>
    rw [List.cons_append, tokensFrom_cons, if_pos hc, ih, Position.past_cons]
  | @comment chars gap after hchars hline _ ih =>
    have hblank : ¬ isBlank ';' = true := by decide
    obtain ⟨htake, hdrop⟩ := span_append hchars hline
    rw [List.append_assoc, List.cons_append, tokensFrom_cons, if_neg hblank, if_pos rfl, htake, hdrop,
      ih, Position.past_append]

/-! ### The stack -/

namespace Stack

/-- The stack that the tokens of `s`, a text that starts at `place`, leave behind. -/
def run (stack : Stack) (place : Position) (s : List Char) : Except Fault Stack :=
  (tokensFrom place s).foldlM step stack

theorem append_append (stack : Stack) (items others : List SExpr) :
    (stack.append items).append others = stack.append (items ++ others) := by
  simp [append]

theorem run_nil (stack : Stack) (place : Position) : stack.run place [] = .ok stack := by
  rw [run, tokensFrom]
  rfl

theorem run_opening (stack : Stack) (place : Position) (inside : List Char) :
    stack.run place ('(' :: inside) = (stack.openList place).run (place.next '(') inside := by
  rw [run, tokensFrom_opening]
  rfl

/-- A closing parenthesis hands the list it ends to the list around it. -/
theorem run_closing {stack : Stack} {inner : OpenList} {outer : List OpenList}
    (hopened : stack.opened = inner :: outer) (place : Position) (after : List Char) :
    stack.run place (')' :: after) =
      run ⟨outer, inner.before ++ [.list stack.items]⟩ (place.next ')') after := by
  rw [run, tokensFrom_closing, List.foldlM_cons, step]
  simp only [hopened]
  rfl

theorem run_closing_of_none_open {stack : Stack} (hopened : stack.opened = [])
    (place : Position) (after : List Char) :
    stack.run place (')' :: after) = .error (.missingOpen place) := by
  rw [run, tokensFrom_closing, List.foldlM_cons, step]
  simp only [hopened]
  rfl

theorem run_word (stack : Stack) (place : Position) {chars after : List Char}
    (hchars : IsWord chars) (hafter : AtDelimiter after) :
    stack.run place (chars ++ after) =
      (stack.append [.word (String.ofList chars)]).run (place.past chars) after := by
  rw [run, tokensFrom_word place hchars hafter]
  rfl

theorem run_gap (s : List Char) :
    ∃ gap, s = gap ++ skipGap s ∧
      ∀ (stack : Stack) (place : Position),
        stack.run place s = stack.run (place.past gap) (skipGap s) := by
  obtain ⟨gap, hgap, hskipped⟩ := exists_gap s
  refine ⟨gap, hgap, fun stack place => ?_⟩
  rw [run, run, ← tokensFrom_gap hskipped, ← hgap]

/-- Over a run of expressions the stack keeps its open lists and gets the expressions. -/
theorem run_of_reads {s rest : List Char} {items : List SExpr} (h : Reads s items rest) :
    ∃ taken, s = taken ++ rest ∧
      ∀ (stack : Stack) (place : Position),
        stack.run place s = (stack.append items).run (place.past taken) rest := by
  induction h with
  | done s => exact ⟨[], rfl, fun stack place => by simp [append, Position.past]⟩
  | @word s chars after rest items hskip hchars hafter _ ih =>
    obtain ⟨gap, hgap, hrun⟩ := run_gap s
    obtain ⟨taken, htaken, hitems⟩ := ih
    refine ⟨gap ++ chars ++ taken, ?_, fun stack place => ?_⟩
    · rw [hgap, hskip, htaken]
      simp only [List.append_assoc]
    · rw [hrun, hskip, run_word _ _ hchars hafter, hitems, append_append]
      simp only [Position.past_append, List.singleton_append]
  | @list s inside close after rest inner items hopening _ hclosing _ ihInner ihItems =>
    obtain ⟨gap, hgap, hrun⟩ := run_gap s
    obtain ⟨within, hwithin, hinner⟩ := ihInner
    obtain ⟨gap', hgap', hrun'⟩ := run_gap close
    obtain ⟨taken, htaken, hitems⟩ := ihItems
    refine ⟨gap ++ '(' :: within ++ gap' ++ ')' :: taken, ?_, fun stack place => ?_⟩
    · rw [hgap, hopening, hwithin, hgap', hclosing, htaken]
      simp only [List.append_assoc, List.cons_append]
    · rw [hrun, hopening, run_opening, hinner, hrun', hclosing, run_closing rfl, hitems]
      simp only [append, openList, Position.past_append, Position.past_cons, List.append_assoc,
        List.cons_append, List.nil_append]

/-- A list that is never closed stays at the bottom of the stack. -/
theorem run_of_unclosed {s : List Char} (h : Unclosed s) :
    ∃ gap, s = gap ++ skipGap s ∧
      ∀ (stack : Stack) (place : Position), ∃ left, stack.run place s = .ok left ∧
        left.opened.getLast? = (stack.openList (place.past gap)).opened.getLast? := by
  induction h with
  | @ended s inside rest inner hopening hinner hend =>
    obtain ⟨gap, hgap, hrun⟩ := run_gap s
    obtain ⟨within, -, hinner⟩ := run_of_reads hinner
    obtain ⟨gap', -, hrun'⟩ := run_gap rest
    refine ⟨gap, hgap, fun stack place => ?_⟩
    rw [hrun, hopening, run_opening, hinner, hrun', hend, run_nil]
    exact ⟨_, rfl, rfl⟩
  | @nested s inside rest inner hopening hinner _ ih =>
    -- The list that is open inside lies on top of this one.
    obtain ⟨gap, hgap, hrun⟩ := run_gap s
    obtain ⟨within, -, hinner⟩ := run_of_reads hinner
    obtain ⟨gap', -, hnested⟩ := ih
    refine ⟨gap, hgap, fun stack place => ?_⟩
    rw [hrun, hopening, run_opening, hinner]
    obtain ⟨left, hleft, hlast⟩ :=
      hnested ((stack.openList (place.past gap)).append inner)
        (((place.past gap).next '(').past within)
    exact ⟨left, hleft, hlast⟩

end Stack

/-! ### The two readers -/

/-- What stands before the text that follows a gap. -/
theorem before_skipGap {s taken rest gap : List Char} (htaken : s = taken ++ rest)
    (hgap : rest = gap ++ skipGap rest) : Text.before s (skipGap rest) = taken ++ gap := by
  have hs : s = taken ++ gap ++ skipGap rest := by rw [List.append_assoc, ← hgap, htaken]
  have hlength : s.length - (skipGap rest).length = (taken ++ gap).length := by
    have htotal := congrArg List.length hs
    rw [List.length_append] at htotal
    omega
  rw [Text.before, hlength, hs, List.take_left]

theorem Unclosed.skipGap_eq {s : List Char} (h : Unclosed s) :
    ∃ inside, skipGap s = '(' :: inside := by
  cases h with
  | ended hopening => exact ⟨_, hopening⟩
  | nested hopening => exact ⟨_, hopening⟩

/-- The reader and the pass over the tokens agree on every text in lower case. -/
theorem readLower_eq_onePass (s : List Char) : readLower s = onePass (tokens s) := by
  obtain ⟨hreads, hstops⟩ := reads_readRun s
  obtain ⟨taken, htaken, hrun⟩ := Stack.run_of_reads hreads
  have hpass : onePass (tokens s) = (Stack.empty.append (readRun s).1).run
      (Position.past ⟨1, 1⟩ taken) (readRun s).2.1 >>= Stack.finish := by
    rw [← hrun Stack.empty ⟨1, 1⟩]
    rfl
  -- Where the text goes on after a gap, the pass has counted up to the place that the reader tells.
  have hplace : ∀ gap, (readRun s).2.1 = gap ++ skipGap (readRun s).2.1 →
      (Position.past ⟨1, 1⟩ taken).past gap =
        Position.after (Text.before s (skipGap (readRun s).2.1)) := by
    intro gap hrest
    rw [before_skipGap htaken hrest, ← Position.past_append, Position.past_start]
  rw [hpass, readLower]
  -- Why the run of expressions stops is what the pass ends with.
  cases hstops with
  | ended hend =>
    obtain ⟨gap, -, hgap⟩ := Stack.run_gap (readRun s).2.1
    rw [hgap, hend, Stack.run_nil]
    rfl
  | closing hclosing =>
    obtain ⟨gap, hrest, hgap⟩ := Stack.run_gap (readRun s).2.1
    rw [hgap, hplace gap hrest, hclosing, Stack.run_closing_of_none_open rfl]
    rfl
  | unclosed hopen =>
    obtain ⟨inside, hopening⟩ := hopen.skipGap_eq
    obtain ⟨gap, hrest, hgap⟩ := Stack.run_of_unclosed hopen
    obtain ⟨left, hleft, hlast⟩ :=
      hgap (Stack.empty.append (readRun s).1) (Position.past ⟨1, 1⟩ taken)
    rw [hplace gap hrest, hopening] at hlast
    have hfinish : left.finish =
        .error (.missingClose (Position.after (Text.before s ('(' :: inside)))) := by
      rw [Stack.finish, hlast]
      rfl
    rw [hleft, hopening]
    exact hfinish.symm

/-- Reading a text is one pass over the tokens of its lower case. -/
theorem read_eq_onePass (text : String) :
    read text = onePass (tokens (Text.lowercaseChars text.toList)) :=
  readLower_eq_onePass (Text.lowercaseChars text.toList)

/-- The parenthesis in the comment does not count, and the last one closes nothing. -/
example : onePass (tokens "(a ; )\n (b))\n  c )".toList) = .error (.missingOpen ⟨3, 5⟩) := by cbv

end StripsReach.SExpr
