import StripsReach.Proofs.SExpr.Tokens
import StripsReach.Proofs.Text.OwnCase

/-!
# Written expressions are read back

The written form of an expression and the reader undo each other. Where every word of an
expression can be read back, so can the expression, however it is nested: a written word ends at
a space or a parenthesis, and the space between two items is a gap. What the reader accepts is
made of such words, so its written form stands for the same expression.
-/

namespace StripsReach.SExpr

/-- Names that are read back as they are: no delimiter ends them early, and lower casing leaves
them alone. -/
def Readable (name : Name) : Prop := IsWord name.toList ∧ ∀ c ∈ name.toList, Text.OwnCase c

instance (name : Name) : Decidable (Readable name) :=
  decidable_of_iff (IsWord name.toList ∧ name.toList.all (Text.OwnCase ·) = true)
    (by simp [Readable])

mutual

/-- The words of an expression, in the order in which they are written. -/
def words : SExpr → List Name
  | .word name => [name]
  | .list items => wordsOfAll items

def wordsOfAll : List SExpr → List Name
  | [] => []
  | item :: items => words item ++ wordsOfAll items

end

/-! ### Reading a written form -/

theorem IsWord.skipGap_append {chars : List Char} (h : IsWord chars) (after : List Char) :
    skipGap (chars ++ after) = chars ++ after := by
  obtain ⟨hne, hplain⟩ := h
  cases chars with
  | nil => exact absurd rfl hne
  | cons c chars =>
    have hc := hplain c List.mem_cons_self
    simp only [isDelimiter, Bool.or_eq_false_iff, decide_eq_false_iff_not] at hc
    simp [skipGap, skipFrom, hc.1.2, hc.2]

/-- What counts of the text before an expression is where the gap ends. -/
theorem Reads.of_skipGap_eq {s s' rest : List Char} {item : SExpr} {items : List SExpr}
    (h : Reads s (item :: items) rest) (hskip : skipGap s' = skipGap s) :
    Reads s' (item :: items) rest := by
  cases h with
  | word hgap hchars hafter hitems => exact .word (hskip.trans hgap) hchars hafter hitems
  | list hopening hinner hclosing hitems =>
    exact .list (hskip.trans hopening) hinner hclosing hitems

mutual

/-- The written form of an expression is read as this expression in front of what follows. -/
theorem reads_renderOnto (e : SExpr) (hwords : ∀ name ∈ e.words, IsWord name.toList)
    {after rest : List Char} {items : List SExpr} (hafter : AtDelimiter after)
    (h : Reads after items rest) : Reads (e.renderOnto after) (e :: items) rest := by
  cases e with
  | word name =>
    have hname : IsWord name.toList := hwords name List.mem_cons_self
    have hword := Reads.word (hname.skipGap_append after) hname hafter h
    rwa [String.ofList_toList] at hword
  | list inner =>
    have hinner : Reads (renderItemsOnto inner (')' :: after)) (inner ++ []) (')' :: after) :=
      reads_renderItemsOnto inner hwords (by rintro c ⟨⟩; rfl) (.done _)
    rw [List.append_nil] at hinner
    exact .list rfl hinner rfl h

theorem reads_renderItemsOnto (written : List SExpr)
    (hwords : ∀ name ∈ wordsOfAll written, IsWord name.toList) {after rest : List Char}
    {items : List SExpr} (hafter : AtDelimiter after) (h : Reads after items rest) :
    Reads (renderItemsOnto written after) (written ++ items) rest := by
  cases written with
  | nil => exact h
  | cons e others =>
    rw [wordsOfAll, List.forall_mem_append] at hwords
    cases others with
    | nil => exact reads_renderOnto e hwords.1 hafter h
    | cons e' others =>
      have hothers := reads_renderItemsOnto (e' :: others) hwords.2 hafter h
      -- The space between two items is a gap.
      exact reads_renderOnto e hwords.1 (by rintro c ⟨⟩; rfl) (hothers.of_skipGap_eq rfl)

end

mutual

/-- Parentheses and spaces are their own lower case, so a written form is in lower case where
its words are. -/
theorem ownCase_of_mem_renderOnto (e : SExpr)
    (hwords : ∀ name ∈ e.words, ∀ c ∈ name.toList, Text.OwnCase c) {after : List Char}
    (hafter : ∀ c ∈ after, Text.OwnCase c) : ∀ c ∈ e.renderOnto after, Text.OwnCase c := by
  cases e with
  | word name =>
    rw [renderOnto, List.forall_mem_append]
    exact ⟨hwords name List.mem_cons_self, hafter⟩
  | list inner =>
    rw [renderOnto, List.forall_mem_cons]
    refine ⟨by decide, ownCase_of_mem_renderItemsOnto inner hwords ?_⟩
    exact List.forall_mem_cons.2 ⟨by decide, hafter⟩

theorem ownCase_of_mem_renderItemsOnto (written : List SExpr)
    (hwords : ∀ name ∈ wordsOfAll written, ∀ c ∈ name.toList, Text.OwnCase c)
    {after : List Char} (hafter : ∀ c ∈ after, Text.OwnCase c) :
    ∀ c ∈ renderItemsOnto written after, Text.OwnCase c := by
  cases written with
  | nil => exact hafter
  | cons e others =>
    rw [wordsOfAll, List.forall_mem_append] at hwords
    cases others with
    | nil => exact ownCase_of_mem_renderOnto e hwords.1 hafter
    | cons e' others =>
      have hothers := ownCase_of_mem_renderItemsOnto (e' :: others) hwords.2 hafter
      exact ownCase_of_mem_renderOnto e hwords.1 (List.forall_mem_cons.2 ⟨by decide, hothers⟩)

end

/-- A text that is one expression from end to end is read as this expression. -/
theorem readLower_of_reads {s : List Char} {e : SExpr} (h : Reads s [e] []) :
    readLower s = .ok e := by
  obtain ⟨taken, -, hrun⟩ := Stack.run_of_reads h
  have hstack : Stack.empty.run ⟨1, 1⟩ s = .ok (Stack.empty.append [e]) := by
    rw [hrun, Stack.run_nil]
  rw [readLower_eq_onePass, onePass, tokens, ← Stack.run, hstack]
  rfl

theorem read_text_of_readable {e : SExpr} (h : ∀ name ∈ e.words, Readable name) :
    read e.text = .ok e := by
  have hreads : Reads (e.renderOnto []) [e] [] :=
    reads_renderOnto e (fun name hname => (h name hname).1) (by rintro c ⟨⟩) (.done [])
  have hlower : ∀ c ∈ e.renderOnto [], Text.OwnCase c :=
    ownCase_of_mem_renderOnto e (fun name hname => (h name hname).2) (by simp)
  rw [read, text, String.toList_ofList, Text.lowercaseChars_eq_self_iff.2 hlower]
  exact readLower_of_reads hreads

/-! ### The words of what is read -/

theorem Reads.suffix {s rest : List Char} {items : List SExpr} (h : Reads s items rest) :
    rest <:+ s := by
  obtain ⟨taken, htaken, -⟩ := Stack.run_of_reads h
  exact ⟨taken, htaken.symm⟩

/-- The words that are read are cut out of the text. -/
theorem words_of_reads {P : Char → Prop} {s rest : List Char} {items : List SExpr}
    (h : Reads s items rest) (hs : ∀ c ∈ s, P c) :
    ∀ name ∈ wordsOfAll items, IsWord name.toList ∧ ∀ c ∈ name.toList, P c := by
  induction h with
  | done s => simp [wordsOfAll]
  | @word s chars after rest items hskip hchars _ _ ih =>
    have hgap : ∀ c ∈ chars ++ after, P c := fun c hc => hs c ((skipGap_suffix s).mem (hskip ▸ hc))
    rw [List.forall_mem_append] at hgap
    rw [wordsOfAll, List.forall_mem_append]
    refine ⟨?_, ih hgap.2⟩
    simpa [words] using ⟨hchars, hgap.1⟩
  | @list s inside close after rest inner items hopening hinner hclosing _ ihInner ihItems =>
    have hinside : ∀ c ∈ inside, P c := fun c hc =>
      hs c ((skipGap_suffix s).mem (hopening ▸ List.mem_cons_of_mem _ hc))
    have hafter : ∀ c ∈ after, P c := fun c hc =>
      hinside c (hinner.suffix.mem ((skipGap_suffix close).mem
        (hclosing ▸ List.mem_cons_of_mem _ hc)))
    rw [wordsOfAll, List.forall_mem_append]
    exact ⟨ihInner hinside, ihItems hafter⟩

/-- A text that is accepted holds the expression and a gap. -/
theorem reads_of_readLower {s : List Char} {e : SExpr} (h : readLower s = .ok e) :
    ∃ rest, Reads s [e] rest ∧ skipGap rest = [] := by
  have hreads := (reads_readRun s).1
  simp only [readLower] at h
  split at h
  · next hrest =>
    split at h
    · next item hitem =>
      rw [hitem, Except.ok.inj h] at hreads
      exact ⟨_, hreads, hrest⟩
    · cases h
  · cases h

/-- Every word of an expression that is read can be read back. -/
theorem readable_of_read {text : String} {e : SExpr} (h : read text = .ok e) :
    ∀ name ∈ e.words, Readable name := by
  obtain ⟨rest, hreads, -⟩ := reads_of_readLower h
  have hwords := words_of_reads hreads fun c hc => Text.ownCase_of_mem_lowercaseChars hc
  simpa [wordsOfAll, Readable] using hwords

/-- Reading undoes writing where every word can be read back, and that is so in every expression
that is read from a text. -/
theorem read_inverts_text :
    (∀ e : SExpr, (∀ name ∈ e.words, Readable name) → read e.text = .ok e) ∧
      ∀ (text : String) (e : SExpr), read text = .ok e →
        (∀ name ∈ e.words, Readable name) ∧ read e.text = .ok e :=
  ⟨fun _ h => read_text_of_readable h,
    fun _ _ h => ⟨readable_of_read h, read_text_of_readable (readable_of_read h)⟩⟩

theorem read_inverts_text_nested :
    read (SExpr.list [.word "straße", .list [], .list [.word "?x", .word "ς"]]).text =
        .ok (.list [.word "straße", .list [], .list [.word "?x", .word "ς"]]) ∧
      read "( STRASSE() ; (\n(?X ΟΣ) )" =
          .ok (.list [.word "strasse", .list [], .list [.word "?x", .word "ος"]]) ∧
      read "(strasse () (?x ος))" =
        .ok (.list [.word "strasse", .list [], .list [.word "?x", .word "ος"]]) := by
  have hread : read "( STRASSE() ; (\n(?X ΟΣ) )" =
      .ok (.list [.word "strasse", .list [], .list [.word "?x", .word "ος"]]) := by
    decide +kernel
  exact ⟨read_inverts_text.1 _ (by decide +kernel), hread,
    (read_inverts_text.2 "( STRASSE() ; (\n(?X ΟΣ) )" _ hread).2⟩

end StripsReach.SExpr
