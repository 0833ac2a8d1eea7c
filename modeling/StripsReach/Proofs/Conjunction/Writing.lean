import StripsReach.Conjunction
import StripsReach.Proofs.SExpr.Writing

/-!
# Written literals

An atom is written as the list of its words and a negated atom as a list around it. Both are read
back as they were, except that a positive atom may not have the word for negation as its predicate:
its list would be a negation. So a conjunction of literals gives back its atoms, asserted and
negated, in the order of writing.
-/

namespace StripsReach

/-- The names that an atom is written with. -/
def Atom.names (a : Atom) : List Name := a.predicate :: a.arguments

/-- An atom as an expression. -/
def Atom.toSExpr (a : Atom) : SExpr := .list (.word a.predicate :: a.arguments.map .word)

/-- An atom, or its negation, as an expression. -/
def Fact.toSExpr (f : Fact) : SExpr :=
  match f.polarity with
  | .positive => f.atom.toSExpr
  | .negative => .list [.word "not", f.atom.toSExpr]

/-- A fact whose expression is no negation unless the fact is negative. -/
def Fact.Unambiguous (f : Fact) : Prop := f.polarity = .positive → f.atom.predicate ≠ "not"

instance (f : Fact) : Decidable f.Unambiguous :=
  inferInstanceAs (Decidable (f.polarity = .positive → f.atom.predicate ≠ "not"))

/-- The conjunction of facts as an expression. -/
def Conjunction.toSExpr (facts : List Fact) : SExpr :=
  .list (.word "and" :: facts.map Fact.toSExpr)

variable {context : String}

/-! ### Reading back -/

theorem mapM_word?_words (names : List Name) :
    (names.map SExpr.word).mapM SExpr.word? = some names := by
  rw [List.mapM_map]
  exact (List.mapM_pure (f := id)).trans (by simp)

theorem Atom.ofSExpr_toSExpr (a : Atom) : Atom.ofSExpr context a.toSExpr = .ok a := by
  rw [Atom.toSExpr, Atom.ofSExpr, mapM_word?_words]
  rfl

theorem Fact.ofSExpr_toSExpr {f : Fact} (h : f.Unambiguous) :
    Fact.ofSExpr context f.toSExpr = .ok f := by
  obtain ⟨polarity, a⟩ := f
  cases polarity with
  | positive =>
    have hnot : a.predicate ≠ "not" := h rfl
    have hword : ¬ (SExpr.word a.predicate).isWord "not" = true := by
      simpa [SExpr.isWord] using hnot
    show (if (SExpr.word a.predicate).isWord "not" then _
      else Fact.holding <$> Atom.ofSExpr context a.toSExpr) = _
    rw [if_neg hword, Atom.ofSExpr_toSExpr]
    rfl
  | negative =>
    show Fact.deleted <$> Atom.ofSExpr context a.toSExpr = _
    rw [Atom.ofSExpr_toSExpr]
    rfl

theorem mapM_ofSExpr_toSExpr {facts : List Fact} (h : ∀ f ∈ facts, f.Unambiguous) :
    (facts.map Fact.toSExpr).mapM (Fact.ofSExpr context) = .ok facts := by
  induction facts with
  | nil => rfl
  | cons f facts ih =>
    obtain ⟨hf, hfacts⟩ := List.forall_mem_cons.mp h
    rw [List.map_cons, List.mapM_cons, Fact.ofSExpr_toSExpr hf, ih hfacts]
    rfl

theorem Conjunction.ofSExpr_toSExpr {facts : List Fact} (h : ∀ f ∈ facts, f.Unambiguous) :
    Conjunction.ofSExpr context (Conjunction.toSExpr facts) = .ok (Conjunction.ofFacts facts) := by
  have hliterals : Conjunction.literals (.word "and" :: facts.map Fact.toSExpr) =
      facts.map Fact.toSExpr := rfl
  rw [Conjunction.toSExpr, Conjunction.ofSExpr, hliterals, mapM_ofSExpr_toSExpr h]
  rfl

/-! ### Texts -/

theorem renderItemsOnto_words (names : List Name) (rest : List Char) :
    SExpr.renderItemsOnto (names.map .word) rest = (" ".intercalate names).toList ++ rest := by
  rw [String.toList_intercalate]
  induction names with
  | nil => simp [SExpr.renderItemsOnto]
  | cons name names ih =>
    cases names with
    | nil => simp [SExpr.renderItemsOnto, SExpr.renderOnto]
    | cons name' names =>
      simp only [List.map_cons, List.intercalate_cons_cons] at ih ⊢
      rw [SExpr.renderItemsOnto, SExpr.renderOnto, ih]
      simp

/-- The text of an atom is the written form of its expression. -/
theorem Atom.renderOnto_toSExpr (a : Atom) (rest : List Char) :
    a.toSExpr.renderOnto rest = a.text.toList ++ rest := by
  have hitems := renderItemsOnto_words (a.predicate :: a.arguments) (')' :: rest)
  rw [List.map_cons] at hitems
  rw [Atom.toSExpr, SExpr.renderOnto, hitems, Atom.text, Atom.listing]
  simp

theorem Fact.renderOnto_toSExpr (f : Fact) (rest : List Char) :
    f.toSExpr.renderOnto rest = f.text.toList ++ rest := by
  obtain ⟨polarity, a⟩ := f
  cases polarity with
  | positive => exact a.renderOnto_toSExpr rest
  | negative =>
    rw [Fact.toSExpr, Fact.text]
    simp [SExpr.renderOnto, SExpr.renderItemsOnto, Atom.renderOnto_toSExpr]

/-! ### Names -/

theorem wordsOfAll_words (names : List Name) : SExpr.wordsOfAll (names.map .word) = names := by
  induction names with
  | nil => rfl
  | cons name names ih =>
    rw [List.map_cons, SExpr.wordsOfAll, SExpr.words, ih]
    rfl

theorem Atom.words_toSExpr (a : Atom) : a.toSExpr.words = a.names := by
  rw [Atom.toSExpr, SExpr.words, ← List.map_cons, wordsOfAll_words, Atom.names]

/-- The expression of a fact can be read back where its names can: so can the word for negation. -/
theorem Fact.readable_toSExpr {f : Fact} (h : ∀ name ∈ f.atom.names, SExpr.Readable name) :
    ∀ name ∈ f.toSExpr.words, SExpr.Readable name := by
  rw [Fact.toSExpr]
  split
  · rwa [Atom.words_toSExpr]
  · rw [SExpr.words, SExpr.wordsOfAll, SExpr.wordsOfAll, SExpr.wordsOfAll, Atom.words_toSExpr,
      List.append_nil]
    exact List.forall_mem_cons.mpr ⟨by decide +kernel, h⟩

end StripsReach
