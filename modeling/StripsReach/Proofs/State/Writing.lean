import StripsReach.Proofs.Conjunction.Writing
import StripsReach.State

/-!
# The text of a state

A state is written as its facts, one on a line. Put into a list headed by the word for a
conjunction, the lines are read as expressions and these as literals, and what comes back is the
state's facts, asserted and negated ones apart, each in the order of the state. Atoms whose
predicate is the word for a conjunction do no harm, since the list around them has a head of its
own, nor do atoms whose predicate is the word for negation behind a negation.
-/

namespace StripsReach

namespace State

variable {s : State} {facts : List Fact} {after : List Char}

/-- The atoms that the state's facts of one polarity are about, in the order of the state. -/
def atoms (s : State) (polarity : Polarity) : List Atom :=
  (s.toList.filter (·.polarity = polarity)).map Fact.atom

theorem mem_atoms {polarity : Polarity} {a : Atom} : a ∈ s.atoms polarity ↔ ⟨polarity, a⟩ ∈ s := by
  simp only [atoms, List.mem_map, List.mem_filter, mem_toList, decide_eq_true_eq]
  constructor
  · rintro ⟨f, ⟨hf, rfl⟩, rfl⟩
    exact hf
  · exact fun h => ⟨_, ⟨h, rfl⟩, rfl⟩

/-- Of two facts of one polarity the atoms decide which is first. -/
theorem compare_atom_of_compare {f g : Fact} (hpolarity : f.polarity = g.polarity)
    (h : compare f g = .lt) : compare f.atom g.atom = .lt := by
  have h : (compareLex (compareOn fun f : Fact => f.polarity.rank) (compareOn Fact.atom)) f g =
      .lt := h
  simpa [compareLex, compareOn, hpolarity] using h

theorem pairwise_atoms (s : State) (polarity : Polarity) :
    (s.atoms polarity).Pairwise fun a b => compare a b = .lt := by
  rw [atoms, List.pairwise_map]
  have hordered : (s.toList.filter (·.polarity = polarity)).Pairwise fun f g => compare f g = .lt :=
    Std.ExtTreeSet.ordered_toList.filter _
  refine hordered.imp_of_mem fun hf hg hlt => compare_atom_of_compare ?_ hlt
  simp only [List.mem_filter, decide_eq_true_eq] at hf hg
  exact hf.2.trans hg.2.symm

/-! ### Lines -/

/-- The facts, each with the end of its line, in front of a text. -/
def linesOnto (facts : List Fact) (after : List Char) : List Char :=
  facts.foldr (fun f rest => f.toSExpr.renderOnto ('\n' :: rest)) after

theorem toList_text_append (s : State) (after : List Char) :
    s.text.toList ++ after = linesOnto s.toList after := by
  rw [text, String.toList_join, linesOnto]
  induction s.toList with
  | nil => rfl
  | cons f facts ih =>
    rw [List.map_cons, List.flatMap_cons, List.foldr_cons, Fact.renderOnto_toSExpr, ← ih]
    simp

/-- Lines of facts are read as the expressions of the facts, up to a gap. -/
theorem reads_linesOnto
    (h : ∀ f ∈ facts, ∀ name ∈ f.atom.names, SExpr.Readable name) (after : List Char) :
    ∃ rest, SExpr.Reads (linesOnto facts after) (facts.map Fact.toSExpr) rest ∧
      SExpr.skipGap rest = SExpr.skipGap after := by
  induction facts with
  | nil => exact ⟨after, .done after, rfl⟩
  | cons f facts ih =>
    obtain ⟨hf, hfacts⟩ := List.forall_mem_cons.mp h
    have hwords : ∀ name ∈ f.toSExpr.words, SExpr.IsWord name.toList :=
      fun name hname => (Fact.readable_toSExpr hf name hname).1
    have hend : SExpr.AtDelimiter ('\n' :: linesOnto facts after) := by
      rintro c ⟨⟩
      rfl
    obtain ⟨rest, hreads, hrest⟩ := ih hfacts
    cases facts with
    | nil =>
      -- Nothing follows the last line, so its end is left over.
      exact ⟨'\n' :: after, SExpr.reads_renderOnto _ hwords hend (.done _), rfl⟩
    | cons f' facts =>
      exact ⟨rest, SExpr.reads_renderOnto _ hwords hend (hreads.of_skipGap_eq rfl), hrest⟩

theorem ownCase_linesOnto (h : ∀ f ∈ facts, ∀ name ∈ f.atom.names, SExpr.Readable name)
    (hafter : ∀ c ∈ after, Text.OwnCase c) : ∀ c ∈ linesOnto facts after, Text.OwnCase c := by
  induction facts with
  | nil => exact hafter
  | cons f facts ih =>
    obtain ⟨hf, hfacts⟩ := List.forall_mem_cons.mp h
    have hline : ∀ c ∈ '\n' :: linesOnto facts after, Text.OwnCase c :=
      List.forall_mem_cons.mpr ⟨by decide, ih hfacts⟩
    exact SExpr.ownCase_of_mem_renderOnto _
      (fun name hname => (Fact.readable_toSExpr hf name hname).2) hline

theorem read_conjunction_text (hnames : ∀ f ∈ s, ∀ name ∈ f.atom.names, SExpr.Readable name) :
    SExpr.read ("(and " ++ s.text ++ ")") = .ok (Conjunction.toSExpr s.toList) := by
  have hfacts : ∀ f ∈ s.toList, ∀ name ∈ f.atom.names, SExpr.Readable name :=
    fun f hf => hnames f (mem_toList.mp hf)
  have hchars : ("(and " ++ s.text ++ ")").toList =
      '(' :: (SExpr.word "and").renderOnto (' ' :: linesOnto s.toList [')']) := by
    rw [← toList_text_append]
    simp [SExpr.renderOnto]
  have hand : ∀ name ∈ (SExpr.word "and").words, SExpr.Readable name :=
    List.forall_mem_singleton.mpr (by decide)
  have hlower : ∀ c ∈ ("(and " ++ s.text ++ ")").toList, Text.OwnCase c := by
    have hclosing : ∀ c ∈ [')'], Text.OwnCase c := List.forall_mem_singleton.mpr (by decide)
    have hspace : ∀ c ∈ ' ' :: linesOnto s.toList [')'], Text.OwnCase c :=
      List.forall_mem_cons.mpr ⟨by decide, ownCase_linesOnto hfacts hclosing⟩
    rw [hchars, List.forall_mem_cons]
    exact ⟨by decide,
      SExpr.ownCase_of_mem_renderOnto _ (fun name hname => (hand name hname).2) hspace⟩
  obtain ⟨close, hlines, hclose⟩ := reads_linesOnto hfacts [')']
  -- The space before the first line is a gap, with or without lines.
  obtain ⟨close', hspace, hclose'⟩ : ∃ close', SExpr.Reads (' ' :: linesOnto s.toList [')'])
      (s.toList.map Fact.toSExpr) close' ∧ SExpr.skipGap close' = [')'] := by
    cases hlist : s.toList with
    | nil => exact ⟨_, .done _, rfl⟩
    | cons f facts =>
      rw [hlist] at hlines
      exact ⟨close, hlines.of_skipGap_eq rfl, hclose⟩
  have hitems := SExpr.reads_renderOnto (.word "and")
    (fun name hname => (hand name hname).1) (by rintro c ⟨⟩; rfl) hspace
  rw [SExpr.read, Text.lowercaseChars_eq_self_iff.2 hlower, hchars]
  exact SExpr.readLower_of_reads (.list rfl hitems hclose' (.done []))

/-- What is read back from a state's text, as the literals of a conjunction, is the atoms of its
positive and of its negative facts: each fact once, with its polarity, in the state's order. -/
theorem conjunction_read_text
    (hnames : ∀ f ∈ s, ∀ name ∈ f.atom.names, SExpr.Readable name)
    (hnot : ∀ a, Fact.holding a ∈ s → a.predicate ≠ "not") (context : String) :
    (SExpr.read ("(and " ++ s.text ++ ")") >>= Conjunction.ofSExpr context) =
        .ok ⟨s.atoms .positive, s.atoms .negative⟩ ∧
      ∀ polarity, (∀ a, a ∈ s.atoms polarity ↔ ⟨polarity, a⟩ ∈ s) ∧
        (s.atoms polarity).Pairwise fun a b => compare a b = .lt := by
  refine ⟨?_, fun polarity => ⟨fun a => mem_atoms, pairwise_atoms s polarity⟩⟩
  have hunambiguous : ∀ f ∈ s.toList, f.Unambiguous := by
    rintro ⟨polarity, a⟩ hf rfl
    exact hnot a (mem_toList.mp hf)
  rw [read_conjunction_text hnames]
  exact Conjunction.ofSExpr_toSExpr hunambiguous

/-- Facts whose predicates are the words for a conjunction and for a negation. -/
def awkward : State := empty.insertAll
  [.deleted ⟨"not", ["b"]⟩, .holding ⟨"straße", []⟩, .holding ⟨"and", ["b", "ς"]⟩]

theorem conjunction_read_text_awkward :
    awkward.text = "(and b ς)\n(straße)\n(not (not b))\n" ∧
      (SExpr.read ("(and " ++ awkward.text ++ ")") >>= Conjunction.ofSExpr "goal") =
        .ok ⟨[⟨"and", ["b", "ς"]⟩, ⟨"straße", []⟩], [⟨"not", ["b"]⟩]⟩ := by
  have hnames : ∀ f ∈ awkward.toList, ∀ name ∈ f.atom.names, SExpr.Readable name := by
    decide +kernel
  have hnot : ∀ f ∈ awkward.toList, f.Unambiguous := by decide +kernel
  have hpositive : awkward.atoms .positive = [⟨"and", ["b", "ς"]⟩, ⟨"straße", []⟩] := by
    decide +kernel
  have hnegative : awkward.atoms .negative = [⟨"not", ["b"]⟩] := by decide +kernel
  refine ⟨by decide +kernel, ?_⟩
  rw [← hpositive, ← hnegative]
  exact (conjunction_read_text (fun f hf => hnames f (mem_toList.mpr hf))
    (fun a ha => hnot _ (mem_toList.mpr ha) rfl) "goal").1

end State

end StripsReach
