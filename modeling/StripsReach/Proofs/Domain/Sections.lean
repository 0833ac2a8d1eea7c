import StripsReach.Proofs.Domain.Names
import StripsReach.Proofs.Separation

/-!
# Sections of a domain

Every section of a domain works on the part that its keyword stands for: the name, the
requirements, the types, the predicates or the actions. What it makes of that part depends on the
part as it was and on nothing else, also where it is refused.
-/

namespace StripsReach

namespace SExpr

/-- The sections that have a keyword, in their order. -/
def withKeyword (keyword : Name) (sections : List SExpr) : List SExpr :=
  sections.filter fun e => e.head? = some keyword

/-- Two lists have the same sections of each of the keywords. -/
def SameSections (keywords : List Name) (sections others : List SExpr) : Prop :=
  ∀ keyword ∈ keywords, withKeyword keyword sections = withKeyword keyword others

instance (keywords : List Name) (sections others : List SExpr) :
    Decidable (SameSections keywords sections others) :=
  inferInstanceAs (Decidable (∀ keyword ∈ keywords, _))

def definition (sections : List SExpr) : SExpr := .list (.word "define" :: sections)

theorem head?_eq_some_iff {e : SExpr} {keyword : Name} :
    e.head? = some keyword ↔ ∃ body, e = .list (.word keyword :: body) := by
  constructor
  · intro h
    unfold head? at h
    split at h
    · cases h
      exact ⟨_, rfl⟩
    · cases h
  · rintro ⟨body, rfl⟩
    rfl

end SExpr

/-- Where every kind is found by its own keyword, it is found by no other. -/
theorem find?_keyword_eq_some_iff {κ : Type} {kinds : List κ} {keyword : κ → Name}
    (hown : ∀ kind, kinds.find? (keyword · = keyword kind) = some kind) {kind : κ} {name : Name} :
    kinds.find? (keyword · = name) = some kind ↔ name = keyword kind := by
  constructor
  · intro hfind
    have hfound : keyword kind = name := by simpa using List.find?_some hfind
    exact hfound.symm
  · rintro rfl
    exact hown kind

namespace Domain

def keywords : List Name := ["domain", ":requirements", ":types", ":predicates", ":action"]

/-- The kind of a section, if its keyword is known. -/
def kind? (e : SExpr) : Option Section := e.head?.bind Section.ofKeyword?

/-- Two domains have the same part of a kind. -/
def SamePart : Section → Domain → Domain → Prop
  | .name, d, d' => d.name = d'.name
  | .requirements, d, d' => d.requirements = d'.requirements
  | .types, d, d' => d.types = d'.types
  | .predicates, d, d' => d.predicates = d'.predicates
  | .action, d, d' => d.actions = d'.actions

variable {d d' next : Domain} {e : SExpr} {kind other : Section} {keyword : Name}
  {body items : List SExpr}

theorem samePart_equivalence (kind : Section) : Equivalence (SamePart kind) := by
  cases kind <;> exact ⟨fun _ => rfl, Eq.symm, Eq.trans⟩

theorem eq_of_samePart (h : ∀ kind, SamePart kind d d') : d = d' := by
  obtain ⟨name, requirements, types, predicates, actions⟩ := d
  obtain ⟨name', requirements', types', predicates', actions'⟩ := d'
  obtain rfl : name = name' := h .name
  obtain rfl : requirements = requirements' := h .requirements
  obtain rfl : types = types' := h .types
  obtain rfl : predicates = predicates' := h .predicates
  obtain rfl : actions = actions' := h .action
  rfl

/-! ### Keywords -/

theorem Section.ofKeyword?_eq_some_iff :
    Section.ofKeyword? keyword = some kind ↔ keyword = kind.keyword :=
  find?_keyword_eq_some_iff fun kind => by cases kind <;> rfl

theorem kind?_eq_some_iff : kind? e = some kind ↔ e.head? = some kind.keyword := by
  simp [kind?, Option.bind_eq_some_iff, Section.ofKeyword?_eq_some_iff]

theorem keyword_mem_keywords (kind : Section) : kind.keyword ∈ keywords := by
  cases kind <;> decide

theorem filter_kind? (kind : Section) (sections : List SExpr) :
    sections.filter (kind? · = some kind) = SExpr.withKeyword kind.keyword sections :=
  List.filter_congr fun _ _ => decide_eq_decide.mpr kind?_eq_some_iff

/-! ### What a section does -/

theorem addPredicate_congr (hadd : d.addPredicate e = .ok next)
    (hsame : SamePart .predicates d d') :
    ∃ next', d'.addPredicate e = .ok next' ∧ SamePart .predicates next next' := by
  have hsame : d.predicates = d'.predicates := hsame
  obtain ⟨predicate, hread, hnew, rfl⟩ := addPredicate_eq_ok_iff.mp hadd
  refine ⟨_, addPredicate_eq_ok_iff.mpr ⟨predicate, hread, ?_, rfl⟩, ?_⟩
  · rwa [predicate?, ← hsame]
  · exact congrArg (· ++ [predicate]) hsame

theorem addAction_congr (hadd : d.addAction items = .ok next) (hsame : SamePart .action d d') :
    ∃ next', d'.addAction items = .ok next' ∧ SamePart .action next next' := by
  have hsame : d.actions = d'.actions := hsame
  obtain ⟨action, hread, hnew, rfl⟩ := addAction_eq_ok_iff.mp hadd
  refine ⟨_, addAction_eq_ok_iff.mpr ⟨action, hread, ?_, rfl⟩, ?_⟩
  · rwa [action?, ← hsame]
  · exact congrArg (· ++ [action]) hsame

theorem samePart_of_foldlM_addPredicate (hadd : body.foldlM addPredicate d = .ok next)
    (hother : other ≠ .predicates) : SamePart other d next := by
  refine invariant_of_foldlM (P := SamePart other d) (fun s e next hs hadd => ?_)
    ((samePart_equivalence other).refl d) hadd
  obtain ⟨predicate, -, -, rfl⟩ := addPredicate_eq_ok_iff.mp hadd
  cases other <;> simp_all [SamePart]

/-- A section leaves the parts of the other kinds as they are. -/
theorem samePart_of_addSection (hadd : d.addSection kind body = .ok next)
    (hother : kind ≠ other) : SamePart other d next := by
  cases kind with
  | name =>
    unfold addSection at hadd
    dsimp only at hadd
    split at hadd
    · cases hadd
      cases other <;> simp_all [SamePart]
    · cases hadd
  | requirements =>
    obtain ⟨requirements, -, hadd⟩ := exists_of_bind_eq_ok hadd
    cases hadd
    cases other <;> simp_all [SamePart]
  | types =>
    obtain ⟨types, -, hadd⟩ := exists_of_bind_eq_ok hadd
    cases hadd
    cases other <;> simp_all [SamePart]
  | predicates => exact samePart_of_foldlM_addPredicate hadd hother.symm
  | action =>
    obtain ⟨action, -, -, rfl⟩ := addAction_eq_ok_iff.mp hadd
    cases other <;> simp_all [SamePart]

/-- What a section makes of the part of its kind, and whether it is refused, depends on nothing
but that part. -/
theorem addSection_congr (hadd : d.addSection kind body = .ok next) (hsame : SamePart kind d d') :
    ∃ next', d'.addSection kind body = .ok next' ∧ SamePart kind next next' := by
  cases kind with
  | name =>
    unfold addSection at hadd ⊢
    dsimp only at hadd ⊢
    split at hadd
    · cases hadd
      exact ⟨_, rfl, rfl⟩
    · cases hadd
  | requirements =>
    obtain ⟨requirements, hread, hadd⟩ := exists_of_bind_eq_ok hadd
    cases hadd
    exact ⟨_, bind_eq_ok_iff.mpr ⟨requirements, hread, rfl⟩, rfl⟩
  | types =>
    obtain ⟨types, hread, hadd⟩ := exists_of_bind_eq_ok hadd
    cases hadd
    exact ⟨_, bind_eq_ok_iff.mpr ⟨types, hread, rfl⟩, rfl⟩
  | predicates =>
    exact exists_foldlM_of_related (f := addPredicate)
      (fun _ _ _ _ hsame hadd => addPredicate_congr hadd hsame) hsame hadd
  | action => exact addAction_congr hadd hsame

/-! ### What the sections come to -/

theorem samePart_of_add (hadd : d.add e = .ok next) (hother : kind? e ≠ some other) :
    SamePart other d next := by
  unfold add at hadd
  split at hadd
  · split at hadd
    · next kind hkind =>
      exact samePart_of_addSection hadd fun heq => hother (hkind.trans (congrArg some heq))
    · cases hadd
      exact (samePart_equivalence other).refl d
  · cases hadd

theorem add_congr (hadd : d.add e = .ok next) (hkind : kind? e = some kind)
    (hsame : SamePart kind d d') : ∃ next', d'.add e = .ok next' ∧ SamePart kind next next' := by
  unfold add at hadd ⊢
  split at hadd
  · next keyword body =>
    have hkeyword : Section.ofKeyword? keyword = some kind := hkind
    simp only [hkeyword] at hadd ⊢
    exact addSection_congr hadd hsame
  · cases hadd

theorem separated_add : Separated add kind? SamePart where
  equivalence := samePart_equivalence
  ext _ _ := eq_of_samePart
  frame := samePart_of_add
  congr := add_congr

/-- A section with another keyword is passed over. -/
theorem add_of_kind?_eq_none (hkeyword : e.head?.isSome) (hkind : kind? e = none) (d : Domain) :
    d.add e = .ok d := by
  obtain ⟨keyword, hhead⟩ := Option.isSome_iff_exists.mp hkeyword
  obtain ⟨body, rfl⟩ := SExpr.head?_eq_some_iff.mp hhead
  have hunknown : Section.ofKeyword? keyword = none := hkind
  simp only [add, hunknown]

/-- Domains are equal, and refused together, whose sections of each kind are the same. -/
theorem foldlM_add_eq_ok_iff {sections others : List SExpr}
    (hsections : ∀ e ∈ sections, e.head?.isSome) (hothers : ∀ e ∈ others, e.head?.isSome)
    (hsame : SExpr.SameSections keywords sections others) :
    sections.foldlM add d = .ok next ↔ others.foldlM add d = .ok next := by
  refine separated_add.foldlM_eq_ok_iff_of_filter_eq ?_ ?_ fun kind => ?_
  · exact fun e he hkind d => add_of_kind?_eq_none (hsections e he) hkind d
  · exact fun e he hkind d => add_of_kind?_eq_none (hothers e he) hkind d
  · rw [filter_kind?, filter_kind?]
    exact hsame kind.keyword (keyword_mem_keywords kind)

end Domain

end StripsReach
