import StripsReach.Problem
import StripsReach.Proofs.Domain.Sections

/-!
# Definitions by their sections

A problem is read from its sections as a domain is: each works on the part that its keyword stands
for, or only checks which domain the problem refers to. The catalog is made of the parts at the
end. So a definition, be it of a domain or of a problem, is worth its sections of each known kind:
neither how the kinds are interleaved nor any section of another kind makes a difference.
-/

namespace StripsReach

namespace Problem

def keywords : List Name := ["problem", ":domain", ":objects", ":init", ":goal"]

/-- The kind of a section that counts for the problem. Requirements do not: the domain declares
them. -/
def kind? (e : SExpr) : Option Section :=
  (e.head?.bind Section.ofKeyword?).filter (· ≠ .requirements)

/-- Two problem texts have the same part of a kind. The domain is only checked, so nothing of a
problem text is of that kind. -/
def SamePart : Section → ProblemText → ProblemText → Prop
  | .name, p, p' => p.name = p'.name
  | .domain, _, _ => True
  | .requirements, _, _ => True
  | .objects, p, p' => p.objects = p'.objects
  | .init, p, p' => p.init = p'.init
  | .goal, p, p' => p.goal = p'.goal

variable {domain keyword : Name} {p p' next : ProblemText} {e : SExpr} {kind other : Section}
  {body : List SExpr}

theorem samePart_equivalence (kind : Section) : Equivalence (SamePart kind) := by
  cases kind with
  | domain | requirements => exact ⟨fun _ => trivial, fun _ => trivial, fun _ _ => trivial⟩
  | name | objects | init | goal => exact ⟨fun _ => rfl, Eq.symm, Eq.trans⟩

theorem eq_of_samePart (h : ∀ kind, SamePart kind p p') : p = p' := by
  obtain ⟨name, objects, init, goal⟩ := p
  obtain ⟨name', objects', init', goal'⟩ := p'
  obtain rfl : name = name' := h .name
  obtain rfl : objects = objects' := h .objects
  obtain rfl : init = init' := h .init
  obtain rfl : goal = goal' := h .goal
  rfl

/-! ### Keywords -/

theorem Section.ofKeyword?_eq_some_iff :
    Section.ofKeyword? keyword = some kind ↔ keyword = kind.keyword :=
  find?_keyword_eq_some_iff fun kind => by cases kind <;> rfl

theorem kind?_eq_some_iff :
    kind? e = some kind ↔ e.head? = some kind.keyword ∧ kind ≠ .requirements := by
  simp [kind?, Option.filter_eq_some_iff, Option.bind_eq_some_iff, Section.ofKeyword?_eq_some_iff]

theorem keyword_mem_keywords (hkind : kind ≠ .requirements) : kind.keyword ∈ keywords := by
  cases kind with
  | requirements => exact absurd rfl hkind
  | name | domain | objects | init | goal => decide

theorem filter_kind? (hkind : kind ≠ .requirements) (sections : List SExpr) :
    sections.filter (kind? · = some kind) = SExpr.withKeyword kind.keyword sections :=
  List.filter_congr fun _ _ => decide_eq_decide.mpr (by simp [kind?_eq_some_iff, hkind])

theorem filter_kind?_requirements (sections : List SExpr) :
    sections.filter (kind? · = some .requirements) = [] :=
  List.filter_eq_nil_iff.mpr fun _ _ => by simp [kind?_eq_some_iff]

/-! ### What a section does -/

/-- A section leaves the parts of the other kinds as they are. -/
theorem samePart_of_addSection (hadd : addSection domain p kind body = .ok next)
    (hother : kind ≠ other) : SamePart other p next := by
  cases kind with
  | name =>
    obtain ⟨name, -, hadd⟩ := exists_of_bind_eq_ok hadd
    cases hadd
    cases other <;> simp_all [SamePart]
  | domain =>
    obtain ⟨found, -, hadd⟩ := exists_of_bind_eq_ok hadd
    split at hadd
    · cases hadd
      exact (samePart_equivalence other).refl p
    · cases hadd
  | requirements =>
    cases hadd
    exact (samePart_equivalence other).refl p
  | objects =>
    obtain ⟨objects, -, hadd⟩ := exists_of_bind_eq_ok hadd
    cases hadd
    cases other <;> simp_all [SamePart]
  | init =>
    obtain ⟨init, -, hadd⟩ := exists_of_bind_eq_ok hadd
    cases hadd
    cases other <;> simp_all [SamePart]
  | goal =>
    cases body with
    | nil => cases hadd
    | cons e body =>
      obtain ⟨goal, -, hadd⟩ := exists_of_bind_eq_ok hadd
      cases hadd
      cases other <;> simp_all [SamePart]

/-- What a section makes of the part of its kind, and whether it is refused, depends on nothing
but that part. -/
theorem addSection_congr (hadd : addSection domain p kind body = .ok next) :
    ∃ next', addSection domain p' kind body = .ok next' ∧ SamePart kind next next' := by
  cases kind with
  | name =>
    obtain ⟨name, hread, hadd⟩ := exists_of_bind_eq_ok hadd
    cases hadd
    exact ⟨_, bind_eq_ok_iff.mpr ⟨name, hread, rfl⟩, rfl⟩
  | domain =>
    obtain ⟨found, hread, hadd⟩ := exists_of_bind_eq_ok hadd
    split at hadd
    · next hsame => exact ⟨p', bind_eq_ok_iff.mpr ⟨found, hread, if_pos hsame⟩, trivial⟩
    · cases hadd
  | requirements => exact ⟨p', rfl, trivial⟩
  | objects =>
    obtain ⟨objects, hread, hadd⟩ := exists_of_bind_eq_ok hadd
    cases hadd
    exact ⟨_, bind_eq_ok_iff.mpr ⟨objects, hread, rfl⟩, rfl⟩
  | init =>
    obtain ⟨init, hread, hadd⟩ := exists_of_bind_eq_ok hadd
    cases hadd
    exact ⟨_, bind_eq_ok_iff.mpr ⟨init, hread, rfl⟩, rfl⟩
  | goal =>
    cases body with
    | nil => cases hadd
    | cons e body =>
      obtain ⟨goal, hread, hadd⟩ := exists_of_bind_eq_ok hadd
      cases hadd
      exact ⟨_, bind_eq_ok_iff.mpr ⟨goal, hread, rfl⟩, rfl⟩

/-! ### What the sections come to -/

theorem samePart_of_add (hadd : add domain p e = .ok next) (hother : kind? e ≠ some other) :
    SamePart other p next := by
  unfold add at hadd
  split at hadd
  · next keyword body =>
    split at hadd
    · next kind hkind =>
      by_cases hrequirements : kind = .requirements
      · subst hrequirements
        cases hadd
        exact (samePart_equivalence other).refl p
      · refine samePart_of_addSection hadd fun heq => hother ?_
        subst heq
        exact kind?_eq_some_iff.mpr
          ⟨congrArg some (Section.ofKeyword?_eq_some_iff.mp hkind), hrequirements⟩
    · cases hadd
      exact (samePart_equivalence other).refl p
  · cases hadd

theorem add_congr (hadd : add domain p e = .ok next) (hkind : kind? e = some kind) :
    ∃ next', add domain p' e = .ok next' ∧ SamePart kind next next' := by
  unfold add at hadd ⊢
  split at hadd
  · next keyword body =>
    have hkeyword : Section.ofKeyword? keyword = some kind :=
      Section.ofKeyword?_eq_some_iff.mpr (Option.some.inj (kind?_eq_some_iff.mp hkind).1)
    simp only [hkeyword] at hadd ⊢
    exact addSection_congr hadd
  · cases hadd

theorem separated_add (domain : Name) : Separated (add domain) kind? SamePart where
  equivalence := samePart_equivalence
  ext _ _ := eq_of_samePart
  frame := samePart_of_add
  congr hadd hkind _ := add_congr hadd hkind

/-- A section with another keyword is passed over, and so are requirements. -/
theorem add_of_kind?_eq_none (hkeyword : e.head?.isSome) (hkind : kind? e = none)
    (p : ProblemText) : add domain p e = .ok p := by
  obtain ⟨keyword, hhead⟩ := Option.isSome_iff_exists.mp hkeyword
  obtain ⟨body, rfl⟩ := SExpr.head?_eq_some_iff.mp hhead
  cases hknown : Section.ofKeyword? keyword with
  | none => simp only [add, hknown]
  | some kind =>
    have hrequirements : kind = .requirements := by
      by_contra hcounts
      have hfound : kind? (.list (.word keyword :: body)) = some kind := kind?_eq_some_iff.mpr
        ⟨congrArg some (Section.ofKeyword?_eq_some_iff.mp hknown), hcounts⟩
      rw [hkind] at hfound
      cases hfound
    subst hrequirements
    simp only [add, hknown]
    rfl

theorem foldlM_add_eq_ok_iff {sections others : List SExpr}
    (hsections : ∀ e ∈ sections, e.head?.isSome) (hothers : ∀ e ∈ others, e.head?.isSome)
    (hsame : SExpr.SameSections keywords sections others) :
    sections.foldlM (add domain) p = .ok next ↔ others.foldlM (add domain) p = .ok next := by
  refine (separated_add domain).foldlM_eq_ok_iff_of_filter_eq ?_ ?_ fun kind => ?_
  · exact fun e he hkind p => add_of_kind?_eq_none (hsections e he) hkind p
  · exact fun e he hkind p => add_of_kind?_eq_none (hothers e he) hkind p
  · by_cases hkind : kind = .requirements
    · subst hkind
      rw [filter_kind?_requirements, filter_kind?_requirements]
    · rw [filter_kind? hkind, filter_kind? hkind]
      exact hsame kind.keyword (keyword_mem_keywords hkind)

end Problem

/-- Definitions with the same sections of each known keyword are accepted together, and define the
same domain or, for any domain and flattening rules, the same problem. -/
theorem ofSExpr_definition_eq_ok_iff {sections others : List SExpr}
    (hsections : ∀ e ∈ sections, e.head?.isSome) (hothers : ∀ e ∈ others, e.head?.isSome) :
    (SExpr.SameSections Domain.keywords sections others → ∀ d : Domain,
        Domain.ofSExpr (SExpr.definition sections) = .ok d ↔
          Domain.ofSExpr (SExpr.definition others) = .ok d) ∧
      (SExpr.SameSections Problem.keywords sections others →
        ∀ (domain : Domain) (flattened : List FlattenedSubtype) (p : Problem),
          Problem.ofSExpr domain flattened (SExpr.definition sections) = .ok p ↔
            Problem.ofSExpr domain flattened (SExpr.definition others) = .ok p) := by
  refine ⟨fun hsame d => ?_, fun hsame domain flattened p => ?_⟩
  · exact Domain.foldlM_add_eq_ok_iff hsections hothers hsame
  · show (sections.foldlM (Problem.add domain.name) {} >>= _) = _ ↔
      (others.foldlM (Problem.add domain.name) {} >>= _) = _
    simp only [bind_eq_ok_iff, Problem.foldlM_add_eq_ok_iff hsections hothers hsame]

/-- A domain whose predicates stand in two sections, with the action between them. -/
def blocks : List SExpr :=
  [.list [.word "domain", .word "blocks"],
    .list [.word ":predicates", .list [.word "clear", .word "?x"]],
    .list [.word ":action", .word "paint", .word ":effect", .list [.word "red"]],
    .list [.word ":predicates", .list [.word "red"]]]

/-- The same sections of each kind, and one that is not known. -/
def blocksByKind : List SExpr :=
  [.list [.word ":constants", .word "table"],
    .list [.word ":action", .word "paint", .word ":effect", .list [.word "red"]],
    .list [.word ":predicates", .list [.word "clear", .word "?x"]],
    .list [.word ":predicates", .list [.word "red"]],
    .list [.word "domain", .word "blocks"]]

def blocksDomain : Domain where
  name := "blocks"
  predicates := [⟨"clear", [⟨"?x", objectType⟩]⟩, ⟨"red", []⟩]
  actions := [{ name := "paint", effect := { positive := [⟨"red", []⟩] } }]

/-- A problem whose objects are declared twice, and the requirements of which do not count. -/
def twoBlocks : List SExpr :=
  [.list [.word ":objects", .word "a"], .list [.word "problem", .word "two"],
    .list [.word ":requirements", .word ":adl"], .list [.word ":init", .list [.word "red"]],
    .list [.word ":objects", .word "a", .word "b"]]

def twoBlocksByKind : List SExpr :=
  [.list [.word "problem", .word "two"], .list [.word ":init", .list [.word "red"]],
    .list [.word ":objects", .word "a"], .list [.word ":objects", .word "a", .word "b"]]

def twoBlocksProblem : Problem where
  name := "two"
  objects := [⟨"a", objectType⟩, ⟨"b", objectType⟩]
  init := [⟨"red", []⟩]
  domain := "blocks"
  catalog := ⟨[(objectType, ["a", "b"])]⟩

theorem ofSExpr_definition_eq_ok_iff_blocks :
    SExpr.SameSections Domain.keywords blocks blocksByKind ∧
      SExpr.SameSections Problem.keywords twoBlocks twoBlocksByKind ∧
      Domain.ofSExpr (SExpr.definition blocksByKind) = .ok blocksDomain ∧
      Problem.ofSExpr blocksDomain [] (SExpr.definition twoBlocksByKind) =
        .ok twoBlocksProblem := by
  have hblocks : SExpr.SameSections Domain.keywords blocks blocksByKind := by decide
  have htwo : SExpr.SameSections Problem.keywords twoBlocks twoBlocksByKind := by decide
  have hdomain : Domain.ofSExpr (SExpr.definition blocks) = .ok blocksDomain := by
    decide +kernel
  have hproblem :
      Problem.ofSExpr blocksDomain [] (SExpr.definition twoBlocks) = .ok twoBlocksProblem := by
    decide +kernel
  refine ⟨hblocks, htwo, ?_, ?_⟩
  · exact ((ofSExpr_definition_eq_ok_iff (by decide) (by decide)).1 hblocks _).mp hdomain
  · exact ((ofSExpr_definition_eq_ok_iff (by decide) (by decide)).2 htwo _ _ _).mp hproblem

end StripsReach
