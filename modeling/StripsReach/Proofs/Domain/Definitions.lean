import StripsReach.Proofs.Domain.Sections
import StripsReach.Proofs.Schema.Writing

/-!
# Definitions of a domain

A domain that is read has all predicates and all actions that its sections define, in the order of
the text, and each under a name of its own. Where every section can be read and every definition in
them, a name that is defined twice is the only reason to refuse the domain, and the one reported is
the first that the text defines again. The names defined so far carry the argument: as long as no
name is repeated, they are the names of the domain that has been built.
-/

namespace StripsReach

/-- The items of a list after the first. -/
def SExpr.body : SExpr → List SExpr
  | .list (_ :: body) => body
  | _ => []

/-- At some place the list has `a` again, and up to there no member is repeated. -/
def FirstRepeated {α : Type} (l : List α) (a : α) : Prop :=
  ∃ before after, l = before ++ a :: after ∧ before.Nodup ∧ a ∈ before

namespace FirstRepeated

variable {α : Type} {l : List α} {a : α}

theorem append (h : FirstRepeated l a) (more : List α) : FirstRepeated (l ++ more) a := by
  obtain ⟨before, after, rfl, hnodup, ha⟩ := h
  exact ⟨before, after ++ more, by simp, hnodup, ha⟩

theorem not_nodup (h : FirstRepeated l a) : ¬ l.Nodup := by
  obtain ⟨before, after, rfl, -, ha⟩ := h
  intro hnodup
  exact (List.nodup_append.mp hnodup).2.2 a ha a List.mem_cons_self rfl

end FirstRepeated

namespace Domain

/-- The definitions in a section for predicates. -/
def predicatesIn (e : SExpr) : List SExpr :=
  if e.head? = some ":predicates" then e.body else []

/-- The one definition in a section for an action. -/
def actionsIn (e : SExpr) : List (List SExpr) :=
  if e.head? = some ":action" then [e.body] else []

/-- What a section defines. A definition has a name if it starts with a word. -/
def namesIn (e : SExpr) : List (Definition × Option Name) :=
  (predicatesIn e).map (fun p => (.predicate, p.head?)) ++
    (actionsIn e).map fun items => (.action, (SExpr.list items).head?)

/-- What all sections define, in the order of the text. -/
def definedNames (sections : List SExpr) : List (Definition × Option Name) :=
  sections.flatMap namesIn

/-- The section can be read by itself, and of a section for predicates each definition can. -/
def ReadAlone (e : SExpr) : Prop :=
  if e.head? = some ":predicates" then
    ∀ p ∈ e.body, ∃ predicate, PredicateSchema.ofSExpr p = .ok predicate
  else ∃ d, add {} e = .ok d

/-- The domain has what the sections define, in the order of the text, and finds it by its name. -/
structure Collects (sections : List SExpr) (d : Domain) : Prop where
  predicates : List.Forall₂ (fun e p => PredicateSchema.ofSExpr e = .ok p)
    (sections.flatMap predicatesIn) d.predicates
  actions : List.Forall₂ (fun items a => ActionSchema.ofItems items = .ok a)
    (sections.flatMap actionsIn) d.actions
  distinct : d.DistinctNames
  predicate?_eq_some_iff : ∀ name p, d.predicate? name = some p ↔
    (∃ e ∈ sections.flatMap predicatesIn, PredicateSchema.ofSExpr e = .ok p) ∧ p.name = name
  action?_eq_some_iff : ∀ name a, d.action? name = some a ↔
    (∃ items ∈ sections.flatMap actionsIn, ActionSchema.ofItems items = .ok a) ∧ a.name = name
  isSome_predicate?_iff : ∀ name,
    (d.predicate? name).isSome ↔ (.predicate, some name) ∈ definedNames sections
  isSome_action?_iff : ∀ name,
    (d.action? name).isSome ↔ (.action, some name) ∈ definedNames sections

variable {d next : Domain} {e : SExpr} {items sections : List SExpr} {name : Name}

/-! ### Names of definitions -/

theorem head?_of_ofSExpr {p : PredicateSchema} (h : PredicateSchema.ofSExpr e = .ok p) :
    e.head? = some p.name := by
  unfold PredicateSchema.ofSExpr at h
  split at h
  · cases h
  · case h_2 name rest =>
    cases hparameters : TypedList.ofItems "predicates" rest with
    | error fault =>
      rw [hparameters] at h
      cases h
    | ok parameters =>
      rw [hparameters] at h
      cases h
      rfl
  · cases h

theorem head?_of_ofItems {a : ActionSchema} (h : ActionSchema.ofItems items = .ok a) :
    (SExpr.list items).head? = some a.name := by
  unfold ActionSchema.ofItems at h
  split at h
  · rw [ActionSchema.name_of_withParts h]
    rfl
  · cases h

theorem predicate_mem_definedNames {first : Option Name} :
    (.predicate, first) ∈ definedNames sections ↔
      ∃ e ∈ sections.flatMap predicatesIn, e.head? = first := by
  simp only [definedNames, namesIn, List.mem_flatMap, List.mem_append, List.mem_map]
  constructor
  · rintro ⟨s, hs, ⟨e, he, heq⟩ | ⟨_, _, heq⟩⟩
    · exact ⟨e, ⟨s, hs, he⟩, (Prod.mk.inj heq).2⟩
    · cases heq
  · rintro ⟨e, ⟨s, hs, he⟩, rfl⟩
    exact ⟨s, hs, Or.inl ⟨e, he, rfl⟩⟩

theorem action_mem_definedNames {first : Option Name} :
    (.action, first) ∈ definedNames sections ↔
      ∃ items ∈ sections.flatMap actionsIn, (SExpr.list items).head? = first := by
  simp only [definedNames, namesIn, List.mem_flatMap, List.mem_append, List.mem_map]
  constructor
  · rintro ⟨s, hs, ⟨_, _, heq⟩ | ⟨items, hitems, heq⟩⟩
    · cases heq
    · exact ⟨items, ⟨s, hs, hitems⟩, (Prod.mk.inj heq).2⟩
  · rintro ⟨items, ⟨s, hs, hitems⟩, rfl⟩
    exact ⟨s, hs, Or.inr ⟨items, hitems, rfl⟩⟩

/-! ### All definitions are collected -/

theorem forall₂_addPredicate {seen : List SExpr}
    (hseen : List.Forall₂ (fun e p => PredicateSchema.ofSExpr e = .ok p) seen d.predicates)
    (hadd : d.addPredicate e = .ok next) :
    List.Forall₂ (fun e p => PredicateSchema.ofSExpr e = .ok p) (seen ++ [e]) next.predicates := by
  obtain ⟨predicate, hread, -, rfl⟩ := addPredicate_eq_ok_iff.mp hadd
  exact List.rel_append hseen (.cons hread .nil)

theorem forall₂_add_predicates {seen : List SExpr}
    (hseen : List.Forall₂ (fun e p => PredicateSchema.ofSExpr e = .ok p) seen d.predicates)
    (hadd : d.add e = .ok next) :
    List.Forall₂ (fun e p => PredicateSchema.ofSExpr e = .ok p) (seen ++ predicatesIn e)
      next.predicates := by
  unfold predicatesIn
  split
  · case isTrue hhead =>
    obtain ⟨body, rfl⟩ := SExpr.head?_eq_some_iff.mp hhead
    have hbody : body.foldlM addPredicate d = .ok next := hadd
    have hall := forall₂_of_foldlM (f := addPredicate) (fun _ _ _ _ => forall₂_addPredicate)
      hseen hbody
    rwa [List.flatMap_singleton'] at hall
  · case isFalse hhead =>
    have hkind : kind? e ≠ some .predicates := fun hkind => hhead (kind?_eq_some_iff.mp hkind)
    have hsame : d.predicates = next.predicates := samePart_of_add hadd hkind
    rwa [List.append_nil, ← hsame]

theorem forall₂_add_actions {seen : List (List SExpr)}
    (hseen : List.Forall₂ (fun items a => ActionSchema.ofItems items = .ok a) seen d.actions)
    (hadd : d.add e = .ok next) :
    List.Forall₂ (fun items a => ActionSchema.ofItems items = .ok a) (seen ++ actionsIn e)
      next.actions := by
  unfold actionsIn
  split
  · case isTrue hhead =>
    obtain ⟨body, rfl⟩ := SExpr.head?_eq_some_iff.mp hhead
    obtain ⟨action, hread, -, rfl⟩ := addAction_eq_ok_iff.mp hadd
    exact List.rel_append hseen (.cons hread .nil)
  · case isFalse hhead =>
    have hkind : kind? e ≠ some .action := fun hkind => hhead (kind?_eq_some_iff.mp hkind)
    have hsame : d.actions = next.actions := samePart_of_add hadd hkind
    rwa [List.append_nil, ← hsame]

/-! ### Definitions are found by their names -/

section Search

variable {α β : Type} {read : α → Except Fault β} {first : α → Option Name} {nameOf : β → Name}
  {texts : List α} {l : List β}

theorem mem_iff_exists_read (hread : List.Forall₂ (fun a b => read a = .ok b) texts l) {b : β} :
    b ∈ l ↔ ∃ a ∈ texts, read a = .ok b := by
  induction hread with
  | nil => simp
  | cons hfirst _ ih =>
    rw [List.mem_cons, List.exists_mem_cons_iff, ih, hfirst, Except.ok.injEq, eq_comm]

/-- The first words of definitions are the names of what is read. -/
theorem map_first_eq (hread : List.Forall₂ (fun a b => read a = .ok b) texts l)
    (hfirst : ∀ a b, read a = .ok b → first a = some (nameOf b)) :
    texts.map first = l.map fun b => some (nameOf b) := by
  induction hread with
  | nil => rfl
  | cons hab _ ih => rw [List.map_cons, List.map_cons, hfirst _ _ hab, ih]

theorem find?_eq_some_iff_read (hread : List.Forall₂ (fun a b => read a = .ok b) texts l)
    (hl : (l.map nameOf).Nodup) {b : β} :
    l.find? (fun b => nameOf b = name) = some b ↔
      (∃ a ∈ texts, read a = .ok b) ∧ nameOf b = name := by
  rw [← mem_iff_exists_read hread]
  constructor
  · intro hfind
    exact ⟨List.mem_of_find?_eq_some hfind, by simpa using List.find?_some hfind⟩
  · rintro ⟨hb, hname⟩
    cases hfind : l.find? (fun b => nameOf b = name) with
    | none => exact absurd hname (by simpa using List.find?_eq_none.mp hfind b hb)
    | some other =>
      have hother : nameOf other = name := by simpa using List.find?_some hfind
      have hmem := List.mem_of_find?_eq_some hfind
      rw [List.inj_on_of_nodup_map hl hmem hb (hother.trans hname.symm)]

theorem isSome_find?_iff_first (hread : List.Forall₂ (fun a b => read a = .ok b) texts l)
    (hfirst : ∀ a b, read a = .ok b → first a = some (nameOf b)) :
    (l.find? fun b => nameOf b = name).isSome ↔ ∃ a ∈ texts, first a = some name := by
  rw [← List.mem_map, map_first_eq hread hfirst, List.find?_isSome]
  simp

end Search

theorem sections?_eq_some_iff : sections? e = some sections ↔ e = SExpr.definition sections := by
  constructor
  · intro h
    unfold sections? at h
    split at h
    · case h_1 head rest =>
      split at h
      · case isTrue hhead =>
        rw [SExpr.isWord_iff.mp hhead, Option.some.inj h, SExpr.definition]
      · cases h
    · cases h
  · rintro rfl
    rfl

theorem collects_of_ofSExpr (hread : ofSExpr (SExpr.definition sections) = .ok d) :
    Collects sections d := by
  have hfold : sections.foldlM add {} = .ok d := hread
  have hpredicates :=
    forall₂_of_foldlM (f := add) (fun _ _ _ _ => forall₂_add_predicates) .nil hfold
  have hactions := forall₂_of_foldlM (f := add) (fun _ _ _ _ => forall₂_add_actions) .nil hfold
  rw [List.nil_append] at hpredicates hactions
  have hdistinct := distinctNames_of_ofSExpr hread
  exact {
    predicates := hpredicates
    actions := hactions
    distinct := hdistinct
    predicate?_eq_some_iff := fun _ _ => find?_eq_some_iff_read hpredicates hdistinct.predicates
    action?_eq_some_iff := fun _ _ => find?_eq_some_iff_read hactions hdistinct.actions
    isSome_predicate?_iff := fun _ => by
      rw [predicate_mem_definedNames]
      exact isSome_find?_iff_first hpredicates fun _ _ => head?_of_ofSExpr
    isSome_action?_iff := fun _ => by
      rw [action_mem_definedNames]
      exact isSome_find?_iff_first hactions fun _ _ => head?_of_ofItems }

/-! ### The first name that is defined again -/

/-- The domain has a definition of the kind with the name. -/
def Defines (d : Domain) : Definition → Name → Prop
  | .predicate, name => (d.predicate? name).isSome
  | .action, name => (d.action? name).isSome

/-- After the definitions of the names `seen` there is a domain with these names, all different, or
the fault about the first of them that is repeated. -/
inductive Tracks (seen : List (Definition × Option Name)) : Except Fault Domain → Prop
  | built {d : Domain} : seen.Nodup →
      (∀ kind name, (kind, some name) ∈ seen ↔ d.Defines kind name) → Tracks seen (.ok d)
  | refused {kind : Definition} {name : Name} : FirstRepeated seen (kind, some name) →
      Tracks seen (.error (.redefinition kind name))

variable {seen : List (Definition × Option Name)} {kind : Definition}

theorem tracks_foldlM {α : Type} {f : Domain → α → Except Fault Domain}
    {names : α → List (Definition × Option Name)} {l : List α}
    (hstep : ∀ a ∈ l, ∀ seen d, Tracks seen (.ok d) → Tracks (seen ++ names a) (f d a))
    (hd : Tracks seen (.ok d)) : Tracks (seen ++ l.flatMap names) (l.foldlM f d) := by
  induction l generalizing seen d with
  | nil =>
    rw [List.flatMap_nil, List.append_nil]
    exact hd
  | cons a l ih =>
    obtain ⟨ha, hl⟩ := List.forall_mem_cons.mp hstep
    have hfirst := ha seen d hd
    rw [List.flatMap_cons, ← List.append_assoc, List.foldlM_cons]
    cases houtcome : f d a with
    | ok mid =>
      rw [houtcome] at hfirst
      exact ih hl hfirst
    | error fault =>
      rw [houtcome] at hfirst
      cases hfirst with
      | refused hrepeated => exact .refused (hrepeated.append _)

/-- A definition is refused if its name is taken, and else its name is added to those defined. -/
theorem Tracks.define (hd : Tracks seen (.ok d)) {outcome : Except Fault Domain}
    (htaken : d.Defines kind name → outcome = .error (.redefinition kind name))
    (hnew : ¬ d.Defines kind name → ∃ next, outcome = .ok next ∧
      ∀ k n, next.Defines k n ↔ d.Defines k n ∨ k = kind ∧ n = name) :
    Tracks (seen ++ [(kind, some name)]) outcome := by
  cases hd with
  | built hnodup hnames =>
    by_cases hdefined : d.Defines kind name
    · rw [htaken hdefined]
      exact .refused ⟨seen, [], rfl, hnodup, (hnames kind name).mpr hdefined⟩
    · obtain ⟨next, rfl, hnext⟩ := hnew hdefined
      refine .built ?_ fun k n => ?_
      · exact List.concat_eq_append ▸ hnodup.concat fun hmem => hdefined ((hnames kind name).mp hmem)
      · rw [List.mem_append, hnames, hnext, List.mem_singleton, Prod.mk.injEq, Option.some.injEq]

theorem tracks_addPredicate {predicate : PredicateSchema}
    (hread : PredicateSchema.ofSExpr e = .ok predicate) (hd : Tracks seen (.ok d)) :
    Tracks (seen ++ [(.predicate, e.head?)]) (d.addPredicate e) := by
  rw [head?_of_ofSExpr hread]
  refine hd.define (fun htaken => ?_) fun hnew => ?_
  · rw [addPredicate, hread]
    exact if_pos htaken
  · have hnone : d.predicate? predicate.name = none := Option.not_isSome_iff_eq_none.mp hnew
    refine ⟨_, addPredicate_eq_ok_iff.mpr ⟨predicate, hread, hnone, rfl⟩, fun k n => ?_⟩
    cases k with
    | predicate => simp [Defines, predicate?, eq_comm (a := n)]
    | action => simp [Defines, action?]

theorem tracks_addAction {action : ActionSchema} (hread : ActionSchema.ofItems items = .ok action)
    (hd : Tracks seen (.ok d)) :
    Tracks (seen ++ [(.action, (SExpr.list items).head?)]) (d.addAction items) := by
  rw [head?_of_ofItems hread]
  refine hd.define (fun htaken => ?_) fun hnew => ?_
  · rw [addAction, hread]
    exact if_pos htaken
  · have hnone : d.action? action.name = none := Option.not_isSome_iff_eq_none.mp hnew
    refine ⟨_, addAction_eq_ok_iff.mpr ⟨action, hread, hnone, rfl⟩, fun k n => ?_⟩
    cases k with
    | predicate => simp [Defines, predicate?]
    | action => simp [Defines, action?, eq_comm (a := n)]

/-- Whether a section without definitions is refused does not depend on what has been read. -/
theorem exists_add_of_alone {alone : Domain} (hadd : add {} e = .ok alone)
    (hpredicates : kind? e ≠ some .predicates) (haction : kind? e ≠ some .action) (d : Domain) :
    ∃ next, d.add e = .ok next := by
  unfold add at hadd ⊢
  split at hadd
  · next keyword body =>
    cases hkind : Section.ofKeyword? keyword with
    | none => exact ⟨d, rfl⟩
    | some kind =>
      simp only [hkind] at hadd ⊢
      cases kind with
      | name =>
        unfold addSection at hadd ⊢
        dsimp only at hadd ⊢
        split at hadd
        · exact ⟨_, rfl⟩
        · cases hadd
      | requirements =>
        obtain ⟨requirements, hread, -⟩ := exists_of_bind_eq_ok hadd
        exact ⟨_, bind_eq_ok_iff.mpr ⟨requirements, hread, rfl⟩⟩
      | types =>
        obtain ⟨types, hread, -⟩ := exists_of_bind_eq_ok hadd
        exact ⟨_, bind_eq_ok_iff.mpr ⟨types, hread, rfl⟩⟩
      | predicates => exact absurd hkind hpredicates
      | action => exact absurd hkind haction
  · cases hadd

theorem Tracks.congr (hd : Tracks seen (.ok d)) (hpredicates : SamePart .predicates d next)
    (hactions : SamePart .action d next) : Tracks seen (.ok next) := by
  have hpredicates : d.predicates = next.predicates := hpredicates
  have hactions : d.actions = next.actions := hactions
  cases hd with
  | built hnodup hnames =>
    refine .built hnodup fun kind name => (hnames kind name).trans ?_
    cases kind with
    | predicate => rw [Defines, Defines, predicate?, predicate?, hpredicates]
    | action => rw [Defines, Defines, action?, action?, hactions]

theorem tracks_add (halone : ReadAlone e) (hd : Tracks seen (.ok d)) :
    Tracks (seen ++ namesIn e) (d.add e) := by
  unfold ReadAlone at halone
  split at halone
  · case isTrue hhead =>
    obtain ⟨body, rfl⟩ := SExpr.head?_eq_some_iff.mp hhead
    have hnames : namesIn (.list (.word ":predicates" :: body)) =
        body.flatMap fun p => [(.predicate, p.head?)] := by
      rw [← List.map_eq_flatMap, namesIn]
      exact List.append_nil _
    rw [hnames]
    show Tracks _ (body.foldlM addPredicate d)
    refine tracks_foldlM (fun p hp seen d hd => ?_) hd
    obtain ⟨predicate, hread⟩ := halone p hp
    exact tracks_addPredicate hread hd
  · case isFalse hhead =>
    obtain ⟨alone, hadd⟩ := halone
    have hpredicates : kind? e ≠ some .predicates := fun hkind => hhead (kind?_eq_some_iff.mp hkind)
    by_cases haction : e.head? = some ":action"
    · obtain ⟨body, rfl⟩ := SExpr.head?_eq_some_iff.mp haction
      obtain ⟨action, hread, -, -⟩ := addAction_eq_ok_iff.mp hadd
      exact tracks_addAction hread hd
    · have hkind : kind? e ≠ some .action := fun hkind => haction (kind?_eq_some_iff.mp hkind)
      have hnone : namesIn e = [] := by
        rw [namesIn, predicatesIn, if_neg hhead, actionsIn, if_neg haction]
        rfl
      obtain ⟨next, hnext⟩ := exists_add_of_alone hadd hpredicates hkind d
      rw [hnone, List.append_nil, hnext]
      exact hd.congr (samePart_of_add hnext hpredicates) (samePart_of_add hnext hkind)

theorem tracks_ofSExpr (halone : ∀ e ∈ sections, ReadAlone e) :
    Tracks (definedNames sections) (ofSExpr (SExpr.definition sections)) := by
  have hempty : Tracks [] (.ok {}) := by
    refine .built List.nodup_nil fun kind name => ?_
    cases kind <;> simp [Defines, predicate?, action?]
  exact tracks_foldlM (fun e he _ _ => tracks_add (halone e he)) hempty

/-- A domain that is read has exactly the definitions of its text, each under a name of its own. If
all sections and definitions can be read by themselves, the domain is refused exactly where a name
is defined twice, and the fault is about the first definition whose name another of its kind has
taken before. -/
theorem definitions_of_ofSExpr :
    (∀ e d, ofSExpr e = .ok d → ∃ sections, e = SExpr.definition sections ∧
      Collects sections d) ∧
    ∀ sections, (∀ e ∈ sections, ReadAlone e) →
      ((∃ fault, ofSExpr (SExpr.definition sections) = .error fault) ↔
        ¬ (definedNames sections).Nodup) ∧
      ∀ fault, ofSExpr (SExpr.definition sections) = .error fault →
        ∃ kind name, fault = .redefinition kind name ∧
          FirstRepeated (definedNames sections) (kind, some name) := by
  constructor
  · intro e d hread
    cases hsections : sections? e with
    | none =>
      rw [ofSExpr, hsections] at hread
      cases hread
    | some sections =>
      obtain rfl := sections?_eq_some_iff.mp hsections
      exact ⟨sections, rfl, collects_of_ofSExpr hread⟩
  · intro sections halone
    have htracks := tracks_ofSExpr halone
    cases houtcome : ofSExpr (SExpr.definition sections) with
    | ok d =>
      rw [houtcome] at htracks
      cases htracks with
      | built hnodup _ =>
        refine ⟨⟨?_, fun hrepeated => absurd hnodup hrepeated⟩, ?_⟩
        · rintro ⟨_, ⟨⟩⟩
        · rintro _ ⟨⟩
    | error fault =>
      rw [houtcome] at htracks
      cases htracks with
      | @refused kind name hrepeated =>
        refine ⟨⟨fun _ => hrepeated.not_nodup, fun _ => ⟨_, rfl⟩⟩, ?_⟩
        rintro _ ⟨⟩
        exact ⟨kind, name, rfl, hrepeated⟩

/-- A predicate and an action may have one name. -/
def clearing : List SExpr :=
  [.list [.word ":predicates", .list [.word "clear", .word "?x"]],
    .list [.word ":action", .word "clear"],
    .list [.word ":predicates", .list [.word "held"]]]

/-- The predicate is defined twice in one section. -/
def clearingTwice : List SExpr :=
  [.list [.word ":action", .word "clear"],
    .list [.word ":predicates", .list [.word "clear", .word "?x"], .list [.word "held"],
      .list [.word "clear"]]]

theorem definitions_of_ofSExpr_clearing :
    (∃ d, ofSExpr (SExpr.definition clearing) = .ok d ∧ ∃ sections,
      SExpr.definition clearing = SExpr.definition sections ∧ Collects sections d) ∧
    (∀ e ∈ clearingTwice, ReadAlone e) ∧
    ∃ fault, ofSExpr (SExpr.definition clearingTwice) = .error fault ∧
      ∃ kind name, fault = .redefinition kind name ∧
        FirstRepeated (definedNames clearingTwice) (kind, some name) := by
  have hread : ofSExpr (SExpr.definition clearing) = .ok _ := rfl
  have halone : ∀ e ∈ clearingTwice, ReadAlone e := by
    refine List.forall_mem_cons.mpr ⟨⟨_, rfl⟩, List.forall_mem_singleton.mpr ?_⟩
    show ∀ p ∈ [_, _, _], ∃ predicate, PredicateSchema.ofSExpr p = .ok predicate
    intro p hp
    simp only [List.mem_cons, List.not_mem_nil, or_false] at hp
    rcases hp with rfl | rfl | rfl
    · exact ⟨_, rfl⟩
    · exact ⟨_, rfl⟩
    · exact ⟨_, rfl⟩
  obtain ⟨hiff, hfirst⟩ := definitions_of_ofSExpr.2 _ halone
  obtain ⟨fault, hfault⟩ := hiff.mpr (by decide)
  exact ⟨⟨_, hread, definitions_of_ofSExpr.1 _ _ hread⟩, halone, fault, hfault,
    hfirst fault hfault⟩

/-- The second definition of a name is reported, and not an action with the name of a predicate. -/
example : ofSExpr (SExpr.definition clearingTwice) = .error (.redefinition .predicate "clear") :=
  rfl

end Domain

end StripsReach
