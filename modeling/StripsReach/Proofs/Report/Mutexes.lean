import Mathlib.Data.List.Nodup
import StripsReach.Proofs.Graph.Mutexes
import StripsReach.Report.Plain

/-!
# The report of the mutexes

A relation is reported level by level up to the last level but one. Its entries were recorded under
just these levels, each under one of them, so the report accounts for every entry of the relation,
and for each once. All numbers that have to be looked up for the lines come from layers of the
graph, and those hold numbers of actions of the task only.
-/

namespace StripsReach.Report

open MutexHistory (Call HoldsAt)
open PlanningGraph (levelCalls levelEnabled levelState)

variable {α : Type}

/-! ### The form of the report -/

/-- The line with a hundred hyphens under it. -/
def ruled (line : String) : String :=
  line ++ "\n" ++ (String.ofList (List.replicate 100 '-') ++ "\n")

/-- The text has the levels one after another, counted from `level`: a heading, and under it a line
that `tells` each entry, or the remark that there are no entries. -/
inductive WritesLevels (tells : α → String → Prop) : Nat → List (List α) → String → Prop
  | done (level : Nat) : WritesLevels tells level [] ""
  | without {level : Nat} {levels : List (List α)} {text : String} :
      WritesLevels tells (level + 1) levels text →
      WritesLevels tells level ([] :: levels)
        (s!"At level {level}:\n" ++ ruled "No mutexes" ++ text)
  | entries {level : Nat} {entries : List α} {levels : List (List α)} {lines : List String}
      {text : String} : entries ≠ [] → List.Forall₂ tells entries lines →
      WritesLevels tells (level + 1) levels text →
      WritesLevels tells level (entries :: levels)
        (s!"At level {level}:\n" ++ String.join (lines.map ruled) ++ text)

/-- The name and the arguments in parentheses, with a space in front of each argument. -/
def written (name : Name) (arguments : List Name) : String :=
  "(" ++ name ++ String.join (arguments.map (" " ++ ·)) ++ ")"

/-- The line shows both actions, which are there to be looked up, with two tabs between them. -/
def TellsPair (t : Task) (pair : ActionPair) (line : String) : Prop :=
  ∃ a b, t.action? pair.first = some a ∧ t.action? pair.second = some b ∧
    line = written a.name a.arguments ++ "\t\t" ++ written b.name b.arguments

/-- The line shows both actions, or the action and the atom that it deletes. -/
def TellsEffect (t : Task) : EffectMutex → String → Prop
  | .actions pair, line => TellsPair t pair line
  | .actionFact id x, line => ∃ a, t.action? id = some a ∧
      line = written a.name a.arguments ++ "\t\t" ++ written x.predicate x.arguments

/-- The line shows the atom and its negation. -/
def TellsConflict (x : Atom) (line : String) : Prop :=
  line = written x.predicate x.arguments ++ "\t\t" ++
    ("(not " ++ written x.predicate x.arguments ++ ")")

/-! ### What the report accounts for -/

/-- The entry stands in the relation at the level, by the actions that the level enables and by its
state. -/
def DetectedAt (t : Task) (relation : List NumberedAction → State → α → Prop) (level : Nat)
    (e : α) : Prop :=
  ∃ state, t.planningGraph.state? level = some state ∧
    relation (t.planningGraph.enabledActions t.actions level) state e

/-- The levels but the last, with the entries of the timeline: every entry at one place, under the
first level at which it stands in the relation, and in ascending order there. -/
structure AccountsFor [Ord α] [Std.TransOrd α] (t : Task)
    (relation : List NumberedAction → State → α → Prop) (timeline : Timeline α)
    (levels : List (List α)) : Prop where
  length_eq : levels.length = t.planningGraph.lastLevel
  covered : ∀ e, e ∈ levels.flatten ↔ e ∈ timeline.entries
  once : levels.flatten.Nodup
  ascending : ∀ entries ∈ levels, entries.Pairwise fun a b => compare a b = .lt
  first : ∀ level entries, levels[level]? = some entries → ∀ e ∈ entries,
    IsLeast {k | DetectedAt t relation k e} level

/-- The text is a section under the title that accounts for the timeline. -/
def ReportsRelation [Ord α] [Std.TransOrd α] (t : Task) (title : String)
    (tells : α → String → Prop) (relation : List NumberedAction → State → α → Prop)
    (timeline : Timeline α) (text : String) : Prop :=
  ∃ levels body, AccountsFor t relation timeline levels ∧ WritesLevels tells 0 levels body ∧
    text = title ++ ":\n" ++ body ++ "\n"

/-! ### Writing a section -/

theorem levelText_nil (level : Nat) :
    MutexSection.levelText level [] = s!"At level {level}:\n" ++ ruled "No mutexes" := by
  rw [MutexSection.levelText]
  simp [ruled, longRule, rule]

theorem levelText_of_ne_nil {lines : List String} (hne : lines ≠ []) (level : Nat) :
    MutexSection.levelText level lines =
      s!"At level {level}:\n" ++ String.join (lines.map ruled) := by
  rw [MutexSection.levelText, if_neg (by simpa using hne)]
  rfl

theorem writesLevels_join {tells : α → String → Prop} {line : α → String}
    {levels : List (List α)} (htells : ∀ e ∈ levels.flatten, tells e (line e)) (level : Nat) :
    WritesLevels tells level levels (String.join
      (((levels.map fun entries => entries.map line).zipIdx level).map
        fun (lines, level) => MutexSection.levelText level lines)) := by
  induction levels generalizing level with
  | nil => exact .done level
  | cons entries levels ih =>
    have hrest := ih (fun e he => htells e (List.mem_append_right _ he)) (level + 1)
    rw [List.map_cons, List.zipIdx_cons, List.map_cons, String.join_cons]
    cases entries with
    | nil =>
      show WritesLevels tells level _ (MutexSection.levelText level [] ++ _)
      rw [levelText_nil]
      exact .without hrest
    | cons e entries =>
      show WritesLevels tells level _ (MutexSection.levelText level ((e :: entries).map line) ++ _)
      rw [levelText_of_ne_nil (by simp)]
      refine .entries (List.cons_ne_nil e entries) ?_ hrest
      rw [List.forall₂_map_right_iff, List.forall₂_same]
      exact fun e' he' => htells e' (List.mem_append_left _ he')

/-! ### The levels of a relation -/

section Levels

variable {t : Task} {relation : List NumberedAction → State → α → Prop}

theorem detectedAt_iff {level : Nat} (hlevel : level < t.planningGraph.lastLevel) (e : α) :
    DetectedAt t relation level e ↔
      relation (levelEnabled t.actions t.problem.init level)
        (levelState t.actions t.problem.init level) e := by
  have hstate : t.planningGraph.state? level = some (levelState t.actions t.problem.init level) :=
    PlanningGraph.state?_build _ _ hlevel.le
  have henabled : t.planningGraph.enabledActions t.actions level =
      levelEnabled t.actions t.problem.init level :=
    PlanningGraph.enabledActions_build _ _ hlevel
  rw [DetectedAt, hstate, henabled]
  simp only [Option.some.injEq, exists_eq_left']

variable [Ord α] [Std.TransOrd α] {timeline : Timeline α}

/-- That the timeline has recorded the relation at all levels of the task's graph but the last. -/
def RecordedIn (t : Task) (relation : List NumberedAction → State → α → Prop)
    (timeline : Timeline α) : Prop :=
  timeline.Recorded
    ((levelCalls t.actions t.problem.init t.planningGraph.lastLevel).map Call.level)
    (HoldsAt relation (levelCalls t.actions t.problem.init t.planningGraph.lastLevel))

/-- An entry stands at one of these levels iff it was first detected there. -/
theorem mem_atLevel_iff_isLeast (hgrow : Growing relation) (h : RecordedIn t relation timeline)
    {level : Nat} (hlevel : level < t.planningGraph.lastLevel) {e : α} :
    e ∈ timeline.atLevel level ↔ IsLeast {k | DetectedAt t relation k e} level := by
  rw [PlanningGraph.mem_atLevel_iff _ _ hgrow h, and_iff_right hlevel]
  exact (Timeline.isLeast_congr_of_lt (fun k hk => detectedAt_iff hk e) hlevel).symm

theorem getElem?_byLevel {count level : Nat} {entries : List α} :
    (timeline.byLevel count)[level]? = some entries ↔
      level < count ∧ timeline.atLevel level = entries := by
  rw [Timeline.byLevel, List.getElem?_map]
  by_cases hlevel : level < count
  · rw [List.getElem?_range hlevel, Option.map_some, Option.some.injEq, and_iff_right hlevel]
  · rw [List.getElem?_eq_none (by simpa using hlevel)]
    simp [hlevel]

variable [Std.LawfulEqOrd α]

theorem nodup_byLevel (hgrow : Growing relation) (h : RecordedIn t relation timeline) :
    (timeline.byLevel t.planningGraph.lastLevel).flatten.Nodup := by
  rw [List.nodup_flatten]
  constructor
  · intro entries hentries
    obtain ⟨level, -, rfl⟩ := List.mem_map.mp hentries
    refine Std.ExtTreeSet.distinct_toList.imp fun hne heq => hne ?_
    rw [heq, Std.LawfulEqCmp.compare_eq_iff_eq]
  · rw [Timeline.byLevel, List.pairwise_map]
    refine List.pairwise_lt_range.imp_of_mem fun hi hj hij e hei hej => hij.ne ?_
    -- Both levels would be the first.
    rw [mem_atLevel_iff_isLeast hgrow h (List.mem_range.mp hi)] at hei
    rw [mem_atLevel_iff_isLeast hgrow h (List.mem_range.mp hj)] at hej
    exact hei.unique hej

theorem accountsFor_byLevel (hgrow : Growing relation) (h : RecordedIn t relation timeline) :
    AccountsFor t relation timeline (timeline.byLevel t.planningGraph.lastLevel) where
  length_eq := by rw [Timeline.byLevel, List.length_map, List.length_range]
  covered := by
    intro e
    rw [List.mem_flatten]
    constructor
    · rintro ⟨entries, hentries, he⟩
      obtain ⟨level, hlevel, rfl⟩ := List.mem_map.mp hentries
      obtain ⟨hlast, hleast⟩ := (PlanningGraph.mem_atLevel_iff _ _ hgrow h).mp he
      exact (PlanningGraph.mem_entries_iff _ _ hgrow h).mpr ⟨level, hlast, hleast.1⟩
    · intro he
      obtain ⟨level, hlevel, -⟩ := Timeline.Recorded.existsUnique h (Timeline.mem_entries.mp he)
      have hlast := ((PlanningGraph.mem_atLevel_iff _ _ hgrow h).mp hlevel).1
      exact ⟨_, List.mem_map.mpr ⟨level, List.mem_range.mpr hlast, rfl⟩, hlevel⟩
  once := nodup_byLevel hgrow h
  ascending := by
    intro entries hentries
    obtain ⟨level, -, rfl⟩ := List.mem_map.mp hentries
    exact Std.ExtTreeSet.ordered_toList
  first := by
    intro level entries hentries e he
    obtain ⟨hlevel, rfl⟩ := getElem?_byLevel.mp hentries
    exact (mem_atLevel_iff_isLeast hgrow h hlevel).mp he

/-- The section of a relation, if each of its entries can be told. -/
theorem reportsRelation_ofTimeline (hgrow : Growing relation)
    (h : RecordedIn t relation timeline) {tells : α → String → Prop} {line : α → String}
    (htells : ∀ e ∈ timeline.entries, tells e (line e)) (title : String) :
    ReportsRelation t title tells relation timeline
      (MutexSection.ofTimeline title line t.planningGraph.lastLevel timeline).text := by
  have haccounts := accountsFor_byLevel hgrow h
  refine ⟨_, _, haccounts, ?_, rfl⟩
  exact writesLevels_join (fun e he => htells e ((haccounts.covered e).mp he)) 0

end Levels

/-! ### Looking up actions -/

/-- The numbers of the two actions. -/
def pairIds (pair : ActionPair) : List Nat := [pair.first, pair.second]

def effectIds : EffectMutex → List Nat
  | .actions pair => pairIds pair
  | .actionFact id _ => [id]

/-- The numbers of the actions to look up for the text of the mutexes. -/
def mutexLookups (g : PlanningGraph) : List Nat :=
  (g.mutexes.effects.byLevel g.lastLevel).flatten.flatMap effectIds ++
    (g.mutexes.interference.byLevel g.lastLevel).flatten.flatMap pairIds

/-- The numbers of the actions to look up for the text of the states. -/
def stateLookups (g : PlanningGraph) : List Nat :=
  g.layers.flatMap fun layer => g.enabledAt layer.level

section Lookups

variable {t : Task}

theorem listing_eq_written (name : Name) (names : List Name) :
    Atom.listing name names = written name names := by
  have hjoined : " ".intercalate (name :: names) =
      name ++ String.join (names.map (" " ++ ·)) := by
    induction names generalizing name with
    | nil => rw [String.intercalate_singleton, List.map_nil, String.join_nil, String.append_empty]
    | cons next names ih =>
      rw [String.intercalate_cons_cons, ih, List.map_cons, String.join_cons]
      simp only [String.append_assoc]
  rw [Atom.listing, hjoined, written, ← String.append_assoc]

theorem action?_of_lt {id : Nat} (h : id < t.actions.length) :
    ∃ a, t.action? id = some a ∧ actionText t id = written a.name a.arguments := by
  have ha : t.action? id = some t.actions[id] := List.getElem?_eq_getElem h
  refine ⟨_, ha, ?_⟩
  rw [actionText, ha, ← listing_eq_written]
  rfl

theorem tellsPair_pairLine {pair : ActionPair} (h : ∀ id ∈ pairIds pair, id < t.actions.length) :
    TellsPair t pair (pairLine t pair) := by
  obtain ⟨a, ha, hatext⟩ := action?_of_lt (h pair.first (by simp [pairIds]))
  obtain ⟨b, hb, hbtext⟩ := action?_of_lt (h pair.second (by simp [pairIds]))
  refine ⟨a, b, ha, hb, ?_⟩
  rw [pairLine, sideBySide, hatext, hbtext]

theorem tellsEffect_effectLine {e : EffectMutex}
    (h : ∀ id ∈ effectIds e, id < t.actions.length) : TellsEffect t e (effectLine t e) := by
  cases e with
  | actions pair => exact tellsPair_pairLine h
  | actionFact id x =>
    obtain ⟨a, ha, hatext⟩ := action?_of_lt (h id (by simp [effectIds]))
    refine ⟨a, ha, ?_⟩
    rw [effectLine, sideBySide, hatext, Atom.text, listing_eq_written]

theorem tellsConflict_supportLine (x : Atom) : TellsConflict x (supportLine x) := by
  have htext : x.text = written x.predicate x.arguments := listing_eq_written _ _
  rw [TellsConflict, ← htext]
  rfl

/-- No number is left out if all are in range. -/
theorem forall₂_numbered {ids : List Nat} (h : ∀ id ∈ ids, id < t.actions.length) :
    List.Forall₂ (fun id a => t.action? id = some a) ids (numbered t ids) := by
  induction ids with
  | nil => exact .nil
  | cons id ids ih =>
    obtain ⟨a, ha, -⟩ := action?_of_lt (h id List.mem_cons_self)
    rw [numbered, List.filterMap_cons_some ha]
    exact .cons ha (ih fun i hi => h i (List.mem_cons_of_mem _ hi))

theorem id_lt_of_mem_levelEnabled {level : Nat} {a : NumberedAction}
    (ha : a ∈ levelEnabled t.actions t.problem.init level) : a.id < t.actions.length := by
  have hmem := NumberedAction.mem_ofList.mp (PlanningGraph.mem_enabledBy.mp ha).1
  exact (List.getElem?_eq_some_iff.mp hmem).1

theorem pairIds_lt {related : GroundAction → GroundAction → Prop} {level : Nat} {p : ActionPair}
    (hp : p ∈ pairsWhere related (levelEnabled t.actions t.problem.init level)) :
    ∀ id ∈ pairIds p, id < t.actions.length := by
  obtain ⟨a, ha, b, hb, -, rfl, -⟩ := hp
  have halt := id_lt_of_mem_levelEnabled ha
  have hblt := id_lt_of_mem_levelEnabled hb
  simp only [pairIds, ActionPair.of, List.mem_cons, List.not_mem_nil, or_false, forall_eq_or_imp,
    forall_eq]
  omega

theorem effectIds_lt {level : Nat} {state : State} {e : EffectMutex}
    (he : Inconsistent (levelEnabled t.actions t.problem.init level) state e) :
    ∀ id ∈ effectIds e, id < t.actions.length := by
  cases e with
  | actions p => exact pairIds_lt he
  | actionFact i x =>
    obtain ⟨⟨a, ha, rfl, -⟩, -⟩ := he
    intro id hid
    rw [List.mem_singleton.mp hid]
    exact id_lt_of_mem_levelEnabled ha

/-- The numbers that a level is listed with; the last level has none. -/
theorem lt_of_mem_enabledAt (level : Nat) :
    ∀ id ∈ t.planningGraph.enabledAt level, id < t.actions.length := by
  intro id hid
  rw [PlanningGraph.enabledAt] at hid
  cases hlayer : t.planningGraph.layers[level + 1]? with
  | none => simp [hlayer] at hid
  | some layer =>
    rw [hlayer, PlanningGraph.layer_eq _ _ hlayer] at hid
    obtain ⟨a, ha, rfl⟩ := List.mem_map.mp hid
    exact id_lt_of_mem_levelEnabled ha

/-! ### The mutexes of the task -/

theorem analysed_planningGraph (t : Task) :
    MutexHistory.Analysed (levelCalls t.actions t.problem.init t.planningGraph.lastLevel)
      t.planningGraph.mutexes := by
  have hrun : t.planningGraph.mutexes = MutexHistory.run
      (levelCalls t.actions t.problem.init t.planningGraph.lastLevel) :=
    PlanningGraph.mutexes_build _ _
  rw [hrun]
  exact MutexHistory.analysed_run _

theorem effectIds_lt_of_mem_entries {e : EffectMutex}
    (he : e ∈ t.planningGraph.mutexes.effects.entries) :
    ∀ id ∈ effectIds e, id < t.actions.length := by
  obtain ⟨level, -, hlevel⟩ := (PlanningGraph.mem_entries_iff _ _ growing_inconsistent
    (analysed_planningGraph t).effects).mp he
  exact effectIds_lt hlevel

theorem pairIds_lt_of_mem_entries {p : ActionPair}
    (hp : p ∈ t.planningGraph.mutexes.interference.entries) :
    ∀ id ∈ pairIds p, id < t.actions.length := by
  obtain ⟨level, -, hlevel⟩ := (PlanningGraph.mem_entries_iff _ _ growing_interfering
    (analysed_planningGraph t).interference).mp hp
  exact pairIds_lt hlevel

theorem lt_of_mem_mutexLookups {id : Nat} (hid : id ∈ mutexLookups t.planningGraph) :
    id < t.actions.length := by
  have h := analysed_planningGraph t
  rw [mutexLookups, List.mem_append, List.mem_flatMap, List.mem_flatMap] at hid
  rcases hid with ⟨e, he, hid⟩ | ⟨p, hp, hid⟩
  · rw [(accountsFor_byLevel growing_inconsistent h.effects).covered] at he
    exact effectIds_lt_of_mem_entries he id hid
  · rw [(accountsFor_byLevel growing_interfering h.interference).covered] at hp
    exact pairIds_lt_of_mem_entries hp id hid

theorem lt_of_mem_stateLookups {id : Nat} (hid : id ∈ stateLookups t.planningGraph) :
    id < t.actions.length := by
  obtain ⟨layer, -, hid⟩ := List.mem_flatMap.mp hid
  exact lt_of_mem_enabledAt layer.level id hid

end Lookups

theorem mutexes_eq (t : Task) (g : PlanningGraph) : mutexes t g = "Mutexes found:\n" ++
    (MutexSection.ofTimeline "Inconsistent effects" (effectLine t) g.lastLevel
      g.mutexes.effects).text ++
    (MutexSection.ofTimeline "Interference" (pairLine t) g.lastLevel g.mutexes.interference).text ++
    (MutexSection.ofTimeline "Inconsistent support" supportLine g.lastLevel
      g.mutexes.support).text := by
  rw [mutexes, mutexSections, List.map_cons, List.map_cons, List.map_singleton, String.join_cons,
    String.join_cons, String.join_cons, String.join_nil, String.append_empty]
  simp only [String.append_assoc]

/-- Each section of the report has all levels of the graph but the last, one after another, and
under each the mutexes that were first detected there, in ascending order; so it lists every
recorded mutex once. The numbers to look up for this text and for that of the states are numbers
of actions of the task, so that neither text leaves an action out. -/
theorem mutexes_lists_each_once (t : Task) :
    (∃ effects interference support,
      mutexes t t.planningGraph = "Mutexes found:\n" ++ effects ++ interference ++ support ∧
      ReportsRelation t "Inconsistent effects" (TellsEffect t) Inconsistent
        t.planningGraph.mutexes.effects effects ∧
      ReportsRelation t "Interference" (TellsPair t) Interfering
        t.planningGraph.mutexes.interference interference ∧
      ReportsRelation t "Inconsistent support" TellsConflict Conflicting
        t.planningGraph.mutexes.support support) ∧
    (∀ id ∈ mutexLookups t.planningGraph ++ stateLookups t.planningGraph,
      id < t.actions.length) ∧
    ∀ layer ∈ t.planningGraph.layers,
      List.Forall₂ (fun id a => t.action? id = some a) (t.planningGraph.enabledAt layer.level)
        (numbered t (t.planningGraph.enabledAt layer.level)) := by
  have h := analysed_planningGraph t
  have heffects := reportsRelation_ofTimeline growing_inconsistent h.effects
    (fun e he => tellsEffect_effectLine (effectIds_lt_of_mem_entries he)) "Inconsistent effects"
  have hinterference := reportsRelation_ofTimeline growing_interfering h.interference
    (fun p hp => tellsPair_pairLine (pairIds_lt_of_mem_entries hp)) "Interference"
  have hsupport := reportsRelation_ofTimeline growing_conflicting h.support
    (fun x _ => tellsConflict_supportLine x) "Inconsistent support"
  refine ⟨⟨_, _, _, mutexes_eq t _, heffects, hinterference, hsupport⟩, fun id hid => ?_, ?_⟩
  · exact (List.mem_append.mp hid).elim lt_of_mem_mutexLookups lt_of_mem_stateLookups
  · intro layer _
    exact forall₂_numbered (lt_of_mem_enabledAt layer.level)

end StripsReach.Report
