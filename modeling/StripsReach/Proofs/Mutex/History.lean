import Mathlib.Data.List.Induction
import StripsReach.Proofs.FirstOccurrences
import StripsReach.Proofs.Mutex.Relations

/-!
# The mutex history against the pairwise relations

A history is fed by any sequence of calls: levels in any order, repeated or left out, any states,
any layers of actions from one list. After it the entries of each relation are exactly those that
the pairwise definition gives for some call, where the actions are all those enabled by then, and
an entry stands at the level of the first such call.
-/

namespace StripsReach.MutexHistory

/-- One call of `analyse`, whose layer is made of actions from the list. -/
structure Call (actions : List GroundAction) where
  level : Nat
  state : State
  layer : List NumberedAction
  mem_actions : ∀ a ∈ layer, a ∈ NumberedAction.ofList actions

/-- The history after the calls, from the empty one. -/
def run {actions : List GroundAction} (calls : List (Call actions)) : MutexHistory :=
  calls.foldl (fun m c => m.analyse c.level c.state c.layer) .empty

/-- The actions of the layers of the calls, layer after layer. -/
def enabledIn {actions : List GroundAction} (calls : List (Call actions)) :
    List NumberedAction :=
  calls.flatMap Call.layer

/-- That an entry stands in the relation at call number `k`, over the actions of the layers up to
and including that call and over its own state. -/
def HoldsAt {actions : List GroundAction} {α : Type}
    (relation : List NumberedAction → State → α → Prop) (calls : List (Call actions)) (k : Nat)
    (entry : α) : Prop :=
  ∃ c, calls[k]? = some c ∧ relation (enabledIn (calls.take (k + 1))) c.state entry

/-- That the history consists of the actions of `enabled` in the order in which they first come,
and that its indexes list just what these add and need. -/
structure Indexes (enabled : List NumberedAction) (m : MutexHistory) : Prop where
  mem_actions : ∀ a, a ∈ m.actions ↔ a ∈ enabled
  ids_eq : m.ids = (enabled.map NumberedAction.id).eraseDups
  mem_seen : ∀ i, i ∈ m.seen ↔ i ∈ m.ids
  adders : ∀ x i, i ∈ m.adders.idsOf x ↔ ∃ a ∈ enabled, a.id = i ∧ x ∈ a.action.adds
  requirers : ∀ x i, i ∈ m.requirers.idsOf x ↔ ∃ a ∈ enabled, a.id = i ∧ x ∈ a.action.needs

theorem indexes_empty : Indexes [] empty := by
  constructor <;> simp [empty, ids, ActionIndex.idsOf]

section Joining

variable {actions : List GroundAction} {enabled : List NumberedAction} {m : MutexHistory}

/-- What an index lists after one more action has been listed for each of its atoms. -/
private theorem mem_idsOf_concat {index : ActionIndex} {atomsOf : GroundAction → List Atom}
    (h : ∀ x i, i ∈ index.idsOf x ↔ ∃ a ∈ enabled, a.id = i ∧ x ∈ atomsOf a.action)
    (a : NumberedAction) (x : Atom) (i : Nat) :
    i ∈ ((atomsOf a.action).foldl (ActionIndex.push a.id) index).idsOf x ↔
      ∃ b ∈ enabled ++ [a], b.id = i ∧ x ∈ atomsOf b.action := by
  rw [ActionIndex.mem_idsOf_foldl_push, h]
  simp only [List.mem_append, List.mem_singleton, or_and_right, exists_or, exists_eq_left]
  rw [eq_comm (a := i)]

/-- The numbers of the history are those of the actions. -/
theorem Indexes.mem_ids (h : Indexes enabled m) (i : Nat) :
    i ∈ m.ids ↔ i ∈ enabled.map NumberedAction.id := by
  rw [h.ids_eq, List.mem_eraseDups]

/-- An action joins the history and its indexes together, unless it is there. -/
theorem indexes_join (h : Indexes enabled m)
    (hlist : ∀ b ∈ enabled, b ∈ NumberedAction.ofList actions) {a : NumberedAction}
    (ha : a ∈ NumberedAction.ofList actions) : Indexes (enabled ++ [a]) (m.join a) := by
  rw [join]
  split
  · case isTrue hseen =>
    have hids := (h.mem_seen _).mp hseen
    obtain ⟨b, hb, hid⟩ := List.mem_map.mp hids
    have hmem : b ∈ enabled := (h.mem_actions b).mp hb
    -- A number has one action, so the action itself is there.
    obtain rfl := NumberedAction.eq_of_id_eq (hlist b hmem) ha hid
    have hsame : ∀ c, c ∈ enabled ++ [b] ↔ c ∈ enabled := by
      intro c
      rw [List.mem_append, List.mem_singleton]
      exact ⟨fun hc => hc.elim id fun hcb => hcb ▸ hmem, .inl⟩
    constructor
    · intro c
      rw [h.mem_actions, hsame]
    · rw [h.ids_eq, List.map_append, List.map_singleton, eraseDups_concat,
        if_pos ((h.mem_ids _).mp hids)]
    · exact h.mem_seen
    · simp only [hsame, h.adders, implies_true]
    · simp only [hsame, h.requirers, implies_true]
  · case isFalse hseen =>
    have hids : a.id ∉ m.ids := fun hmem => hseen ((h.mem_seen _).mpr hmem)
    constructor
    · intro b
      simp only [List.mem_append, List.mem_singleton, h.mem_actions]
    · have hnew : a.id ∉ enabled.map NumberedAction.id := fun hmem => hids ((h.mem_ids _).mpr hmem)
      rw [List.map_append, List.map_singleton, eraseDups_concat, if_neg hnew, ← h.ids_eq]
      simp only [ids, List.map_append, List.map_singleton]
    · intro i
      rw [ids, List.map_append, List.mem_append, List.map_singleton, List.mem_singleton]
      change i ∈ m.seen.insert a.id ↔ _
      rw [Std.ExtTreeSet.mem_insert, Std.LawfulEqCmp.compare_eq_iff_eq, h.mem_seen, or_comm,
        eq_comm (a := a.id), ids]
    · exact mem_idsOf_concat h.adders a
    · exact mem_idsOf_concat h.requirers a

/-- A whole layer joins. -/
theorem indexes_foldl_join (h : Indexes enabled m)
    (hlist : ∀ b ∈ enabled, b ∈ NumberedAction.ofList actions) {layer : List NumberedAction}
    (hlayer : ∀ a ∈ layer, a ∈ NumberedAction.ofList actions) :
    Indexes (enabled ++ layer) (layer.foldl join m) := by
  induction layer generalizing enabled m with
  | nil => simpa using h
  | cons a layer ih =>
    have ha := hlayer a List.mem_cons_self
    rw [List.append_cons, List.foldl_cons]
    refine ih (indexes_join h hlist ha) ?_ fun b hb => hlayer b (List.mem_cons_of_mem _ hb)
    intro b hb
    rcases List.mem_append.mp hb with hb | hb
    · exact hlist b hb
    · rwa [List.mem_singleton.mp hb]

/-- Joining records nothing. -/
theorem foldl_join_timelines (m : MutexHistory) (layer : List NumberedAction) :
    (layer.foldl join m).effects = m.effects ∧
      (layer.foldl join m).interference = m.interference ∧
      (layer.foldl join m).support = m.support := by
  induction layer generalizing m with
  | nil => exact ⟨rfl, rfl, rfl⟩
  | cons a layer ih =>
    have hjoin : (m.join a).effects = m.effects ∧ (m.join a).interference = m.interference ∧
        (m.join a).support = m.support := by
      rw [join]
      split <;> exact ⟨rfl, rfl, rfl⟩
    rw [List.foldl_cons, ← hjoin.1, ← hjoin.2.1, ← hjoin.2.2]
    exact ih (m.join a)

/-- The other actions listed for an atom that an action deletes, as pairs. -/
theorem mem_pairsOver {index : ActionIndex} {a : NumberedAction} {x : Atom} {p : ActionPair} :
    p ∈ pairsOver index a x ↔ ∃ i ∈ index.idsOf x, a.id ≠ i ∧ p = .of a.id i := by
  simp only [pairsOver, List.mem_map, List.mem_filter, decide_eq_true_eq]
  exact exists_congr fun i => by rw [and_assoc, eq_comm (a := p)]

/-- Pairs found through an index are those found by comparing the actions. -/
private theorem mem_pairs_of_index {index : ActionIndex} {atomsOf : GroundAction → List Atom}
    (hactions : ∀ a, a ∈ m.actions ↔ a ∈ enabled)
    (hindex : ∀ x i, i ∈ index.idsOf x ↔ ∃ a ∈ enabled, a.id = i ∧ x ∈ atomsOf a.action)
    (p : ActionPair) :
    (∃ a ∈ m.actions, ∃ x ∈ a.action.deletes, p ∈ pairsOver index a x) ↔
      p ∈ pairsWhere (fun a b => ∃ x ∈ a.deletes, x ∈ atomsOf b) enabled := by
  rw [mem_pairsWhere]
  simp only [mem_pairsOver, hactions, hindex]
  constructor
  · rintro ⟨a, ha, x, hx, _, ⟨b, hb, rfl, hxb⟩, hne, rfl⟩
    exact ⟨a, ha, b, hb, hne, rfl, x, hx, hxb⟩
  · rintro ⟨a, ha, b, hb, hne, rfl, x, hx, hxb⟩
    exact ⟨a, ha, x, hx, _, ⟨b, hb, rfl, hxb⟩, hne, rfl⟩

theorem Indexes.mem_interferingPairs (h : Indexes enabled m) (state : State) (p : ActionPair) :
    p ∈ m.interferingPairs ↔ Interfering enabled state p := by
  simp only [interferingPairs, List.mem_flatMap]
  exact mem_pairs_of_index h.mem_actions h.requirers p

theorem Indexes.mem_effectMutexes (h : Indexes enabled m) (state : State) (e : EffectMutex) :
    e ∈ m.effectMutexes state ↔ Inconsistent enabled state e := by
  simp only [effectMutexes, List.mem_flatMap, List.mem_append, List.mem_map]
  cases e with
  | actions p =>
    have hfact : ∀ (a : NumberedAction) (x : Atom),
        ¬ EffectMutex.actions p ∈ if state.holds x then [EffectMutex.actionFact a.id x] else [] := by
      intro a x
      split <;> simp
    simp only [hfact, or_false, EffectMutex.actions.injEq, exists_eq_right]
    exact mem_pairs_of_index h.mem_actions h.adders p
  | actionFact i x =>
    have hfact : ∀ (a : NumberedAction) (y : Atom),
        (EffectMutex.actionFact i x ∈
          if state.holds y then [EffectMutex.actionFact a.id y] else []) ↔
        a.id = i ∧ y = x ∧ Fact.holding y ∈ state := by
      intro a y
      rw [← State.holds_iff]
      split
      · case isTrue hs =>
        simp only [List.mem_singleton, EffectMutex.actionFact.injEq, hs, and_true]
        rw [eq_comm (a := i), eq_comm (a := x)]
      · case isFalse hs => simp [hs]
    simp only [hfact, reduceCtorEq, and_false, exists_false, false_or, h.mem_actions, Inconsistent]
    constructor
    · rintro ⟨a, ha, y, hy, hid, rfl, hstate⟩
      exact ⟨⟨a, ha, hid, hy⟩, hstate⟩
    · rintro ⟨⟨a, ha, hid, hy⟩, hstate⟩
      exact ⟨a, ha, x, hy, hid, rfl, hstate⟩

end Joining

section Runs

variable {actions : List GroundAction}

theorem run_concat (calls : List (Call actions)) (c : Call actions) :
    run (calls ++ [c]) = (run calls).analyse c.level c.state c.layer := by
  rw [run, run, List.foldl_append, List.foldl_cons, List.foldl_nil]

theorem mem_ofList_of_mem_enabledIn {calls : List (Call actions)} {a : NumberedAction}
    (h : a ∈ enabledIn calls) : a ∈ NumberedAction.ofList actions := by
  obtain ⟨c, -, ha⟩ := List.mem_flatMap.mp h
  exact c.mem_actions a ha

/-- The calls before the last one hold what they held. -/
theorem holdsAt_append {α : Type} {relation : List NumberedAction → State → α → Prop}
    (calls more : List (Call actions)) {k : Nat} (hk : k < calls.length) (entry : α) :
    HoldsAt relation (calls ++ more) k entry ↔ HoldsAt relation calls k entry := by
  rw [HoldsAt, HoldsAt, List.getElem?_append_left hk,
    List.take_append_of_le_length (by omega : k + 1 ≤ calls.length)]

theorem holdsAt_concat {α : Type} {relation : List NumberedAction → State → α → Prop}
    (calls : List (Call actions)) (c : Call actions) (entry : α) :
    HoldsAt relation (calls ++ [c]) calls.length entry ↔
      relation (enabledIn (calls ++ [c])) c.state entry := by
  have hlast : (calls ++ [c])[calls.length]? = some c := by simp
  have htake : (calls ++ [c]).take (calls.length + 1) = calls ++ [c] :=
    List.take_of_length_le (by simp)
  rw [HoldsAt, hlast, htake]
  simp only [Option.some.injEq, exists_eq_left']

/-- What a history has after the calls: its indexes are right, and each relation was recorded
call by call. -/
structure Analysed (calls : List (Call actions)) (m : MutexHistory) : Prop where
  indexes : Indexes (enabledIn calls) m
  effects : m.effects.Recorded (calls.map Call.level) (HoldsAt Inconsistent calls)
  interference : m.interference.Recorded (calls.map Call.level) (HoldsAt Interfering calls)
  support : m.support.Recorded (calls.map Call.level) (HoldsAt Conflicting calls)

/-- One call keeps the invariant, whatever its level and state. -/
theorem analysed_concat {calls : List (Call actions)} {m : MutexHistory} (h : Analysed calls m)
    (c : Call actions) : Analysed (calls ++ [c]) (m.analyse c.level c.state c.layer) := by
  have hindexes : Indexes (enabledIn (calls ++ [c])) (c.layer.foldl join m) := by
    rw [enabledIn, List.flatMap_append, List.flatMap_singleton]
    exact indexes_foldl_join h.indexes (fun b hb => mem_ofList_of_mem_enabledIn hb) c.mem_actions
  have hrecord : ∀ {α : Type} [Ord α] [Std.TransOrd α] [Std.LawfulEqOrd α]
      {relation : List NumberedAction → State → α → Prop} {t : Timeline α} {entries : List α},
      t.Recorded (calls.map Call.level) (HoldsAt relation calls) →
      (∀ e, e ∈ entries ↔ relation (enabledIn (calls ++ [c])) c.state e) →
      (t.recordAll c.level entries).Recorded ((calls ++ [c]).map Call.level)
        (HoldsAt relation (calls ++ [c])) := by
    intro α _ _ _ relation t entries ht hentries
    rw [List.map_append, List.map_singleton]
    refine Timeline.recorded_recordAll ht c.level ?_ ?_
    · intro k hk e
      exact holdsAt_append calls [c] (by simpa using hk) e
    · intro e
      rw [hentries, List.length_map, holdsAt_concat]
  obtain ⟨heffects, hinterference, hsupport⟩ := foldl_join_timelines m c.layer
  constructor
  · exact ⟨hindexes.mem_actions, hindexes.ids_eq, hindexes.mem_seen, hindexes.adders,
      hindexes.requirers⟩
  · exact hrecord (heffects ▸ h.effects) (hindexes.mem_effectMutexes c.state)
  · exact hrecord (hinterference ▸ h.interference) (hindexes.mem_interferingPairs c.state)
  · exact hrecord (hsupport ▸ h.support) fun _ => State.mem_conflicts

theorem analysed_run (calls : List (Call actions)) : Analysed calls (run calls) := by
  induction calls using List.reverseRecOn with
  | nil =>
    exact ⟨indexes_empty, Timeline.recorded_empty _, Timeline.recorded_empty _,
      Timeline.recorded_empty _⟩
  | append_singleton calls c ih =>
    rw [run_concat]
    exact analysed_concat ih c

theorem enabledIn_take_subset (calls : List (Call actions)) (k : Nat) :
    enabledIn (calls.take k) ⊆ enabledIn calls := by
  intro a ha
  obtain ⟨c, hc, hac⟩ := List.mem_flatMap.mp ha
  exact List.mem_flatMap.mpr ⟨c, List.mem_of_mem_take hc, hac⟩

/-- A pair that counts at some call counts over all layers, and the other way round. -/
theorem exists_mem_pairsWhere_iff {related : GroundAction → GroundAction → Prop}
    {calls : List (Call actions)} {p : ActionPair} :
    (∃ k < calls.length, ∃ c, calls[k]? = some c ∧
      p ∈ pairsWhere related (enabledIn (calls.take (k + 1)))) ↔
    p ∈ pairsWhere related (enabledIn calls) := by
  constructor
  · rintro ⟨k, -, -, -, hp⟩
    exact pairsWhere_mono (enabledIn_take_subset calls (k + 1)) hp
  · intro hp
    obtain ⟨a, ha, -⟩ := id hp
    obtain ⟨c, hc, -⟩ := List.mem_flatMap.mp ha
    have hpos : 0 < calls.length := List.length_pos_of_mem hc
    refine ⟨calls.length - 1, by omega, calls[calls.length - 1], List.getElem?_eq_getElem _, ?_⟩
    rwa [List.take_of_length_le (by omega)]

theorem Analysed.mem_interference_iff {calls : List (Call actions)} {m : MutexHistory}
    (h : Analysed calls m) (p : ActionPair) :
    p ∈ m.interference.entries ↔ p ∈ pairsWhere GroundAction.Disables (enabledIn calls) := by
  rw [Timeline.mem_entries, h.interference.mem_all, List.length_map]
  exact exists_mem_pairsWhere_iff

theorem Analysed.mem_effects_iff {calls : List (Call actions)} {m : MutexHistory}
    (h : Analysed calls m) (p : ActionPair) :
    EffectMutex.actions p ∈ m.effects.entries ↔
      p ∈ pairsWhere GroundAction.Undoes (enabledIn calls) := by
  rw [Timeline.mem_entries, h.effects.mem_all, List.length_map]
  exact exists_mem_pairsWhere_iff

/-- That an entry stands at one level and no other: that of the first call at which it stood in
the relation. -/
def StandsAtFirst {α : Type} [Ord α] [Std.TransOrd α]
    (relation : List NumberedAction → State → α → Prop) (calls : List (Call actions))
    (t : Timeline α) : Prop :=
  ∀ e, (∀ level, e ∈ t.atLevel level → e ∈ t.entries) ∧
    (e ∈ t.entries → ∃ k c, calls[k]? = some c ∧ IsLeast {j | HoldsAt relation calls j e} k ∧
      ∀ level, e ∈ t.atLevel level ↔ level = c.level)

theorem standsAtFirst_of_recorded {α : Type} [Ord α] [Std.TransOrd α] [Std.LawfulEqOrd α]
    {relation : List NumberedAction → State → α → Prop} {calls : List (Call actions)}
    {t : Timeline α} (h : t.Recorded (calls.map Call.level) (HoldsAt relation calls)) :
    StandsAtFirst relation calls t := by
  intro e
  constructor
  · intro level hlevel
    obtain ⟨k, hk, hleast⟩ := (h.mem_atLevel e level).mp hlevel
    have hlt := (List.getElem?_eq_some_iff.mp hk).1
    exact Timeline.mem_entries.mpr ((h.mem_all e).mpr ⟨k, hlt, hleast.1⟩)
  · intro he
    obtain ⟨level, hlevel, hunique⟩ := h.existsUnique (Timeline.mem_entries.mp he)
    obtain ⟨k, hk, hleast⟩ := (h.mem_atLevel e level).mp hlevel
    rw [List.getElem?_map, Option.map_eq_some_iff] at hk
    obtain ⟨c, hc, rfl⟩ := hk
    refine ⟨k, c, hc, hleast, fun l => ⟨hunique l, ?_⟩⟩
    rintro rfl
    exact hlevel

/-- The history equals the pairwise comparison, for every sequence of calls. The pairs are those
of the actions enabled by any call, an action with an atom is recorded iff it was enabled by the
time of a call whose state has the atom, and a conflict iff the state of a call has it. Every
entry stands at one level, that of the first call that shows it, and a pair names two different
actions, the smaller number first. The actions are listed once, in order of first appearance. -/
theorem run_eq_pairwise (actions : List GroundAction) (calls : List (Call actions)) :
    (∀ p, p ∈ (run calls).interference.entries ↔
      p ∈ pairsWhere GroundAction.Disables (enabledIn calls)) ∧
    (∀ p, EffectMutex.actions p ∈ (run calls).effects.entries ↔
      p ∈ pairsWhere GroundAction.Undoes (enabledIn calls)) ∧
    (∀ i x, EffectMutex.actionFact i x ∈ (run calls).effects.entries ↔
      ∃ k c, calls[k]? = some c ∧ Fact.holding x ∈ c.state ∧
        ∃ a ∈ enabledIn (calls.take (k + 1)), a.id = i ∧ x ∈ a.action.deletes) ∧
    (∀ x, x ∈ (run calls).support.entries ↔
      ∃ c ∈ calls, Fact.holding x ∈ c.state ∧ Fact.deleted x ∈ c.state) ∧
    StandsAtFirst Interfering calls (run calls).interference ∧
    StandsAtFirst Inconsistent calls (run calls).effects ∧
    StandsAtFirst Conflicting calls (run calls).support ∧
    (∀ level, (level < (run calls).interference.levelCount ↔ ∃ c ∈ calls, level ≤ c.level) ∧
      (level < (run calls).effects.levelCount ↔ ∃ c ∈ calls, level ≤ c.level) ∧
      (level < (run calls).support.levelCount ↔ ∃ c ∈ calls, level ≤ c.level)) ∧
    (∀ p, p ∈ (run calls).interference.entries ∨
      EffectMutex.actions p ∈ (run calls).effects.entries → p.first < p.second) ∧
    (run calls).ids = ((enabledIn calls).map NumberedAction.id).eraseDups := by
  have h := analysed_run calls
  have hlen : (calls.map Call.level).length = calls.length := List.length_map ..
  have hinterference : ∀ p, p ∈ (run calls).interference.entries ↔
      p ∈ pairsWhere GroundAction.Disables (enabledIn calls) := by
    intro p
    rw [Timeline.mem_entries, h.interference.mem_all, hlen]
    exact exists_mem_pairsWhere_iff
  have heffects : ∀ p, EffectMutex.actions p ∈ (run calls).effects.entries ↔
      p ∈ pairsWhere GroundAction.Undoes (enabledIn calls) := by
    intro p
    rw [Timeline.mem_entries, h.effects.mem_all, hlen]
    exact exists_mem_pairsWhere_iff
  have hcount : ∀ level, (∃ l ∈ calls.map Call.level, level ≤ l) ↔ ∃ c ∈ calls, level ≤ c.level := by
    simp
  refine ⟨hinterference, heffects, ?_, ?_, standsAtFirst_of_recorded h.interference,
    standsAtFirst_of_recorded h.effects, standsAtFirst_of_recorded h.support, ?_, ?_,
    h.indexes.ids_eq⟩
  · intro i x
    rw [Timeline.mem_entries, h.effects.mem_all, hlen]
    constructor
    · rintro ⟨k, -, c, hc, ha, hstate⟩
      exact ⟨k, c, hc, hstate, ha⟩
    · rintro ⟨k, c, hc, hstate, ha⟩
      exact ⟨k, (List.getElem?_eq_some_iff.mp hc).1, c, hc, ha, hstate⟩
  · intro x
    rw [Timeline.mem_entries, h.support.mem_all, hlen]
    constructor
    · rintro ⟨k, -, c, hc, hx⟩
      exact ⟨c, List.mem_of_getElem? hc, hx⟩
    · rintro ⟨c, hc, hx⟩
      obtain ⟨k, hk⟩ := List.mem_iff_getElem?.mp hc
      exact ⟨k, (List.getElem?_eq_some_iff.mp hk).1, c, hk, hx⟩
  · intro level
    exact ⟨(h.interference.levelCount level).trans (hcount level),
      (h.effects.levelCount level).trans (hcount level),
      (h.support.levelCount level).trans (hcount level)⟩
  · intro p hp
    rw [hinterference, heffects] at hp
    rcases hp with ⟨a, -, b, -, hne, rfl, -⟩ | ⟨a, -, b, -, hne, rfl, -⟩
    · exact ActionPair.first_lt_second_of_ne hne
    · exact ActionPair.first_lt_second_of_ne hne

end Runs

end StripsReach.MutexHistory
