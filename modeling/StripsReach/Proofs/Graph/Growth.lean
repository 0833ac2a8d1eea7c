import Mathlib.Data.List.Forall2
import Mathlib.Logic.Function.Iterate
import StripsReach.Graph.Termination
import StripsReach.Proofs.Least

/-!
# Growth level by level

Both graphs repeat one step from their first level until it changes nothing, and keep a layer for
every level on the way. What the step gives after any number of times is then found among the
levels that were built.
-/

namespace StripsReach

/-- That `step` changes something each of the first `last` times, and nothing after them. -/
structure StopsAt {σ : Type} (step : σ → σ) (start : σ) (last : Nat) : Prop where
  changes : ∀ i < last, step^[i + 1] start ≠ step^[i] start
  fixed : step (step^[last] start) = step^[last] start

namespace StopsAt

variable {σ : Type} {step : σ → σ} {start : σ} {last : Nat}

theorem iterate_of_le (h : StopsAt step start last) {n : Nat} (hn : last ≤ n) :
    step^[n] start = step^[last] start := by
  obtain ⟨k, rfl⟩ := Nat.exists_eq_add_of_le hn
  rw [Nat.add_comm, Function.iterate_add_apply]
  exact Function.iterate_fixed h.fixed k

theorem iterate_min (h : StopsAt step start last) (n : Nat) :
    step^[min n last] start = step^[n] start := by
  rcases Nat.le_total n last with hn | hn
  · rw [Nat.min_eq_left hn]
  · rw [Nat.min_eq_right hn, h.iterate_of_le hn]

theorem zero (h : step start = start) : StopsAt step start 0 :=
  ⟨fun _ hi => absurd hi (Nat.not_lt_zero _), h⟩

theorem succ (h : StopsAt step (step start) last) (hne : step start ≠ start) :
    StopsAt step start (last + 1) := by
  constructor
  · intro i hi
    cases i with
    | zero => exact hne
    | succ i => exact h.changes i (by omega)
  · exact h.fixed

end StopsAt

/-- How a graph grows: the step from level to level, the numbers of the actions that a level
enables, and the layer made of a level's number, its contents and the actions before it. -/
structure Growth (σ κ : Type) where
  step : σ → σ
  enabled : σ → List Nat
  layer : Nat → σ → List Nat → κ
  step_eq_self : ∀ s, enabled s = [] → step s = s

namespace Growth

variable {σ κ : Type} (G : Growth σ κ) {level : Nat} {start : σ} {applied : List Nat}

/-- The layer that follows `n` steps. -/
def layerAfter (level : Nat) (start : σ) (n : Nat) : κ :=
  G.layer (level + n + 1) (G.step^[n + 1] start) (G.enabled (G.step^[n] start))

/-- The actions that a level is listed with: `applied` for the first level, and after that what
the level before enables. -/
def appliedAt (start : σ) (applied : List Nat) : Nat → List Nat
  | 0 => applied
  | n + 1 => G.enabled (G.step^[n] start)

/-- What a graph consists of that has grown from `level` on. -/
structure Levels (level : Nat) (start : σ) (applied : List Nat) (layers : List κ)
    (termination : Termination) : Prop where
  layers_eq : layers = G.layer level start applied ::
    (List.range (layers.length - 1)).map (G.layerAfter level start)
  stops : StopsAt G.step start (layers.length - 1)
  enabled : ∀ i < layers.length - 1, G.enabled (G.step^[i] start) ≠ []
  level_eq : termination.level = level + (layers.length - 1)
  kind : termination.kind = .deadEnd ↔ G.enabled (G.step^[layers.length - 1] start) = []

variable {G}

theorem levels_deadEnd (h : G.enabled start = []) :
    G.Levels level start applied [G.layer level start applied] ⟨.deadEnd, level⟩ where
  layers_eq := rfl
  stops := .zero (G.step_eq_self start h)
  enabled := fun _ hi => absurd hi (Nat.not_lt_zero _)
  level_eq := rfl
  kind := iff_of_true rfl h

theorem levels_fixpoint (h : G.enabled start ≠ []) (hfix : G.step start = start) :
    G.Levels level start applied [G.layer level start applied] ⟨.fixpoint, level⟩ where
  layers_eq := rfl
  stops := .zero hfix
  enabled := fun _ hi => absurd hi (Nat.not_lt_zero _)
  level_eq := rfl
  kind := iff_of_false nofun h

namespace Levels

variable {layers : List κ} {termination : Termination}

theorem length_eq (h : G.Levels level start applied layers termination) :
    layers.length = layers.length - 1 + 1 := by
  have hlen := congrArg List.length h.layers_eq
  simp only [List.length_cons, List.length_map, List.length_range] at hlen
  exact hlen

/-- One more level in front. -/
theorem cons (h : G.Levels (level + 1) (G.step start) (G.enabled start) layers termination)
    (henabled : G.enabled start ≠ []) (hne : G.step start ≠ start) :
    G.Levels level start applied (G.layer level start applied :: layers) termination := by
  have hlast : (G.layer level start applied :: layers).length - 1 = layers.length - 1 + 1 := by
    rw [List.length_cons, Nat.add_sub_cancel]
    exact h.length_eq
  constructor
  · have hshift : G.layerAfter level start ∘ Nat.succ = G.layerAfter (level + 1) (G.step start) := by
      funext n
      simp only [Function.comp_apply, layerAfter, Nat.succ_eq_add_one, Function.iterate_succ_apply,
        Nat.add_assoc, Nat.add_comm 1]
    rw [hlast, List.range_succ_eq_map, List.map_cons, List.map_map, hshift]
    exact congrArg _ h.layers_eq
  · rw [hlast]
    exact h.stops.succ hne
  · rw [hlast]
    intro i hi
    cases i with
    | zero => exact henabled
    | succ i => exact h.enabled i (by omega)
  · rw [hlast, h.level_eq]
    omega
  · rw [hlast]
    exact h.kind

theorem getElem?_succ (h : G.Levels level start applied layers termination) {n : Nat}
    (hn : n < layers.length - 1) : layers[n + 1]? = some (G.layerAfter level start n) := by
  rw [h.layers_eq, List.getElem?_cons_succ, List.getElem?_map, List.getElem?_range hn,
    Option.map_some]

theorem getElem? (h : G.Levels 0 start applied layers termination) {n : Nat}
    (hn : n ≤ layers.length - 1) :
    layers[n]? = some (G.layer n (G.step^[n] start) (G.appliedAt start applied n)) := by
  cases n with
  | zero =>
    rw [h.layers_eq, List.getElem?_cons_zero]
    rfl
  | succ n =>
    rw [h.getElem?_succ (by omega), layerAfter, Nat.zero_add]
    rfl

theorem le_last (h : G.Levels level start applied layers termination) {n : Nat} {l : κ}
    (hl : layers[n]? = some l) : n ≤ layers.length - 1 := by
  have hn := (List.getElem?_eq_some_iff.mp hl).1
  have hlength := h.length_eq
  omega

/-- A layer is told by its number. -/
theorem layer_eq (h : G.Levels 0 start applied layers termination) {n : Nat} {l : κ}
    (hl : layers[n]? = some l) :
    l = G.layer n (G.step^[n] start) (G.appliedAt start applied n) := by
  have hn := h.getElem? (h.le_last hl)
  rw [hl] at hn
  exact Option.some.inj hn

/-- The first layer that passes a test has the number of steps after which what it tests first
holds. A test that no layer passes is never passed later either. -/
theorem leastOf_find? (h : G.Levels 0 start applied layers termination) (test : κ → Bool)
    (number : κ → Nat) (P : σ → Prop) (hnumber : ∀ n s ids, number (G.layer n s ids) = n)
    (htest : ∀ n s ids, test (G.layer n s ids) = true ↔ P s) :
    LeastOf ((layers.find? test).map number) {n | P (G.step^[n] start)} := by
  have hlength := h.length_eq
  have hlayer : ∀ i (hi : i < layers.length), number layers[i] = i ∧
      (test layers[i] = true ↔ P (G.step^[i] start)) := by
    intro i hi
    have heq := h.layer_eq (List.getElem?_eq_getElem hi)
    rw [heq]
    exact ⟨hnumber _ _ _, htest _ _ _⟩
  intro v
  simp only [Option.map_eq_some_iff, List.find?_eq_some_iff_getElem, Bool.not_eq_true',
    Bool.eq_false_iff, ne_eq]
  constructor
  · rintro ⟨l, ⟨htrue, i, hi, rfl, hfirst⟩, rfl⟩
    rw [(hlayer i hi).1]
    refine ⟨(hlayer i hi).2.mp htrue, fun k hk => ?_⟩
    by_contra hlt
    exact hfirst k (by omega) ((hlayer k (by omega)).2.mpr hk)
  · rintro ⟨hv, hlow⟩
    -- What holds after `v` steps holds after the last one at the latest.
    have hmin : min v (layers.length - 1) ∈ {n | P (G.step^[n] start)} := by
      change P (G.step^[min v (layers.length - 1)] start)
      rwa [h.stops.iterate_min]
    have hle := hlow hmin
    have hi : v < layers.length := by omega
    refine ⟨layers[v], ⟨(hlayer v hi).2.mpr hv, v, hi, rfl, fun k hk hlk => ?_⟩, (hlayer v hi).1⟩
    have hlow_k := hlow ((hlayer k (by omega)).2.mp hlk)
    omega

/-- The last level is the first after which growth stops: it enables no action, or a step changes
nothing. -/
theorem isLeast_stops (h : G.Levels level start applied layers termination) :
    IsLeast {n | G.enabled (G.step^[n] start) = [] ∨ G.step (G.step^[n] start) = G.step^[n] start}
      (layers.length - 1) := by
  constructor
  · exact .inr h.stops.fixed
  · intro n hn
    by_contra hlt
    have hbefore : n < layers.length - 1 := Nat.lt_of_not_le hlt
    rcases hn with hnone | hsame
    · exact h.enabled n hbefore hnone
    · refine h.stops.changes n hbefore ?_
      rw [Function.iterate_succ_apply']
      exact hsame

/-- If no enabled action is ever lost, the graph ends for lack of enabled actions only if there
are none from the start. -/
theorem kind_eq_deadEnd_iff (h : G.Levels level start applied layers termination)
    (hkept : ∀ n, G.enabled start ⊆ G.enabled (G.step^[n] start)) :
    termination.kind = .deadEnd ↔ G.enabled start = [] := by
  rw [h.kind]
  constructor
  · intro hnone
    have hsub := hkept (layers.length - 1)
    rw [hnone] at hsub
    exact List.eq_nil_of_subset_nil hsub
  · intro hnone
    rw [Function.iterate_fixed (G.step_eq_self start hnone)]
    exact hnone

theorem length_eq_level_succ (h : G.Levels 0 start applied layers termination) :
    layers.length = termination.level + 1 := by
  have hlength := h.length_eq
  have hlevel := h.level_eq
  omega

/-- Where the first level enables no action, there is no other level. -/
theorem eq_singleton (h : G.Levels level start applied layers termination)
    (hnone : G.enabled start = []) : layers = [G.layer level start applied] := by
  have hlast : layers.length - 1 = 0 := by
    by_contra hmore
    exact h.enabled 0 (Nat.pos_of_ne_zero hmore) hnone
  have hlayers := h.layers_eq
  rwa [hlast, List.range_zero, List.map_nil] at hlayers

/-- Where a graph does not end for lack of enabled actions, its last level enables some, and a step
from there changes nothing. -/
theorem fixpoint_at_last (h : G.Levels 0 start applied layers termination)
    (hkind : termination.kind ≠ .deadEnd) :
    G.enabled (G.step^[termination.level] start) ≠ [] ∧
      G.step (G.step^[termination.level] start) = G.step^[termination.level] start := by
  have hlevel : termination.level = layers.length - 1 := by
    rw [h.level_eq, Nat.zero_add]
  rw [hlevel]
  exact ⟨fun hnone => hkind (h.kind.mpr hnone), h.stops.fixed⟩

section Congr

variable {H : Growth σ κ} {others : List κ} {ending : Termination} {before : List Nat}

/-- Two graphs that take the same steps from the same start, and have nothing to apply at the same
levels, are of one length. -/
theorem length_congr (h : G.Levels level start applied layers termination)
    (hother : H.Levels level start before others ending) (hstep : G.step = H.step)
    (hnone : ∀ s, G.enabled s = [] ↔ H.enabled s = []) : layers.length = others.length := by
  have hstops := h.isLeast_stops
  simp only [hnone, hstep] at hstops
  rw [h.length_eq, hother.length_eq, hstops.unique hother.isLeast_stops]

theorem termination_congr (h : G.Levels level start applied layers termination)
    (hother : H.Levels level start before others ending) (hstep : G.step = H.step)
    (hnone : ∀ s, G.enabled s = [] ↔ H.enabled s = []) : termination = ending := by
  have hlength := h.length_congr hother hstep hnone
  have hlevel : termination.level = ending.level := by
    rw [h.level_eq, hother.level_eq, hlength]
  have hkind : termination.kind = .deadEnd ↔ ending.kind = .deadEnd := by
    rw [h.kind, hother.kind, hlength, hstep, hnone]
  obtain ⟨kind, level⟩ := termination
  obtain ⟨kind', level'⟩ := ending
  obtain rfl : level = level' := hlevel
  cases kind <;> cases kind' <;> simp_all

/-- The layers of two such graphs stand in a relation, one by one, if the levels do. -/
theorem forall₂_congr {related : κ → κ → Prop} (h : G.Levels 0 start applied layers termination)
    (hother : H.Levels 0 start before others ending) (hstep : G.step = H.step)
    (hnone : ∀ s, G.enabled s = [] ↔ H.enabled s = [])
    (hlayer : ∀ n, related (G.layer n (G.step^[n] start) (G.appliedAt start applied n))
      (H.layer n (G.step^[n] start) (H.appliedAt start before n))) :
    List.Forall₂ related layers others := by
  refine List.forall₂_iff_get.mpr ⟨h.length_congr hother hstep hnone, fun n hn hn' => ?_⟩
  have heq := h.layer_eq (List.getElem?_eq_getElem hn)
  have heq' := hother.layer_eq (List.getElem?_eq_getElem hn')
  rw [List.get_eq_getElem, List.get_eq_getElem, heq, heq', ← hstep]
  exact hlayer n

end Congr

end Levels

end Growth

end StripsReach
