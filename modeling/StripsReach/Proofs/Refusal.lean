import Mathlib.Data.List.Basic
import Mathlib.Data.List.Forall2

/-!
# Steps that may be refused

A list is worked through step by step until one is refused. If what a step yields does not depend
on the steps before, the first member that is refused decides; and what every step keeps is kept by
all of them, be it a property of one run, what a run collects, or a relation between two.
-/

namespace StripsReach

variable {α β σ ε : Type}

theorem exists_of_bind_eq_ok {x : Except ε α} {f : α → Except ε β} {b : β}
    (h : x >>= f = .ok b) : ∃ a, x = .ok a ∧ f a = .ok b := by
  cases x with
  | error e => cases h
  | ok a => exact ⟨a, rfl, h⟩

theorem bind_eq_ok_iff {x : Except ε α} {f : α → Except ε β} {b : β} :
    x >>= f = .ok b ↔ ∃ a, x = .ok a ∧ f a = .ok b := by
  refine ⟨exists_of_bind_eq_ok, ?_⟩
  rintro ⟨a, rfl, h⟩
  exact h

/-- The members are worked through apart: the first fault counts, and else all values. -/
theorem mapM_eq_findSome? {f : α → Except ε β} {fault : α → Option ε} {value : α → β}
    (hf : ∀ a, f a = (fault a).elim (.ok (value a)) .error) (l : List α) :
    l.mapM f = (l.findSome? fault).elim (.ok (l.map value)) .error := by
  induction l with
  | nil => rfl
  | cons a l ih =>
    rw [List.mapM_cons, hf, List.findSome?_cons, ih]
    cases fault a with
    | some e => rfl
    | none => cases l.findSome? fault <;> rfl

theorem foldlM_congr {f g : σ → α → Except ε σ} {l : List α}
    (hsame : ∀ a ∈ l, ∀ s, f s a = g s a) (s : σ) : l.foldlM f s = l.foldlM g s := by
  induction l generalizing s with
  | nil => rfl
  | cons a l ih =>
    obtain ⟨hfirst, hrest⟩ := List.forall_mem_cons.mp hsame
    rw [List.foldlM_cons, List.foldlM_cons, hfirst]
    exact bind_congr fun next => ih hrest next

theorem invariant_of_foldlM {f : σ → α → Except ε σ} {P : σ → Prop}
    (hstep : ∀ s a next, P s → f s a = .ok next → P next) {l : List α} {start out : σ}
    (hstart : P start) (hfold : l.foldlM f start = .ok out) : P out := by
  induction l generalizing start with
  | nil =>
    cases hfold
    exact hstart
  | cons a l ih =>
    rw [List.foldlM_cons] at hfold
    obtain ⟨mid, hfirst, hrest⟩ := exists_of_bind_eq_ok hfold
    exact ih (hstep start a mid hstart hfirst) hrest

/-- What every step reads is added to a part of the state, and so is what all of them read. -/
theorem forall₂_of_foldlM {τ : Type} {f : σ → α → Except ε σ} {texts : α → List τ}
    {part : σ → List β} {R : τ → β → Prop}
    (hstep : ∀ s a next seen, List.Forall₂ R seen (part s) → f s a = .ok next →
      List.Forall₂ R (seen ++ texts a) (part next))
    {l : List α} {s out : σ} {seen : List τ} (hseen : List.Forall₂ R seen (part s))
    (hfold : l.foldlM f s = .ok out) :
    List.Forall₂ R (seen ++ l.flatMap texts) (part out) := by
  induction l generalizing s seen with
  | nil =>
    cases hfold
    rwa [List.flatMap_nil, List.append_nil]
  | cons a l ih =>
    rw [List.foldlM_cons] at hfold
    obtain ⟨mid, hfirst, hrest⟩ := exists_of_bind_eq_ok hfold
    rw [List.flatMap_cons, ← List.append_assoc]
    exact ih (hstep s a mid seen hseen hfirst) hrest

/-- Two runs over one list stay related if every step that one takes can be taken by the other. -/
theorem exists_foldlM_of_related {f : σ → α → Except ε σ} {related : σ → σ → Prop}
    (hstep : ∀ s t a next, related s t → f s a = .ok next →
      ∃ next', f t a = .ok next' ∧ related next next') {l : List α} {start start' out : σ}
    (hstart : related start start') (hfold : l.foldlM f start = .ok out) :
    ∃ out', l.foldlM f start' = .ok out' ∧ related out out' := by
  induction l generalizing start start' with
  | nil =>
    cases hfold
    exact ⟨start', rfl, hstart⟩
  | cons a l ih =>
    rw [List.foldlM_cons] at hfold
    obtain ⟨mid, hfirst, hrest⟩ := exists_of_bind_eq_ok hfold
    obtain ⟨mid', hfirst', hmid⟩ := hstep start start' a mid hstart hfirst
    rw [List.foldlM_cons, hfirst']
    exact ih hmid hrest

end StripsReach
