import StripsReach.Proofs.Mutex.Relations
import StripsReach.Proofs.Rearrangement

/-!
# Mutexes under other numbers

When actions are numbered anew, the mutexes among them are the same under the new numbers. A pair
is named by the smaller number first, whichever of the two actions has it.
-/

namespace StripsReach

namespace ActionPair

/-- The pair of the same actions when `f` numbers them anew. -/
def renumber (f : Nat → Nat) (p : ActionPair) : ActionPair := of (f p.first) (f p.second)

/-- Either order of the actions gives the same pair. -/
theorem renumber_of (f : Nat → Nat) (a b : Nat) : renumber f (of a b) = of (f a) (f b) := by
  rcases Nat.le_total a b with h | h
  · simp only [renumber, of, Nat.min_eq_left h, Nat.max_eq_right h]
  · simp only [renumber, of, Nat.min_eq_right h, Nat.max_eq_left h]
    exact of_comm (f b) (f a)

theorem renumber_symm_renumber (place : Equiv.Perm Nat) (p : ActionPair) :
    renumber place.symm (renumber place p) = p := by
  obtain ⟨a, b, hab⟩ := p
  have hpair : (⟨a, b, hab⟩ : ActionPair) = of a b := by
    simp only [of, Nat.min_eq_left hab, Nat.max_eq_right hab]
  rw [hpair, renumber_of, renumber_of, Equiv.symm_apply_apply, Equiv.symm_apply_apply]

def rename (place : Equiv.Perm Nat) : Equiv.Perm ActionPair where
  toFun := renumber place
  invFun := renumber place.symm
  left_inv := renumber_symm_renumber place
  right_inv := renumber_symm_renumber place.symm

end ActionPair

namespace EffectMutex

/-- The mutex of the same actions when `f` numbers them anew. -/
def renumber (f : Nat → Nat) : EffectMutex → EffectMutex
  | actions pair => actions (pair.renumber f)
  | actionFact action atom => actionFact (f action) atom

theorem renumber_symm_renumber (place : Equiv.Perm Nat) (m : EffectMutex) :
    renumber place.symm (renumber place m) = m := by
  cases m with
  | actions pair =>
    rw [renumber, renumber, ActionPair.renumber_symm_renumber]
  | actionFact action atom =>
    rw [renumber, renumber, Equiv.symm_apply_apply]

def rename (place : Equiv.Perm Nat) : Equiv.Perm EffectMutex where
  toFun := renumber place
  invFun := renumber place.symm
  left_inv := renumber_symm_renumber place
  right_inv := renumber_symm_renumber place.symm

end EffectMutex

/-- That two timelines have the same entries at the same levels, up to a renaming. -/
structure Timeline.Corresponds {α : Type} [Ord α] [Std.TransOrd α] (rename : Equiv.Perm α)
    (t s : Timeline α) : Prop where
  levelCount : t.levelCount = s.levelCount
  entries : ∀ e, e ∈ t.entries ↔ rename e ∈ s.entries
  atLevel : ∀ level e, e ∈ t.atLevel level ↔ rename e ∈ s.atLevel level

/-- That the entries of a relation come along when actions are numbered anew. Numbers given back
have to give back the entries. -/
structure Renames {α : Type} (relation : List NumberedAction → State → α → Prop)
    (rename : Equiv.Perm Nat → Equiv.Perm α) : Prop where
  carry : ∀ {place : Equiv.Perm Nat} {enabled others : List NumberedAction} {state : State} {e : α},
    Carried place enabled others → relation enabled state e → relation others state (rename place e)
  symm : ∀ place e, rename place.symm (rename place e) = e

theorem Renames.iff {α : Type} {relation : List NumberedAction → State → α → Prop}
    {rename : Equiv.Perm Nat → Equiv.Perm α} (h : Renames relation rename)
    {place : Equiv.Perm Nat} {enabled others : List NumberedAction} {state : State} {e : α}
    (hthere : Carried place enabled others) (hback : Carried place.symm others enabled) :
    relation enabled state e ↔ relation others state (rename place e) := by
  refine ⟨h.carry hthere, fun he => ?_⟩
  have hcarried := h.carry hback he
  rwa [h.symm] at hcarried

namespace GroundAction.Reordered

variable {a b c d : GroundAction}

theorem undoes (hab : a.Reordered b) (hcd : c.Reordered d) (h : a.Undoes c) : b.Undoes d := by
  obtain ⟨x, hdeleted, hadded⟩ := h
  exact ⟨x, hab.deletes.mem_iff.mp hdeleted, hcd.adds.mem_iff.mp hadded⟩

theorem disables (hab : a.Reordered b) (hcd : c.Reordered d) (h : a.Disables c) :
    b.Disables d := by
  obtain ⟨x, hdeleted, hneeded⟩ := h
  exact ⟨x, hab.deletes.mem_iff.mp hdeleted, hcd.needs.mem_iff.mp hneeded⟩

end GroundAction.Reordered

theorem rename_mem_pairsWhere {related : GroundAction → GroundAction → Prop}
    (hrelated : ∀ {a b c d : GroundAction}, a.Reordered b → c.Reordered d →
      related a c → related b d)
    {place : Equiv.Perm Nat} {enabled others : List NumberedAction}
    (hcarried : Carried place enabled others) {p : ActionPair}
    (hp : p ∈ pairsWhere related enabled) :
    ActionPair.rename place p ∈ pairsWhere related others := by
  rw [mem_pairsWhere] at hp ⊢
  obtain ⟨a, ha, b, hb, hne, rfl, hab⟩ := hp
  obtain ⟨c, hc, hcid, hac⟩ := hcarried a ha
  obtain ⟨d, hd, hdid, hbd⟩ := hcarried b hb
  refine ⟨c, hc, d, hd, ?_, ?_, hrelated hac hbd hab⟩
  · rw [hcid, hdid]
    exact fun heq => hne (place.injective heq)
  · rw [hcid, hdid]
    exact ActionPair.renumber_of place a.id b.id

theorem renames_interfering : Renames Interfering ActionPair.rename where
  carry hcarried hp := rename_mem_pairsWhere GroundAction.Reordered.disables hcarried hp
  symm := ActionPair.renumber_symm_renumber

theorem renames_inconsistent : Renames Inconsistent EffectMutex.rename where
  carry := by
    intro place enabled others state e hcarried he
    cases e with
    | actions p => exact rename_mem_pairsWhere GroundAction.Reordered.undoes hcarried he
    | actionFact i x =>
      obtain ⟨⟨a, ha, rfl, hx⟩, hstate⟩ := he
      obtain ⟨b, hb, hid, hab⟩ := hcarried a ha
      exact ⟨⟨b, hb, hid, hab.deletes.mem_iff.mp hx⟩, hstate⟩
  symm := EffectMutex.renumber_symm_renumber

/-- A conflict is one of the state, so its entry names no action. -/
theorem renames_conflicting : Renames Conflicting fun _ => Equiv.refl Atom where
  carry _ he := he
  symm _ _ := rfl

end StripsReach
