/-!
# Counts that fall

A search that marks what it has seen ends because fewer things are left unmarked at every step.
The lemmas here are that step: a count falls if fewer members pass a test, and a total weight
falls if no member weighs more and one weighs less.
-/

namespace StripsReach

/-- If every member that passes `p` passes `q`, and some member passes `q` alone, then fewer
pass `p`. -/
theorem countP_lt_countP {α : Type} {p q : α → Bool} {l : List α} {a : α}
    (hpq : ∀ x ∈ l, p x = true → q x = true) (ha : a ∈ l) (hp : p a = false)
    (hq : q a = true) : l.countP p < l.countP q := by
  induction l with
  | nil => simp at ha
  | cons b l ih =>
    have htail : ∀ x ∈ l, p x = true → q x = true := fun x hx => hpq x (List.mem_cons_of_mem _ hx)
    have hmono : l.countP p ≤ l.countP q := List.countP_mono_left htail
    have hb := hpq b List.mem_cons_self
    simp only [List.countP_cons]
    rcases List.mem_cons.1 ha with rfl | ha
    · simp only [hp, hq]
      simp
      omega
    · have hlt := ih htail ha
      cases hpb : p b
      · simp
        omega
      · simp [hb hpb]
        omega

def totalWeight {α : Type} (weight : α → Nat) : List α → Nat
  | [] => 0
  | a :: l => weight a + totalWeight weight l

theorem totalWeight_le {α : Type} {f g : α → Nat} {l : List α} (hfg : ∀ x ∈ l, f x ≤ g x) :
    totalWeight f l ≤ totalWeight g l := by
  induction l with
  | nil => exact Nat.le_refl _
  | cons b l ih =>
    have hb := hfg b List.mem_cons_self
    have hl := ih fun x hx => hfg x (List.mem_cons_of_mem _ hx)
    simp only [totalWeight]
    omega

/-- If no member weighs more by `f` than by `g`, and some member weighs less, then all together
weigh less. -/
theorem totalWeight_lt {α : Type} {f g : α → Nat} {l : List α} {a : α}
    (hfg : ∀ x ∈ l, f x ≤ g x) (ha : a ∈ l) (hlt : f a < g a) :
    totalWeight f l < totalWeight g l := by
  induction l with
  | nil => simp at ha
  | cons b l ih =>
    have htail : ∀ x ∈ l, f x ≤ g x := fun x hx => hfg x (List.mem_cons_of_mem _ hx)
    have hb := hfg b List.mem_cons_self
    simp only [totalWeight]
    rcases List.mem_cons.1 ha with rfl | ha
    · have hle := totalWeight_le htail
      omega
    · have := ih htail ha
      omega

/-- The key that a look-up finds its value under is in the list with that value. -/
theorem mem_of_lookup_eq_some {α β : Type} [BEq α] [LawfulBEq α] {l : List (α × β)} {a : α}
    {b : β} (h : l.lookup a = some b) : (a, b) ∈ l := by
  induction l with
  | nil => simp at h
  | cons pair l ih =>
    obtain ⟨x, y⟩ := pair
    simp only [List.lookup_cons] at h
    by_cases hx : a = x
    · subst hx
      simp only [beq_self_eq_true] at h
      simp_all
    · have hb : (a == x) = false := by simpa using hx
      rw [hb] at h
      exact List.mem_cons_of_mem _ (ih h)

end StripsReach
