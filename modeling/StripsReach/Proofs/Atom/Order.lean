import Mathlib.Order.Defs.Unbundled
import StripsReach.Atom

/-!
# The order of facts

All positive facts come before all negative ones. Facts of one polarity are ordered by predicate and
then by arguments, an argument list before those that extend it, and names by the code points of
their characters. The comparison that states are sorted by is this order, which is total: two facts
neither of which comes before the other are equal.
-/

namespace StripsReach

/-- At the first difference the smaller code point decides, and a name comes before those that
extend it. -/
def Name.Before (a b : Name) : Prop :=
  List.Lex (fun c d : Char => c.toNat < d.toNat) a.toList b.toList

/-- By predicate, then by arguments. -/
def Atom.Before (a b : Atom) : Prop :=
  Name.Before a.predicate b.predicate ∨
    a.predicate = b.predicate ∧ List.Lex Name.Before a.arguments b.arguments

/-- A positive fact before a negative one, and those of one polarity by their atoms. -/
def Fact.Before (f g : Fact) : Prop :=
  f.polarity = .positive ∧ g.polarity = .negative ∨
    f.polarity = g.polarity ∧ f.atom.Before g.atom

theorem Name.compare_eq_lt_iff {a b : Name} : compare a b = .lt ↔ Name.Before a b := by
  show compareOfLessAndEq a b = .lt ↔ a < b
  exact compareOfLessAndEq_eq_lt

/-- Lists are compared as their members are. -/
theorem compare_list_eq_lt_iff {α : Type} [Ord α] [Std.LawfulEqOrd α] {before : α → α → Prop}
    (hbefore : ∀ a b, compare a b = .lt ↔ before a b) {as bs : List α} :
    compare as bs = .lt ↔ List.Lex before as bs := by
  induction as generalizing bs with
  | nil =>
    cases bs with
    | nil => exact iff_of_false (by simp) List.not_lex_nil
    | cons b bs => exact iff_of_true rfl .nil
  | cons a as ih =>
    cases bs with
    | nil => exact iff_of_false nofun List.not_lex_nil
    | cons b bs =>
      rw [List.compare_cons_cons, Ordering.then_eq_lt, hbefore, ih,
        Std.LawfulEqCmp.compare_eq_iff_eq, List.cons_lex_cons_iff]

theorem Atom.compare_eq_lt_iff {a b : Atom} : compare a b = .lt ↔ a.Before b := by
  show (compareLex (compareOn Atom.predicate) (compareOn Atom.arguments)) a b = .lt ↔ _
  rw [compareLex, Ordering.then_eq_lt, compareOn, compareOn, Name.compare_eq_lt_iff,
    Std.LawfulEqCmp.compare_eq_iff_eq,
    compare_list_eq_lt_iff fun _ _ => Name.compare_eq_lt_iff]
  rfl

theorem Polarity.compare_rank_eq_lt_iff {p q : Polarity} :
    compare p.rank q.rank = .lt ↔ p = .positive ∧ q = .negative := by
  cases p <;> cases q <;> decide

theorem Polarity.compare_rank_eq_eq_iff {p q : Polarity} : compare p.rank q.rank = .eq ↔ p = q := by
  cases p <;> cases q <;> decide

theorem Fact.compare_eq_lt_iff {f g : Fact} : compare f g = .lt ↔ f.Before g := by
  show (compareLex (compareOn fun f : Fact => f.polarity.rank) (compareOn Fact.atom)) f g = .lt ↔ _
  rw [compareLex, Ordering.then_eq_lt, compareOn, compareOn, Polarity.compare_rank_eq_lt_iff,
    Polarity.compare_rank_eq_eq_iff, Atom.compare_eq_lt_iff]
  rfl

/-- Of two different facts exactly one comes before the other. -/
theorem Fact.isStrictTotalOrder_before : IsStrictTotalOrder Fact Fact.Before where
  irrefl f := by
    have hself : compare f f = .eq := Std.ReflCmp.compare_self
    rw [← compare_eq_lt_iff, hself]
    nofun
  trans f g h hfg hgh := by
    rw [← compare_eq_lt_iff] at *
    exact Std.TransCmp.lt_trans hfg hgh
  trichotomous f g hfg hgf := by
    rw [← compare_eq_lt_iff] at hfg hgf
    have hties : compare f g = .eq := by
      cases hcompare : compare f g with
      | lt => exact absurd hcompare hfg
      | eq => rfl
      | gt => exact absurd (Std.OrientedCmp.gt_iff_lt.mp hcompare) hgf
    exact Std.LawfulEqCmp.eq_of_compare hties

end StripsReach
