import StripsReach.Proofs.Catalog.Closing

/-!
# Circles of types

A catalog is refused exactly where the hierarchy it is asked for runs in a circle. The objects and
the flattening rules have no say in this: types that only declarations name lie on no circle,
and where a rule leaves a type out, the way down goes on right below it.
-/

namespace StripsReach.Catalog

open TypeHierarchy

variable {h : TypeHierarchy} {declarations : TypedList} {flattened : List FlattenedSubtype}
  {c : Catalog} {t : Name}

theorem IsClosure.not_below_self (hclosure : IsClosure h declarations flattened c)
    (hw : h.WellFormed) : ¬ h.Below t t :=
  fun hcycle => not_below_self_of_acc hw (hclosure.acc t (hw.mem_types_of_below hcycle)) hcycle

theorem not_below_self_of_close (hr : h.Reached) (hclose : close h declarations flattened = .ok c) :
    ¬ h.Below t t := by
  rw [← below_self_extended_iff hr]
  exact (isClosure_of_close hr hclose).not_below_self (reached_extended hr).wellFormed

/-- Closing always comes to an end. It ends in a fault exactly if some type is its own indirect
supertype, and the fault then names such a type. -/
theorem close_eq_error_iff_cyclic (hr : h.Reached) (declarations : TypedList)
    (flattened : List FlattenedSubtype) :
    ((∃ fault, close h declarations flattened = .error fault) ↔ ∃ t ∈ h.types, h.Below t t) ∧
      (∀ fault, close h declarations flattened = .error fault →
        ∃ t ∈ h.types, fault = .cyclicTypes t ∧ h.Below t t) ∧
      ((∃ c, close h declarations flattened = .ok c) ↔ ∀ t ∈ h.types, ¬ h.Below t t) := by
  have hfault : ∀ fault, close h declarations flattened = .error fault →
      ∃ t ∈ h.types, fault = .cyclicTypes t ∧ h.Below t t := by
    intro fault hclose
    obtain ⟨t, rfl, hcycle⟩ := below_self_of_close hr hclose
    exact ⟨t, hr.wellFormed.mem_types_of_below hcycle, rfl, hcycle⟩
  cases hclose : close h declarations flattened with
  | error fault =>
    obtain ⟨t, ht, rfl, hcycle⟩ := hfault fault hclose
    refine ⟨⟨fun _ => ⟨t, ht, hcycle⟩, fun _ => ⟨_, rfl⟩⟩, ?_, ?_⟩
    · rintro _ ⟨⟩
      exact ⟨t, ht, rfl, hcycle⟩
    · exact ⟨nofun, fun hnone => absurd hcycle (hnone t ht)⟩
  | ok c =>
    have hnone : ∀ t ∈ h.types, ¬ h.Below t t := fun _ _ => not_below_self_of_close hr hclose
    refine ⟨⟨nofun, fun ⟨t, ht, hcycle⟩ => absurd hcycle (hnone t ht)⟩, nofun, ?_⟩
    exact ⟨fun _ => hnone, fun _ => ⟨c, rfl⟩⟩

/-- Two types, each of them under the other. -/
def circle : TypeHierarchy := (root.place "crate" "box").place "box" "crate"

theorem circle_below_self : circle.Below "crate" "crate" :=
  .tail (.single (b := "box") (by decide)) (by decide)

/-- A rule that leaves one type of the circle out does not hide it. -/
theorem close_circle_eq_error : circle.Reached ∧ ∃ t ∈ circle.types,
    close circle [⟨"c", "crate"⟩] [⟨"crate", "box"⟩] = .error (.cyclicTypes t) := by
  have hr : circle.Reached := (Reached.root.assign "crate" "box").assign "box" "crate"
  obtain ⟨hiff, hnames, -⟩ :=
    close_eq_error_iff_cyclic hr [⟨"c", "crate"⟩] [⟨"crate", "box"⟩]
  obtain ⟨fault, hclose⟩ := hiff.mpr ⟨"crate", by decide, circle_below_self⟩
  obtain ⟨t, ht, rfl, -⟩ := hnames fault hclose
  exact ⟨hr, t, ht, hclose⟩

end StripsReach.Catalog
