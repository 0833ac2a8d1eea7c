import Mathlib.Data.List.Induction

/-!
# First occurrences

A list of which only the first occurrence of every member is kept has no member twice.
-/

namespace StripsReach

variable {α : Type} [BEq α] [LawfulBEq α]

/-- One more member at the end counts only if it is new. -/
theorem eraseDups_concat (l : List α) (a : α) :
    (l ++ [a]).eraseDups = if a ∈ l then l.eraseDups else l.eraseDups ++ [a] := by
  rw [List.eraseDups_append, List.cons_removeAll]
  by_cases h : a ∈ l
  · simp [h]
  · simp [h, List.eraseDups_cons]

theorem nodup_eraseDups (l : List α) : l.eraseDups.Nodup := by
  induction l using List.reverseRecOn with
  | nil => exact List.nodup_nil
  | append_singleton l a ih =>
    rw [eraseDups_concat]
    split
    · exact ih
    · case isFalse ha =>
      refine List.nodup_append.mpr ⟨ih, by simp, ?_⟩
      intro b hb c hc
      rw [List.mem_singleton.mp hc]
      exact fun hba => ha (List.mem_eraseDups.mp (hba ▸ hb))

end StripsReach
