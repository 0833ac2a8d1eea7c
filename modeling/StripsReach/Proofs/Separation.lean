import StripsReach.Proofs.Refusal

/-!
# Steps that each concern one part

A state of several parts is built up step by step. A step works on one part, looks at nothing else
and leaves the other parts alone. Then every part comes from the steps that concern it, in their
order, and all steps are accepted exactly if those of each part are. How the steps for different
parts are interleaved does not matter.
-/

namespace StripsReach

variable {σ α κ ε : Type} {step : σ → α → Except ε σ} {kind : α → Option κ}
  {same : κ → σ → σ → Prop}

/-- Steps of a kind work on the part of that kind, and `same k` says that two states have the part
of kind `k` in common. -/
structure Separated (step : σ → α → Except ε σ) (kind : α → Option κ)
    (same : κ → σ → σ → Prop) : Prop where
  equivalence : ∀ k, Equivalence (same k)
  ext : ∀ s t, (∀ k, same k s t) → s = t
  frame : ∀ {s a next k}, step s a = .ok next → kind a ≠ some k → same k s next
  congr : ∀ {s t a next k}, step s a = .ok next → kind a = some k → same k s t →
    ∃ other, step t a = .ok other ∧ same k next other

namespace Separated

variable [DecidableEq κ] {l others : List α} {s t out : σ} {k : κ}

/-- One part of the outcome comes from the steps of its kind, whatever the other parts were. -/
theorem exists_foldlM_filter (hsep : Separated step kind same)
    (hfold : l.foldlM step s = .ok out) (hst : same k s t) :
    ∃ part, (l.filter (kind · = some k)).foldlM step t = .ok part ∧ same k part out := by
  induction l generalizing s t with
  | nil =>
    cases hfold
    exact ⟨t, rfl, (hsep.equivalence k).symm hst⟩
  | cons a l ih =>
    rw [List.foldlM_cons] at hfold
    obtain ⟨mid, hfirst, hrest⟩ := exists_of_bind_eq_ok hfold
    by_cases ha : kind a = some k
    · obtain ⟨mid', hfirst', hmid⟩ := hsep.congr hfirst ha hst
      rw [List.filter_cons_of_pos (by simpa using ha), List.foldlM_cons, hfirst']
      exact ih hrest hmid
    · rw [List.filter_cons_of_neg (by simpa using ha)]
      have hmid : same k mid t :=
        (hsep.equivalence k).trans ((hsep.equivalence k).symm (hsep.frame hfirst ha)) hst
      exact ih hrest hmid

/-- Where the steps of each kind are accepted, from states that agree on their part, all are. -/
theorem foldlM_eq_ok_of_parts (hsep : Separated step kind same)
    (hpassed : ∀ a ∈ l, kind a = none → ∀ s, step s a = .ok s)
    (hparts : ∀ k, ∃ t, same k s t ∧
      ∃ part, (l.filter (kind · = some k)).foldlM step t = .ok part ∧ same k part out) :
    l.foldlM step s = .ok out := by
  induction l generalizing s with
  | nil =>
    refine congrArg Except.ok (hsep.ext s out fun k => ?_)
    obtain ⟨t, hst, part, hpart, hout⟩ := hparts k
    cases hpart
    exact (hsep.equivalence k).trans hst hout
  | cons a l ih =>
    obtain ⟨ha, hl⟩ := List.forall_mem_cons.mp hpassed
    cases hkind : kind a with
    | none =>
      rw [List.foldlM_cons, ha hkind]
      refine ih hl fun k => ?_
      have hskip := hparts k
      rwa [List.filter_cons_of_neg (by simp [hkind])] at hskip
    | some own =>
      -- The step is accepted, since it is from a state with the same part of its kind.
      obtain ⟨t, hst, part, hpart, hout⟩ := hparts own
      rw [List.filter_cons_of_pos (by simpa using hkind), List.foldlM_cons] at hpart
      obtain ⟨mid, hfirst, hrest⟩ := exists_of_bind_eq_ok hpart
      obtain ⟨next, hstep, hnext⟩ :=
        hsep.congr hfirst hkind ((hsep.equivalence own).symm hst)
      rw [List.foldlM_cons, hstep]
      refine ih hl fun k => ?_
      by_cases hk : k = own
      · subst hk
        exact ⟨mid, (hsep.equivalence k).symm hnext, part, hrest, hout⟩
      · have hne : kind a ≠ some k := by
          rw [hkind]
          exact fun heq => hk (Option.some.inj heq).symm
        obtain ⟨t, hst, hskip⟩ := hparts k
        rw [List.filter_cons_of_neg (by simpa using hne)] at hskip
        have hnext := (hsep.equivalence k).symm (hsep.frame hstep hne)
        exact ⟨t, (hsep.equivalence k).trans hnext hst, hskip⟩

/-- The outcome of all steps has the parts that the steps of each kind come to on their own. -/
theorem foldlM_eq_ok_iff (hsep : Separated step kind same)
    (hpassed : ∀ a ∈ l, kind a = none → ∀ s, step s a = .ok s) :
    l.foldlM step s = .ok out ↔
      ∀ k, ∃ part, (l.filter (kind · = some k)).foldlM step s = .ok part ∧ same k part out := by
  constructor
  · exact fun hfold k => hsep.exists_foldlM_filter hfold ((hsep.equivalence k).refl s)
  · exact fun hparts => hsep.foldlM_eq_ok_of_parts hpassed
      fun k => ⟨s, (hsep.equivalence k).refl s, hparts k⟩

/-- Steps that are the same of each kind come to the same. -/
theorem foldlM_eq_ok_iff_of_filter_eq (hsep : Separated step kind same)
    (hpassed : ∀ a ∈ l, kind a = none → ∀ s, step s a = .ok s)
    (hpassed' : ∀ a ∈ others, kind a = none → ∀ s, step s a = .ok s)
    (hfilter : ∀ k, l.filter (kind · = some k) = others.filter (kind · = some k)) :
    l.foldlM step s = .ok out ↔ others.foldlM step s = .ok out := by
  rw [hsep.foldlM_eq_ok_iff hpassed, hsep.foldlM_eq_ok_iff hpassed']
  simp only [hfilter]

end Separated

end StripsReach
