import StripsReach.Proofs.Types.Supertypes

/-!
# Closing a catalog

Closing lists a type after all types that it takes over from, and lists it once. So at any moment
the list of a type is what the lists of the others, as they are by then, make of it, and stays
that. Two things follow for the end: every list has the order that a catalog asks for, and no
listed type lies on a circle, since going down a circle never comes to an end. Conversely the way
down is refused only where it comes back to a type that it has passed, which is a circle.
-/

namespace StripsReach.Catalog

open TypeHierarchy

/-- The type `type` takes over the objects of `branch`. -/
def Feeds (h : TypeHierarchy) (flattened : List FlattenedSubtype) (branch type : Name) : Prop :=
  branch ∈ branches h flattened type

/-- The catalogs that hold each type with its objects only after all types that it takes over
from. -/
inductive Built (h : TypeHierarchy) (declarations : TypedList)
    (flattened : List FlattenedSubtype) : Catalog → Prop
  | empty : Built h declarations flattened ⟨[]⟩
  | put {done : Catalog} {type : Name} : Built h declarations flattened done →
      done.objects? type = none →
      (∀ branch, Feeds h flattened branch type → (done.objects? branch).isSome) →
      Built h declarations flattened (done.put type (gather h declarations flattened done type))

/-- What closing types reached down `path` makes of a catalog: nothing that is listed changes, and
no type on the path gets listed. -/
structure Advances (h : TypeHierarchy) (declarations : TypedList)
    (flattened : List FlattenedSubtype) (path : List Name) (done out : Catalog) : Prop where
  built : Built h declarations flattened done → Built h declarations flattened out
  kept : ∀ t objects, done.objects? t = some objects → out.objects? t = some objects
  untouched : ∀ p ∈ path, out.objects? p = done.objects? p

/-- A catalog as closing leaves it. -/
structure IsClosure (h : TypeHierarchy) (declarations : TypedList)
    (flattened : List FlattenedSubtype) (c : Catalog) : Prop where
  isSome_iff : ∀ t, (c.objects? t).isSome ↔ t ∈ h.types
  eq_gather : ∀ t objects, c.objects? t = some objects →
    objects = gather h declarations flattened c t
  acc : ∀ t ∈ h.types, Acc (Feeds h flattened) t

variable {h : TypeHierarchy} {declarations : TypedList} {flattened : List FlattenedSubtype}
  {path : List Name} {done out c : Catalog} {t branch : Name} {objects : List Name}

/-! ### What a type takes over -/

theorem feeds_iff (hw : h.WellFormed) : Feeds h flattened branch t ↔ ∃ s, h.Under s t ∧
    if ⟨t, s⟩ ∈ flattened then h.Under branch s else branch = s := by
  simp only [Feeds, branches, List.mem_flatMap, hw.mem_subtypes_iff]
  refine exists_congr fun s => and_congr_right fun _ => ?_
  by_cases hrule : ⟨t, s⟩ ∈ flattened <;> simp [hrule, hw.mem_subtypes_iff]

theorem below_of_feeds (hw : h.WellFormed) (hfeeds : Feeds h flattened branch t) :
    h.Below branch t := by
  obtain ⟨s, hunder, hbranch⟩ := (feeds_iff hw).mp hfeeds
  split at hbranch
  · exact .tail (.single hbranch) hunder
  · exact .single (hbranch ▸ hunder)

theorem mem_types_of_feeds (hw : h.WellFormed) (hfeeds : Feeds h flattened branch t) :
    branch ∈ h.types :=
  hw.mem_types_of_below (below_of_feeds hw hfeeds)

/-- A circle can be followed down through the types that are taken over: where a rule leaves out
the next type of the circle, the one after it is taken. -/
theorem exists_feeds_of_below_self (hw : h.WellFormed) (hcycle : h.Below t t) :
    ∃ branch, Feeds h flattened branch t ∧ h.Below branch branch := by
  obtain ⟨s, hunder, hs⟩ := exists_under_of_below_self hcycle
  by_cases hrule : ⟨t, s⟩ ∈ flattened
  · obtain ⟨r, hr, hcycle⟩ := exists_under_of_below_self hs
    exact ⟨r, (feeds_iff hw).mpr ⟨s, hunder, by rwa [if_pos hrule]⟩, hcycle⟩
  · exact ⟨s, (feeds_iff hw).mpr ⟨s, hunder, by rw [if_neg hrule]⟩, hs⟩

theorem not_below_self_of_acc (hw : h.WellFormed) (hacc : Acc (Feeds h flattened) t) :
    ¬ h.Below t t := by
  induction hacc with
  | intro t _ ih =>
    intro hcycle
    obtain ⟨branch, hfeeds, hbranch⟩ := exists_feeds_of_below_self hw hcycle
    exact ih branch hfeeds hbranch

theorem gather_congr {c' : Catalog}
    (hsame : ∀ branch, Feeds h flattened branch t → c.objects? branch = c'.objects? branch) :
    gather h declarations flattened c t = gather h declarations flattened c' t := by
  have hlists : ∀ branch ∈ branches h flattened t,
      (c.objects? branch).getD [] = (c'.objects? branch).getD [] :=
    fun branch hbranch => congrArg (Option.getD · []) (hsame branch hbranch)
  rw [gather, List.flatMap_congr hlists, gather]

/-! ### Catalogs on the way -/

theorem objects?_put_of_ne (hne : t ≠ branch) :
    (c.put branch objects).objects? t = c.objects? t := by
  rw [objects?_put, if_neg hne]

theorem ne_of_listed {type : Name} (hnew : c.objects? type = none) (ht : (c.objects? t).isSome) :
    t ≠ type := by
  rintro rfl
  simp [hnew] at ht

theorem Built.listed (hbuilt : Built h declarations flattened c)
    (ht : c.objects? t = some objects) :
    objects = gather h declarations flattened c t ∧
      ∀ branch, Feeds h flattened branch t → (c.objects? branch).isSome := by
  induction hbuilt generalizing t objects with
  | empty => simp [objects?] at ht
  | @put done type _ hnew hbranches ih =>
    -- What was listed before is listed as before, so the lists made of it stay right.
    have hsame : ∀ {s}, (done.objects? s).isSome → ∀ {added},
        (done.put type added).objects? s = done.objects? s :=
      fun hs => objects?_put_of_ne (ne_of_listed hnew hs)
    suffices hlist : objects = gather h declarations flattened done t ∧
        ∀ branch, Feeds h flattened branch t → (done.objects? branch).isSome by
      refine ⟨hlist.1.trans (gather_congr fun branch hfeeds => ?_), fun branch hfeeds => ?_⟩
      · exact (hsame (hlist.2 branch hfeeds)).symm
      · rw [hsame (hlist.2 branch hfeeds)]
        exact hlist.2 branch hfeeds
    rw [objects?_put] at ht
    split at ht
    · case isTrue heq =>
      subst heq
      exact ⟨(Option.some.inj ht).symm, hbranches⟩
    · exact ih ht

theorem Built.acc (hbuilt : Built h declarations flattened c) (ht : (c.objects? t).isSome) :
    Acc (Feeds h flattened) t := by
  induction hbuilt generalizing t with
  | empty => simp [objects?] at ht
  | @put done type _ _ hbranches ih =>
    rw [objects?_put] at ht
    split at ht
    · case isTrue heq =>
      subst heq
      exact ⟨_, fun branch hfeeds => ih (hbranches branch hfeeds)⟩
    · exact ih ht

namespace Advances

theorem refl : Advances h declarations flattened path done done :=
  ⟨id, fun _ _ => id, fun _ _ => rfl⟩

theorem trans {mid : Catalog} (hfirst : Advances h declarations flattened path done mid)
    (hrest : Advances h declarations flattened path mid out) :
    Advances h declarations flattened path done out where
  built := hrest.built ∘ hfirst.built
  kept t objects ht := hrest.kept t objects (hfirst.kept t objects ht)
  untouched p hp := (hrest.untouched p hp).trans (hfirst.untouched p hp)

theorem isSome (hadv : Advances h declarations flattened path done out)
    (ht : (done.objects? t).isSome) : (out.objects? t).isSome := by
  obtain ⟨objects, hobjects⟩ := Option.isSome_iff_exists.mp ht
  exact Option.isSome_iff_exists.mpr ⟨objects, hadv.kept t objects hobjects⟩

/-- Listing a type after all that it takes over from. -/
theorem put (hadv : Advances h declarations flattened (t :: path) done out)
    (hnew : done.objects? t = none) (hpath : t ∉ path)
    (hbranches : ∀ branch, Feeds h flattened branch t → (out.objects? branch).isSome) :
    Advances h declarations flattened path done
      (out.put t (gather h declarations flattened out t)) where
  built hbuilt :=
    .put (hadv.built hbuilt) ((hadv.untouched t List.mem_cons_self).trans hnew) hbranches
  kept s objects hs := by
    have hne : s ≠ t := ne_of_listed hnew (Option.isSome_iff_exists.mpr ⟨objects, hs⟩)
    rw [objects?_put_of_ne hne]
    exact hadv.kept s objects hs
  untouched p hp := by
    have hne : p ≠ t := fun hpt => hpath (hpt ▸ hp)
    rw [objects?_put_of_ne hne]
    exact hadv.untouched p (List.mem_cons_of_mem t hp)

theorem of_foldlM {visit : Catalog → Name → Except Fault Catalog} {types : List Name}
    (hstep : ∀ t ∈ types, ∀ done out, visit done t = .ok out →
      Advances h declarations flattened path done out ∧ (out.objects? t).isSome)
    (hfold : types.foldlM visit done = .ok out) :
    Advances h declarations flattened path done out ∧ ∀ t ∈ types, (out.objects? t).isSome := by
  induction types generalizing done with
  | nil =>
    cases hfold
    exact ⟨refl, nofun⟩
  | cons t types ih =>
    rw [List.foldlM_cons] at hfold
    cases hfirst : visit done t with
    | error fault =>
      rw [hfirst] at hfold
      cases hfold
    | ok mid =>
      rw [hfirst] at hfold
      obtain ⟨hadv, ht⟩ := hstep t List.mem_cons_self done mid hfirst
      obtain ⟨hrest, hlisted⟩ := ih (fun s hs => hstep s (List.mem_cons_of_mem t hs)) hfold
      exact ⟨hadv.trans hrest, List.forall_mem_cons.mpr ⟨hrest.isSome ht, hlisted⟩⟩

end Advances

/-! ### Closing one type -/

theorem closeType_eq (path : List Name) (done : Catalog) (type : Name) :
    closeType h declarations flattened path done type =
      if (done.objects? type).isSome then .ok done
      else if type ∈ path then .error (.cyclicTypes type)
      else (branches h flattened type).foldlM
        (closeType h declarations flattened (type :: path)) done >>= fun done =>
          .ok (done.put type (gather h declarations flattened done type)) := by
  have hfold : (branches h flattened type).attach.foldlM (fun done branch =>
      closeType h declarations flattened (type :: path) done branch.1) done =
        (branches h flattened type).foldlM
          (closeType h declarations flattened (type :: path)) done := by
    rw [List.foldlM_subtype fun _ _ _ => rfl, List.unattach_attach]
  rw [closeType, hfold]
  rfl

theorem advances_of_closeType {type : Name}
    (hclose : closeType h declarations flattened path done type = .ok out) :
    Advances h declarations flattened path done out ∧ (out.objects? type).isSome := by
  induction path, done, type using closeType.induct h flattened generalizing out with
  | case1 path done type hdone =>
    rw [closeType_eq, if_pos hdone] at hclose
    cases hclose
    exact ⟨.refl, hdone⟩
  | case2 path done type hdone hpath =>
    rw [closeType_eq, if_neg hdone, if_pos hpath] at hclose
    cases hclose
  | case3 path done type hdone hpath ih =>
    rw [closeType_eq, if_neg hdone, if_neg hpath] at hclose
    cases hfold : (branches h flattened type).foldlM
        (closeType h declarations flattened (type :: path)) done with
    | error fault =>
      rw [hfold] at hclose
      cases hclose
    | ok mid =>
      rw [hfold] at hclose
      cases hclose
      obtain ⟨hadv, hbranches⟩ := Advances.of_foldlM
        (fun branch hbranch done out => ih done ⟨branch, hbranch⟩) hfold
      refine ⟨hadv.put (by simpa using hdone) hpath hbranches, ?_⟩
      rw [objects?_put, if_pos rfl, Option.isSome_some]

theorem exists_error_of_foldlM {visit : Catalog → Name → Except Fault Catalog} {types : List Name}
    {fault : Fault} (hfold : types.foldlM visit done = .error fault) :
    ∃ t ∈ types, ∃ done, visit done t = .error fault := by
  induction types generalizing done with
  | nil => cases hfold
  | cons t types ih =>
    rw [List.foldlM_cons] at hfold
    cases hfirst : visit done t with
    | error first =>
      rw [hfirst] at hfold
      cases hfold
      exact ⟨t, List.mem_cons_self, done, hfirst⟩
    | ok mid =>
      rw [hfirst] at hfold
      obtain ⟨s, hs, herror⟩ := ih hfold
      exact ⟨s, List.mem_cons_of_mem t hs, herror⟩

/-- A type is refused only if the way down comes back to it: all types that the way has passed are
above where it is. -/
theorem below_self_of_closeType {type : Name} {fault : Fault} (hw : h.WellFormed)
    (hpath : ∀ p ∈ path, h.Below type p)
    (hclose : closeType h declarations flattened path done type = .error fault) :
    ∃ t, fault = .cyclicTypes t ∧ h.Below t t := by
  induction path, done, type using closeType.induct h flattened with
  | case1 path done type hdone =>
    rw [closeType_eq, if_pos hdone] at hclose
    cases hclose
  | case2 path done type hdone hmem =>
    rw [closeType_eq, if_neg hdone, if_pos hmem] at hclose
    cases hclose
    exact ⟨type, rfl, hpath type hmem⟩
  | case3 path done type hdone hmem ih =>
    rw [closeType_eq, if_neg hdone, if_neg hmem] at hclose
    cases hfold : (branches h flattened type).foldlM
        (closeType h declarations flattened (type :: path)) done with
    | ok mid =>
      rw [hfold] at hclose
      cases hclose
    | error first =>
      rw [hfold] at hclose
      cases hclose
      obtain ⟨branch, hbranch, done, herror⟩ := exists_error_of_foldlM hfold
      have hbelow : h.Below branch type := below_of_feeds hw hbranch
      refine ih done ⟨branch, hbranch⟩ ?_ herror
      exact List.forall_mem_cons.mpr ⟨hbelow, fun p hp => hbelow.trans (hpath p hp)⟩

/-! ### Closing all types -/

/-- The types of `h` with their objects in `done`. -/
def inOrder (h : TypeHierarchy) (done : Catalog) : Catalog :=
  ⟨h.types.map fun t => (t, (done.objects? t).getD [])⟩

theorem isSome_objects?_inOrder : ((inOrder h done).objects? t).isSome ↔ t ∈ h.types := by
  simp [inOrder, objects?]

theorem objects?_inOrder (ht : t ∈ h.types) (hlisted : (done.objects? t).isSome) :
    (inOrder h done).objects? t = done.objects? t := by
  obtain ⟨objects, hobjects⟩ := Option.isSome_iff_exists.mp hlisted
  rw [inOrder, objects?, List.lookup_graph _ ht, hobjects, Option.getD_some]

theorem isClosure_inOrder (hw : h.WellFormed) (hbuilt : Built h declarations flattened done)
    (hlisted : ∀ t ∈ h.types, (done.objects? t).isSome) :
    IsClosure h declarations flattened (inOrder h done) where
  isSome_iff _ := isSome_objects?_inOrder
  acc t ht := hbuilt.acc (hlisted t ht)
  eq_gather t objects ht := by
    have hknown : t ∈ h.types :=
      isSome_objects?_inOrder.mp (Option.isSome_iff_exists.mpr ⟨objects, ht⟩)
    rw [objects?_inOrder hknown (hlisted t hknown)] at ht
    refine (hbuilt.listed ht).1.trans (gather_congr fun branch hfeeds => ?_)
    have hbranch : branch ∈ h.types := mem_types_of_feeds hw hfeeds
    exact (objects?_inOrder hbranch (hlisted branch hbranch)).symm

/-- A catalog lists what has been closed, and all types have been. -/
theorem exists_built_of_close (hclose : close h declarations flattened = .ok c) :
    ∃ done, Built (extended h declarations) declarations flattened done ∧
      (∀ t ∈ (extended h declarations).types, (done.objects? t).isSome) ∧
      c = inOrder (extended h declarations) done := by
  rw [close] at hclose
  cases hfold : (extended h declarations).types.foldlM
      (closeType (extended h declarations) declarations flattened []) ⟨[]⟩ with
  | error fault =>
    rw [hfold] at hclose
    cases hclose
  | ok done =>
    rw [hfold] at hclose
    cases hclose
    obtain ⟨hadv, hlisted⟩ :=
      Advances.of_foldlM (fun _ _ _ _ => advances_of_closeType) hfold
    exact ⟨done, hadv.built .empty, hlisted, rfl⟩

theorem isClosure_of_close (hr : h.Reached) (hclose : close h declarations flattened = .ok c) :
    IsClosure (extended h declarations) declarations flattened c := by
  obtain ⟨done, hbuilt, hlisted, rfl⟩ := exists_built_of_close hclose
  exact isClosure_inOrder (reached_extended hr).wellFormed hbuilt hlisted

theorem below_self_of_close {fault : Fault} (hr : h.Reached)
    (hclose : close h declarations flattened = .error fault) :
    ∃ t, fault = .cyclicTypes t ∧ h.Below t t := by
  rw [close] at hclose
  cases hfold : (extended h declarations).types.foldlM
      (closeType (extended h declarations) declarations flattened []) ⟨[]⟩ with
  | ok done =>
    rw [hfold] at hclose
    cases hclose
  | error first =>
    rw [hfold] at hclose
    cases hclose
    obtain ⟨type, -, done, herror⟩ := exists_error_of_foldlM hfold
    obtain ⟨t, hfault, hcycle⟩ :=
      below_self_of_closeType (reached_extended hr).wellFormed (List.forall_mem_nil _) herror
    exact ⟨t, hfault, (below_self_extended_iff hr).mp hcycle⟩

end StripsReach.Catalog
