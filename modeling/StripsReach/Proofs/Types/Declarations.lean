import StripsReach.Proofs.TypedList.Runs
import StripsReach.Proofs.Types.Reached

/-!
# Types declared in runs

The types of a domain are written in runs, like parameters and objects, but a walk of their own
reads them: it builds the hierarchy as it goes and keeps no list. It refuses what the walk over
typed lists refuses, and what it builds can be read off the list that the other walk yields. A name
that the list gives several types is placed under the first of them, since a supertype is kept.
-/

namespace StripsReach

/-- The type in the first entry of `name`. -/
def TypedList.firstType? (list : TypedList) (name : Name) : Option Name :=
  (list.find? fun entry => entry.value = name).map Typed.type

/-- Declared in the list, or the type of what is. -/
def TypedList.Mentions (list : TypedList) (name : Name) : Prop :=
  ∃ entry ∈ list, name = entry.value ∨ name = entry.type

namespace TypeHierarchy

/-- What the entries of a typed list make of a hierarchy. A type that had no supertype is placed
under the first that the list gives it; where that is the universal type, it may still be open. -/
structure Extends (h : TypeHierarchy) (list : TypedList) (next : TypeHierarchy) : Prop where
  reached : next.Reached
  mem_types_iff : ∀ x, x ∈ next.types ↔ x ∈ h.types ∨ list.Mentions x
  parent_getD : ∀ x, x ≠ objectType → (next.parent x).getD objectType =
    ((h.parent x).or (list.firstType? x)).getD objectType

/-- The two walks end alike: with one fault, or with a hierarchy that extends `h` by the list. -/
inductive Agree (h : TypeHierarchy) : Except Fault TypeHierarchy → Except Fault TypedList → Prop
  | refused (fault : Fault) : Agree h (.error fault) (.error fault)
  | accepted {next : TypeHierarchy} {list : TypedList} :
      Extends h list next → Agree h (.ok next) (.ok list)

variable {h next : TypeHierarchy} {list other : TypedList} {names pending : List Name}
  {x upper : Name} {items : List SExpr}

/-! ### Lists of runs -/

theorem firstType?_append :
    TypedList.firstType? (list ++ other) x = (list.firstType? x).or (other.firstType? x) := by
  unfold TypedList.firstType?
  rw [List.find?_append, Option.map_or]

theorem firstType?_ofRun :
    (TypedList.ofRun names upper).firstType? x = if x ∈ names then some upper else none := by
  induction names with
  | nil => rfl
  | cons name names ih =>
    show TypedList.firstType? ([⟨name, upper⟩] ++ TypedList.ofRun names upper) x = _
    rw [firstType?_append, ih]
    by_cases hx : name = x
    · simp [TypedList.firstType?, hx]
    · simp [TypedList.firstType?, hx, Ne.symm hx]

theorem mentions_append :
    TypedList.Mentions (list ++ other) x ↔ list.Mentions x ∨ other.Mentions x := by
  unfold TypedList.Mentions
  simp only [List.mem_append, or_and_right, exists_or]

theorem mentions_ofRun_cons {name : Name} : (TypedList.ofRun (name :: names) upper).Mentions x ↔
    (x = name ∨ x = upper) ∨ (TypedList.ofRun names upper).Mentions x := by
  simp [TypedList.Mentions, TypedList.ofRun]

/-- Every name of a run is mentioned, and besides them only the type of the run. -/
theorem mentions_ofRun_iff :
    (TypedList.ofRun names upper).Mentions x ↔ x ∈ names ∨ names ≠ [] ∧ x = upper := by
  constructor
  · rintro ⟨entry, hentry, rfl | rfl⟩
    · exact Or.inl (TypedList.mem_ofRun.mp hentry).1
    · obtain ⟨hvalue, htype⟩ := TypedList.mem_ofRun.mp hentry
      exact Or.inr ⟨List.ne_nil_of_mem hvalue, htype⟩
  · rintro (hx | ⟨hne, rfl⟩)
    · exact ⟨⟨x, upper⟩, TypedList.mem_ofRun.mpr ⟨hx, rfl⟩, Or.inl rfl⟩
    · obtain ⟨name, hname⟩ := List.exists_mem_of_ne_nil names hne
      exact ⟨⟨name, x⟩, TypedList.mem_ofRun.mpr ⟨hname, rfl⟩, Or.inr rfl⟩

/-! ### A run that is declared, and then placed -/

theorem reached_foldl_declare (hr : h.Reached) : (names.foldl declare h).Reached := by
  induction names generalizing h with
  | nil => exact hr
  | cons name names ih => exact ih (hr.declare name)

theorem mem_types_foldl_declare (hr : h.Reached) :
    x ∈ (names.foldl declare h).types ↔ x ∈ h.types ∨ x ∈ names := by
  induction names generalizing h with
  | nil => simp
  | cons name names ih =>
    rw [List.foldl_cons, ih (hr.declare name), hr.wellFormed.mem_types_declare, List.mem_cons,
      or_assoc]

theorem parent_foldl_declare : (names.foldl declare h).parent x = h.parent x := by
  induction names generalizing h with
  | nil => rfl
  | cons name names ih => rw [List.foldl_cons, ih, parent_declare]

theorem reached_foldl_place (hr : h.Reached) : (names.foldl (·.place · upper) h).Reached := by
  induction names generalizing h with
  | nil => exact hr
  | cons name names ih => exact ih (hr.place name upper)

theorem mem_types_foldl_place (hr : h.Reached) : x ∈ (names.foldl (·.place · upper) h).types ↔
    x ∈ h.types ∨ (TypedList.ofRun names upper).Mentions x := by
  induction names generalizing h with
  | nil => simp [TypedList.Mentions, TypedList.ofRun]
  | cons name names ih =>
    rw [List.foldl_cons, ih (hr.place name upper), mentions_ofRun_cons,
      hr.wellFormed.mem_types_place]
    simp only [or_assoc]

/-- The run counts for those of its names that have no supertype yet. -/
theorem parent_foldl_place_ofRun (hx : x ≠ objectType) :
    (names.foldl (·.place · upper) h).parent x =
      (h.parent x).or ((TypedList.ofRun names upper).firstType? x) := by
  rw [firstType?_ofRun, parent_foldl_place]
  simp only [hx, ne_eq, not_false_eq_true, and_true]

/-! ### Both walks -/

/-- The names at the end are declared and get no supertype. -/
theorem extends_last_run (hr : h.Reached) :
    Extends h (TypedList.ofRun pending objectType) (pending.foldl declare h) where
  reached := reached_foldl_declare hr
  mem_types_iff x := by
    have hobject : objectType ∈ h.types := hr.wellFormed.objectType_mem
    rw [mem_types_foldl_declare hr, mentions_ofRun_iff]
    constructor
    · exact fun hx => hx.imp_right Or.inl
    · rintro (hx | hx | ⟨-, rfl⟩)
      · exact Or.inl hx
      · exact Or.inr hx
      · exact Or.inl hobject
  parent_getD x _ := by
    rw [parent_foldl_declare, firstType?_ofRun]
    cases h.parent x with
    | some other => rfl
    | none => split <;> rfl

/-- What follows a run extends the hierarchy in which the run has been placed. -/
theorem Agree.of_run {types : Except Fault TypeHierarchy} {entries : Except Fault TypedList}
    (hr : h.Reached)
    (hrest : Agree (pending.foldl (·.place · upper) (pending.foldl declare h)) types entries) :
    Agree h types ((TypedList.ofRun pending upper ++ ·) <$> entries) := by
  cases hrest with
  | refused fault => exact .refused fault
  | @accepted next list hnext =>
    refine .accepted ⟨hnext.reached, fun x => ?_, fun x hx => ?_⟩
    · rw [hnext.mem_types_iff, mem_types_foldl_place (reached_foldl_declare hr),
        mem_types_foldl_declare hr, mentions_append, mentions_ofRun_iff]
      tauto
    · rw [hnext.parent_getD x hx, parent_foldl_place_ofRun hx, parent_foldl_declare,
        firstType?_append, Option.or_assoc]

/-- The walks go through the items in step. The names that wait for a supertype are known by then,
since they are declared where they are met. -/
theorem agree_ofItemsAfter (hr : h.Reached) :
    Agree h (ofItemsAfter (pending.foldl declare h) pending items)
      (TypedList.ofItemsAfter "types" pending items) := by
  fun_induction TypedList.ofItemsAfter "types" pending items generalizing h with
  | case1 pending =>
    unfold ofItemsAfter
    exact .accepted (extends_last_run hr)
  | case2 pending inner rest =>
    unfold ofItemsAfter
    exact .refused _
  | case3 pending rest hnone =>
    unfold ofItemsAfter
    rw [if_pos rfl, if_pos hnone]
    exact .refused _
  | case4 pending hsome upper rest ih =>
    unfold ofItemsAfter
    rw [if_pos rfl, if_neg hsome]
    exact .of_run hr (ih (reached_foldl_place (reached_foldl_declare hr)))
  | case5 pending rest hsome hmissing =>
    unfold ofItemsAfter
    rw [if_pos rfl, if_neg hsome]
    split
    · case h_1 upper rest => exact (hmissing upper rest rfl).elim
    · exact .refused _
  | case6 pending name rest hname ih =>
    unfold ofItemsAfter
    rw [if_neg hname]
    have hrest := ih hr
    rwa [List.foldl_append] at hrest

/-- Placing what is left makes no further type known. -/
theorem Extends.mem_types_attachOrphans (hnext : Extends root list next) :
    x ∈ next.attachOrphans.types ↔ x = objectType ∨ list.Mentions x := by
  have hroot : x ∈ root.types ↔ x = objectType := List.mem_singleton
  rw [hnext.reached.wellFormed.types_attachOrphans, hnext.mem_types_iff, hroot]

/-- Once all types have been placed, those that were open are under the universal type. -/
theorem parent_attachOrphans_eq_getD (hx : x ∈ h.attachOrphans.types) (hne : x ≠ objectType) :
    h.attachOrphans.parent x = some ((h.parent x).getD objectType) := by
  have hknown : x ∈ h.types := (mem_types_of_attachOrphans hx).resolve_right hne
  rw [parent_attachOrphans, if_pos ⟨hknown, hne⟩]
  cases h.parent x with
  | none => rfl
  | some upper => rfl

/-- Types and typed lists are refused alike. The hierarchy of an accepted list has the universal
type, which is placed under no other, and the names and the types of the list. It places each of
these under the type of its first entry, or under the universal type if it has no entry. -/
theorem ofItems_agrees_with_typedList (items : List SExpr) :
    (∀ fault, ofItems items = .error fault ↔ TypedList.ofItems "types" items = .error fault) ∧
    ∀ h, ofItems items = .ok h → ∃ list, TypedList.ofItems "types" items = .ok list ∧
      (∀ x, x ∈ h.types ↔ x = objectType ∨ ∃ entry ∈ list, x = entry.value ∨ x = entry.type) ∧
      h.parent objectType = none ∧
      ∀ x ∈ h.types, x ≠ objectType →
        h.parent x = some ((list.firstType? x).getD objectType) := by
  have hagree : Agree root (ofItemsAfter ([].foldl declare root) [] items)
      (TypedList.ofItems "types" items) := agree_ofItemsAfter .root
  rw [List.foldl_nil] at hagree
  unfold ofItems
  generalize ofItemsAfter root [] items = types at hagree ⊢
  generalize TypedList.ofItems "types" items = entries at hagree ⊢
  cases hagree with
  | refused fault =>
    refine ⟨fun other => ⟨fun h => ?_, fun h => ?_⟩, nofun⟩
    · exact congrArg Except.error (Except.error.inj h)
    · exact congrArg Except.error (Except.error.inj h)
  | @accepted next list hnext =>
    refine ⟨fun _ => ⟨nofun, nofun⟩, ?_⟩
    rintro _ ⟨⟩
    refine ⟨list, rfl, fun x => hnext.mem_types_attachOrphans, ?_, fun x hx hne => ?_⟩
    · exact (Reached.attachOrphans hnext.reached).wellFormed.rooted
    · have hroot : root.parent x = none := rfl
      rw [parent_attachOrphans_eq_getD hx hne, hnext.parent_getD x hne, hroot, Option.none_or]

/-- The universal type is declared in vain, and the truck a second time. -/
def vehicles : List SExpr :=
  ["truck", "-", "vehicle", "object", "truck", "-", "thing"].map SExpr.word

def vehicleTypes : TypeHierarchy where
  types := ["object", "truck", "vehicle", "thing"]
  children := [("object", ["vehicle", "thing"]), ("truck", []), ("vehicle", ["truck"]),
    ("thing", [])]
  parents := [("thing", "object"), ("vehicle", "object"), ("truck", "vehicle")]

theorem ofItems_agrees_with_typedList_vehicles : ofItems vehicles = .ok vehicleTypes ∧
    ∃ list, TypedList.ofItems "types" vehicles = .ok list ∧
      ∀ x ∈ vehicleTypes.types, x ≠ objectType →
        vehicleTypes.parent x = some ((list.firstType? x).getD objectType) := by
  have hread : ofItems vehicles = .ok vehicleTypes := by decide +kernel
  obtain ⟨list, hlist, -, -, hparent⟩ := (ofItems_agrees_with_typedList vehicles).2 _ hread
  exact ⟨hread, list, hlist, hparent⟩

end TypeHierarchy

end StripsReach
