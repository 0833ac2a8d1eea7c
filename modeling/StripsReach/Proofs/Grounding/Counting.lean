import Mathlib.Algebra.BigOperators.Group.List.Basic
import Mathlib.Algebra.Order.BigOperators.GroupWithZero.List
import Mathlib.Algebra.Order.Ring.Nat
import Mathlib.Data.List.TakeWhile
import StripsReach.Proofs.Grounding.Assignments

/-!
# Counting assignments

The assignments of a schema are counted parameter by parameter in a machine word. A parameter
without objects sets the count to zero, and there it stays, so nothing that comes after such a
parameter takes the count out of the word. What comes before may do so, although there is no
assignment at all then. Hence there is a count exactly if the parameters before the first one
without objects leave few enough choices; and there is one for every order of the parameters
exactly if all those with objects do.
-/

namespace StripsReach

variable {α : Type} {lists others : List (List α)} {options : List α} {start : Nat}

def hasMembers (options : List α) : Bool := !options.isEmpty

/-- How many choices there are from the lists before the first one without members. -/
def sizeBeforeEmpty (lists : List (List α)) : Nat :=
  ((lists.takeWhile hasMembers).map List.length).prod

/-- How many choices there are from those of the lists that have members. -/
def sizeOfNonempty (lists : List (List α)) : Nat :=
  ((lists.filter hasMembers).map List.length).prod

/-! ### Sizes -/

theorem length_choices (lists : List (List α)) :
    (choices lists).length = (lists.map List.length).prod := by
  induction lists with
  | nil => rfl
  | cons options rest ih =>
    rw [choices_cons, List.length_flatMap, List.map_cons, List.prod_cons, ← ih]
    simp

theorem hasMembers_iff : hasMembers options = true ↔ options ≠ [] := by
  simp [hasMembers]

theorem prod_length_pos (hmembers : ∀ options ∈ lists, hasMembers options = true) :
    0 < (lists.map List.length).prod := by
  apply List.prod_pos
  intro n hn
  obtain ⟨options, hoptions, rfl⟩ := List.mem_map.mp hn
  exact List.length_pos_of_ne_nil (hasMembers_iff.mp (hmembers options hoptions))

theorem sizeBeforeEmpty_pos (lists : List (List α)) : 0 < sizeBeforeEmpty lists :=
  prod_length_pos fun _ => List.mem_takeWhile_imp

theorem sizeOfNonempty_pos (lists : List (List α)) : 0 < sizeOfNonempty lists :=
  prod_length_pos fun _ hoptions => (List.mem_filter.mp hoptions).2

theorem sizeBeforeEmpty_cons_nil : sizeBeforeEmpty ([] :: lists) = 1 := rfl

theorem sizeBeforeEmpty_cons (hne : options ≠ []) :
    sizeBeforeEmpty (options :: lists) = options.length * sizeBeforeEmpty lists := by
  rw [sizeBeforeEmpty, List.takeWhile_cons_of_pos (hasMembers_iff.mpr hne), List.map_cons,
    List.prod_cons, sizeBeforeEmpty]

theorem sizeOfNonempty_cons (hne : options ≠ []) :
    sizeOfNonempty (options :: lists) = options.length * sizeOfNonempty lists := by
  rw [sizeOfNonempty, List.filter_cons_of_pos (hasMembers_iff.mpr hne), List.map_cons,
    List.prod_cons, sizeOfNonempty]

theorem sizeBeforeEmpty_le (lists : List (List α)) :
    sizeBeforeEmpty lists ≤ sizeOfNonempty lists := by
  induction lists with
  | nil => exact le_rfl
  | cons options lists ih =>
    by_cases hne : options = []
    · subst hne
      exact sizeOfNonempty_pos ([] :: lists)
    · rw [sizeBeforeEmpty_cons hne, sizeOfNonempty_cons hne]
      exact Nat.mul_le_mul_left _ ih

theorem sizeOfNonempty_perm (hperm : lists.Perm others) :
    sizeOfNonempty lists = sizeOfNonempty others :=
  ((hperm.filter _).map _).prod_eq

theorem sizeOfNonempty_eq_prod (hne : [] ∉ lists) :
    sizeOfNonempty lists = (lists.map List.length).prod := by
  have hall : ∀ options ∈ lists, hasMembers options = true :=
    fun options hoptions => hasMembers_iff.mpr (ne_of_mem_of_not_mem hoptions hne)
  rw [sizeOfNonempty, List.filter_eq_self.mpr hall]

/-- Where the lists with members come first, they are those before the first one without. -/
theorem sizeBeforeEmpty_nonempty_first (lists : List (List α)) :
    sizeBeforeEmpty (lists.filter hasMembers ++ lists.filter fun options => !hasMembers options) =
      sizeOfNonempty lists := by
  have hrest : (lists.filter fun options => !hasMembers options).takeWhile hasMembers = [] := by
    rw [List.eq_nil_iff_forall_not_mem]
    intro options hoptions
    have hempty := (List.mem_filter.mp ((List.takeWhile_sublist _).mem hoptions)).2
    simp [List.mem_takeWhile_imp hoptions] at hempty
  rw [sizeBeforeEmpty, List.takeWhile_append_of_pos fun _ hoptions => (List.mem_filter.mp hoptions).2,
    hrest, List.append_nil, sizeOfNonempty]

/-! ### Counting in a machine word -/

/-- One list more is counted, if the word holds the result. -/
def countList? (count : Nat) (options : List α) : Option Nat :=
  if count * options.length < wordSize then some (count * options.length) else none

theorem foldlM_countList? (lists : List (List α)) (hstart : start < wordSize) :
    lists.foldlM countList? start =
      if start * sizeBeforeEmpty lists < wordSize then
        some (start * (lists.map List.length).prod)
      else none := by
  induction lists generalizing start with
  | nil => simp [sizeBeforeEmpty, hstart]
  | cons options lists ih =>
    rw [List.foldlM_cons, List.map_cons, List.prod_cons]
    by_cases hne : options = []
    · -- From here on the count is zero.
      subst hne
      have hzero : 0 < wordSize := by decide
      have hcount : countList? start ([] : List α) = some 0 := if_pos hzero
      rw [sizeBeforeEmpty_cons_nil, Nat.mul_one, if_pos hstart, hcount]
      simpa [hzero] using ih hzero
    · rw [sizeBeforeEmpty_cons hne, ← Nat.mul_assoc, ← Nat.mul_assoc]
      by_cases hfits : start * options.length < wordSize
      · have hcount : countList? start options = some (start * options.length) := if_pos hfits
        rw [hcount]
        exact ih hfits
      · -- The lists up to the next empty one do not make the count smaller.
        have hgrows : start * options.length ≤ start * options.length * sizeBeforeEmpty lists :=
          Nat.le_mul_of_pos_right _ (sizeBeforeEmpty_pos lists)
        have hcount : countList? start options = none := if_neg hfits
        rw [hcount, if_neg (by omega)]
        rfl

theorem countChoices?_eq (lists : List (List α)) :
    countChoices? lists =
      if sizeBeforeEmpty lists < wordSize then some (lists.map List.length).prod else none := by
  show lists.foldlM countList? 1 = _
  rw [foldlM_countList? lists (by decide), Nat.one_mul, Nat.one_mul]

/-! ### Counting the assignments of a schema -/

namespace ActionSchema

variable {schema other : ActionSchema} {c : Catalog} {objects : List (List Name)} {n : Nat}
  {fault : Fault}

theorem candidates_eq_ok_iff : schema.candidates c = .ok objects ↔
    (∀ parameter ∈ schema.parameters, c.objects? parameter.type ≠ none) ∧
      objects = schema.parameters.map c.options := by
  have hknown : schema.parameters.findSome? (undeclared? c .action schema.name) = none ↔
      ∀ parameter ∈ schema.parameters, c.objects? parameter.type ≠ none := by
    simp [findSome?_undeclared?]
  rw [candidates, candidates_eq, ← hknown]
  cases schema.parameters.findSome? (undeclared? c .action schema.name) with
  | none => simp [eq_comm]
  | some fault => simp

/-- Parameters in another order have their lists of objects in that order. -/
theorem candidates_of_perm (hobjects : schema.candidates c = .ok objects)
    (hperm : other.parameters.Perm schema.parameters) :
    other.candidates c = .ok (other.parameters.map c.options) ∧
      (other.parameters.map c.options).Perm objects := by
  obtain ⟨hknown, rfl⟩ := candidates_eq_ok_iff.mp hobjects
  refine ⟨candidates_eq_ok_iff.mpr ⟨fun parameter hparameter => ?_, rfl⟩, hperm.map _⟩
  exact hknown parameter (hperm.mem_iff.mp hparameter)

theorem assignmentCount_eq (hobjects : schema.candidates c = .ok objects) :
    schema.assignmentCount c =
      if sizeBeforeEmpty objects < wordSize then .ok (objects.map List.length).prod
      else .error (.uncountable schema.name) := by
  by_cases hfits : sizeBeforeEmpty objects < wordSize
  · have hcount : countChoices? objects = some (objects.map List.length).prod := by
      rw [countChoices?_eq, if_pos hfits]
    simp only [assignmentCount, hobjects, bind, Except.bind, hcount, if_pos hfits]
  · have hcount : countChoices? objects = none := by rw [countChoices?_eq, if_neg hfits]
    simp only [assignmentCount, hobjects, bind, Except.bind, hcount, if_neg hfits]

theorem assignmentCount_eq_ok_iff (hobjects : schema.candidates c = .ok objects) :
    schema.assignmentCount c = .ok n ↔
      n = (objects.map List.length).prod ∧ sizeBeforeEmpty objects < wordSize := by
  rw [assignmentCount_eq hobjects]
  by_cases hfits : sizeBeforeEmpty objects < wordSize
  · simp [hfits, eq_comm]
  · simp [hfits]

theorem assignmentCount_eq_error_iff (hobjects : schema.candidates c = .ok objects) :
    schema.assignmentCount c = .error fault ↔
      fault = .uncountable schema.name ∧ wordSize ≤ sizeBeforeEmpty objects := by
  rw [assignmentCount_eq hobjects, ← Nat.not_lt]
  by_cases hfits : sizeBeforeEmpty objects < wordSize
  · simp [hfits]
  · simp [hfits, eq_comm]

/-- The schema with the parameters without objects last, which is the worst order to count in. -/
def emptyLast (schema : ActionSchema) (c : Catalog) : ActionSchema :=
  { schema with
    parameters :=
      (schema.parameters.filter fun parameter => hasMembers (c.options parameter)) ++
        schema.parameters.filter fun parameter => !hasMembers (c.options parameter) }

theorem perm_emptyLast (schema : ActionSchema) (c : Catalog) :
    (schema.emptyLast c).parameters.Perm schema.parameters :=
  List.filter_append_perm _ schema.parameters

theorem sizeBeforeEmpty_emptyLast (schema : ActionSchema) (c : Catalog) :
    sizeBeforeEmpty ((schema.emptyLast c).parameters.map c.options) =
      sizeOfNonempty (schema.parameters.map c.options) := by
  rw [← sizeBeforeEmpty_nonempty_first, emptyLast, List.map_append, List.filter_map,
    List.filter_map]
  rfl

theorem counted_in_every_order_iff (hobjects : schema.candidates c = .ok objects) :
    (∀ other : ActionSchema, other.parameters.Perm schema.parameters →
        other.assignmentCount c = .ok (objects.map List.length).prod) ↔
      sizeOfNonempty objects < wordSize := by
  constructor
  · intro hall
    have hperm := perm_emptyLast schema c
    have hworst := (candidates_of_perm hobjects hperm).1
    have hfits := ((assignmentCount_eq_ok_iff hworst).mp (hall _ hperm)).2
    rwa [sizeBeforeEmpty_emptyLast, ← (candidates_eq_ok_iff.mp hobjects).2] at hfits
  · intro hfits other hperm
    obtain ⟨hother, hsame⟩ := candidates_of_perm hobjects hperm
    rw [assignmentCount_eq_ok_iff hother]
    refine ⟨((hsame.map List.length).prod_eq).symm, ?_⟩
    calc sizeBeforeEmpty (other.parameters.map c.options)
        ≤ sizeOfNonempty (other.parameters.map c.options) := sizeBeforeEmpty_le _
      _ = sizeOfNonempty objects := sizeOfNonempty_perm hsame
      _ < wordSize := hfits

/-- The assignments are counted right where they are counted, and they are exactly if the word holds
the number of choices for the parameters before the first one without objects. They are counted
whatever the order of the parameters exactly if it holds the number of choices for all parameters
with objects, which is the number of assignments if every parameter has some. -/
theorem assignmentCount_exact_iff (hobjects : schema.candidates c = .ok objects) :
    (∀ n, schema.assignmentCount c = .ok n ↔
        n = (objects.map List.length).prod ∧ sizeBeforeEmpty objects < wordSize) ∧
      (∀ fault, schema.assignmentCount c = .error fault ↔
        fault = .uncountable schema.name ∧ wordSize ≤ sizeBeforeEmpty objects) ∧
      (choices objects).length = (objects.map List.length).prod ∧
      ((∀ other : ActionSchema, other.parameters.Perm schema.parameters →
          other.assignmentCount c = .ok (objects.map List.length).prod) ↔
        sizeOfNonempty objects < wordSize) ∧
      ([] ∉ objects → sizeOfNonempty objects = (objects.map List.length).prod) := by
  refine ⟨fun n => assignmentCount_eq_ok_iff hobjects, fun fault => ?_, length_choices objects,
    counted_in_every_order_iff hobjects, sizeOfNonempty_eq_prod⟩
  exact assignmentCount_eq_error_iff hobjects

def guests : List Name :=
  ["a", "b", "c", "d", "e", "f", "g", "h", "i", "j", "k", "l", "m", "n", "o", "p"]

/-- No ghost is in the house. -/
def house : Catalog := ⟨[("object", guests), ("ghost", [])]⟩

/-- As many guests as there are meet each other and a ghost. -/
def meet : ActionSchema where
  name := "meet"
  parameters := guests.map (⟨"?" ++ ·, "object"⟩) ++ [⟨"?z", "ghost"⟩]

/-- A ghost meets them. -/
def haunt : ActionSchema where
  name := "haunt"
  parameters := ⟨"?z", "ghost"⟩ :: guests.map (⟨"?" ++ ·, "object"⟩)

/-- There is no ghost, so there is no assignment. Where the ghosts are counted first, the count is
zero. -/
theorem assignmentCount_exact_iff_haunt :
    haunt.candidates house = .ok ([] :: guests.map fun _ => guests) ∧
      haunt.assignmentCount house = .ok 0 ∧
      ¬ ∀ other : ActionSchema, other.parameters.Perm haunt.parameters →
        other.assignmentCount house = .ok 0 := by
  have hobjects : haunt.candidates house = .ok ([] :: guests.map fun _ => guests) := by
    decide +kernel
  obtain ⟨hcount, -, -, horders, -⟩ := assignmentCount_exact_iff hobjects
  refine ⟨hobjects, (hcount 0).mpr ?_, fun hall => ?_⟩
  · decide +kernel
  · have hfits := horders.mp hall
    exact absurd hfits (by decide +kernel)

/-- Where the ghosts are counted last, the guests have left the word before. -/
theorem meet_not_counted :
    Catalog.close (.declare .root "ghost") (guests.map (⟨·, "object"⟩)) [] = .ok house ∧
      meet.candidates house = .ok ((guests.map fun _ => guests) ++ [[]]) ∧
      (((guests.map fun _ => guests) ++ [[]]).map List.length).prod = 0 ∧ 0 < wordSize ∧
      meet.assignmentCount house = .error (.uncountable "meet") := by
  have hclose : Catalog.close (.declare .root "ghost") (guests.map (⟨·, "object"⟩)) [] =
      .ok house := by decide +kernel
  have hobjects : meet.candidates house = .ok ((guests.map fun _ => guests) ++ [[]]) := by
    decide +kernel
  refine ⟨hclose, hobjects, by decide +kernel, by decide, ?_⟩
  rw [assignmentCount_eq_error_iff hobjects]
  decide +kernel

end ActionSchema

end StripsReach
