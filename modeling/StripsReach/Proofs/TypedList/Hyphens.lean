import Mathlib.Data.List.Infix
import StripsReach.Proofs.TypedList.Runs
import StripsReach.Proofs.Types.Declarations

/-!
# Hyphens in typed lists

A hyphen stands between the names of a run and their type. It is never taken for a name, and what
follows it has to be a word: a hyphen at the end and one before a nested list are refused. But any
word will do, so of two hyphens in a row the second is taken for a type, of typed lists and of
hierarchies alike. Nothing else makes a type of a hyphen.
-/

namespace StripsReach

namespace TypeHierarchy

/-- The types of an accepted hierarchy are those that the typed list mentions. -/
theorem ofItems_cases (items : List SExpr) :
    (∃ fault, ofItems items = .error fault ∧ TypedList.ofItems "types" items = .error fault) ∨
      ∃ h list, ofItems items = .ok h ∧ TypedList.ofItems "types" items = .ok list ∧
        ∀ x, x ∈ h.types ↔ x = objectType ∨ list.Mentions x := by
  have hagree : Agree root (ofItemsAfter ([].foldl declare root) [] items)
      (TypedList.ofItems "types" items) := agree_ofItemsAfter .root
  rw [List.foldl_nil] at hagree
  unfold ofItems
  generalize ofItemsAfter root [] items = types at hagree ⊢
  generalize TypedList.ofItems "types" items = entries at hagree ⊢
  cases hagree with
  | refused fault => exact Or.inl ⟨fault, rfl, rfl⟩
  | @accepted next list hnext =>
    exact Or.inr ⟨_, list, rfl, rfl, fun x => hnext.mem_types_attachOrphans⟩

end TypeHierarchy

namespace TypedList

/-- Two hyphens stand in a row. -/
def DoubleHyphen (items : List SExpr) : Prop := [.word "-", .word "-"] <:+: items

/-- A hyphen has no word after it: it is the last item, and not the second of two hyphens, or a
nested list comes next. -/
inductive Dangling : List SExpr → Prop
  | last {before : List SExpr} : ¬ [.word "-"] <:+ before → Dangling (before ++ [.word "-"])
  | nested {before inner after : List SExpr} :
      Dangling (before ++ .word "-" :: .list inner :: after)

/-- The faults for which a typed list is refused. -/
def faults (context : String) : List Fault :=
  [.expectedName context, .unexpectedHyphen context, .missingType context]

variable {context : String} {pending names : List Name} {name type : Name} {items rest : List SExpr}
  {item : SExpr} {list : TypedList} {fault : Fault}

/-! ### Two in a row -/

theorem doubleHyphen_cons_of_ne (hitem : item ≠ .word "-") :
    DoubleHyphen (item :: rest) ↔ DoubleHyphen rest := by
  unfold DoubleHyphen
  rw [List.infix_cons_iff, List.cons_prefix_cons]
  simp [hitem.symm]

theorem doubleHyphen_names_append (hnames : ∀ name ∈ names, name ≠ "-") :
    DoubleHyphen (names.map SExpr.word ++ rest) ↔ DoubleHyphen rest := by
  induction names with
  | nil => rfl
  | cons name names ih =>
    obtain ⟨hname, hnames⟩ := List.forall_mem_cons.mp hnames
    rw [List.map_cons, List.cons_append, doubleHyphen_cons_of_ne (by simpa using hname), ih hnames]

theorem not_doubleHyphen_names (hnames : ∀ name ∈ names, name ≠ "-") :
    ¬ DoubleHyphen (names.map SExpr.word) := by
  rw [← List.append_nil (names.map SExpr.word), doubleHyphen_names_append hnames]
  simp [DoubleHyphen]

theorem doubleHyphen_hyphen_cons :
    DoubleHyphen (.word "-" :: .word type :: rest) ↔ type = "-" ∨ DoubleHyphen rest := by
  by_cases htype : type = "-"
  · subst htype
    exact iff_of_true ⟨[], rest, rfl⟩ (Or.inl rfl)
  · have hword : SExpr.word type ≠ .word "-" := by simpa using htype
    have hrest : DoubleHyphen (.word "-" :: .word type :: rest) ↔
        DoubleHyphen (.word type :: rest) := by
      unfold DoubleHyphen
      rw [List.infix_cons_iff, List.cons_prefix_cons, List.cons_prefix_cons]
      simp [hword.symm]
    rw [hrest, doubleHyphen_cons_of_ne hword]
    exact (or_iff_right htype).symm

/-- In runs of names that are no hyphens, two hyphens in a row are one before a type and that
type. -/
theorem InRuns.hyphen_type_iff (hruns : list.InRuns items)
    (hlist : ∀ entry ∈ list, entry.value ≠ "-") :
    (∃ entry ∈ list, entry.type = "-") ↔ DoubleHyphen items := by
  induction hruns with
  | nil => simp [DoubleHyphen]
  | @untyped run _ htype =>
    have hnames := values_ne_hyphen hlist
    refine iff_of_false ?_ (not_doubleHyphen_names hnames)
    rintro ⟨entry, hentry, hhyphen⟩
    rw [htype entry hentry] at hhyphen
    exact absurd hhyphen (by decide)
  | @run run list type items hne htype _ ih =>
    obtain ⟨hrun, hrest⟩ := List.forall_mem_append.mp hlist
    have hnames := values_ne_hyphen hrun
    have hhyphen : (∃ entry ∈ run, entry.type = "-") ↔ type = "-" := by
      obtain ⟨first, hfirst⟩ := List.exists_mem_of_ne_nil run hne
      constructor
      · rintro ⟨entry, hentry, hhyphen⟩
        rwa [htype entry hentry] at hhyphen
      · exact fun hhyphen => ⟨first, hfirst, (htype first hfirst).trans hhyphen⟩
    rw [doubleHyphen_names_append hnames, doubleHyphen_hyphen_cons, ← ih hrest, ← hhyphen]
    simp only [List.mem_append, or_and_right, exists_or]

/-! ### What is refused -/

theorem fault_mem_faults (hread : ofItemsAfter context pending items = .error fault) :
    fault ∈ faults context := by
  fun_induction ofItemsAfter context pending items with
  | case1 => cases hread
  | case2 pending inner rest =>
    cases hread
    simp [faults]
  | case3 pending rest hnone =>
    cases hread
    simp [faults]
  | case4 pending hsome type rest ih =>
    cases hrest : ofItemsAfter context [] rest with
    | error fault' =>
      rw [hrest] at hread
      cases hread
      exact ih hrest
    | ok list =>
      rw [hrest] at hread
      cases hread
  | case5 pending rest hsome hmissing =>
    cases hread
    simp [faults]
  | case6 pending name rest hname ih => exact ih hread

theorem InRuns.words (hruns : list.InRuns items) (hitem : item ∈ items) :
    ∃ name, item = .word name := by
  induction hruns with
  | nil => cases hitem
  | untyped =>
    obtain ⟨name, -, rfl⟩ := List.mem_map.mp hitem
    exact ⟨name, rfl⟩
  | run _ _ _ ih =>
    simp only [List.mem_append, List.mem_map, List.mem_cons] at hitem
    rcases hitem with ⟨name, -, rfl⟩ | rfl | rfl | hrest
    · exact ⟨name, rfl⟩
    · exact ⟨_, rfl⟩
    · exact ⟨_, rfl⟩
    · exact ih hrest

/-- A hyphen at the end is the type of the last run. -/
theorem InRuns.last (hruns : list.InRuns items) (hlist : ∀ entry ∈ list, entry.value ≠ "-")
    (hlast : [.word "-"] <:+ items) : [.word "-", .word "-"] <:+ items := by
  induction hruns with
  | nil => simp at hlast
  | untyped =>
    obtain ⟨name, hname, heq⟩ := List.mem_map.mp (hlast.mem (List.mem_singleton_self _))
    exact absurd (SExpr.word.inj heq) (values_ne_hyphen hlist name hname)
  | @run run list type items _ _ _ ih =>
    obtain ⟨-, hrest⟩ := List.forall_mem_append.mp hlist
    cases items with
    | nil =>
      have hend : [.word "-"] <:+ [SExpr.word "-", .word type] :=
        List.suffix_of_suffix_length_le hlast (List.suffix_append _ _) (by simp)
      have htype : type = "-" := by simpa [List.suffix_cons_iff, eq_comm] using hend
      subst htype
      exact List.suffix_append _ _
    | cons item items =>
      have hitems : item :: items <:+
          run.values.map SExpr.word ++ .word "-" :: .word type :: item :: items :=
        ⟨run.values.map SExpr.word ++ [.word "-", .word type], by simp⟩
      have hend : [.word "-"] <:+ item :: items :=
        List.suffix_of_suffix_length_le hlast hitems (by simp)
      exact (ih hrest hend).trans hitems

theorem InRuns.not_dangling (hruns : list.InRuns items)
    (hlist : ∀ entry ∈ list, entry.value ≠ "-") : ¬ Dangling items := by
  intro hdangling
  cases hdangling with
  | @last before hbefore =>
    obtain ⟨front, hfront⟩ := hruns.last hlist (List.suffix_append before _)
    have heq : (front ++ [.word "-"]) ++ [.word "-"] = before ++ [SExpr.word "-"] := by
      rw [← hfront, List.append_assoc]
      rfl
    exact hbefore ⟨front, List.append_cancel_right heq⟩
  | @nested before inner after =>
    have hword : ∃ name, SExpr.list inner = .word name := hruns.words (by simp)
    obtain ⟨name, hname⟩ := hword
    cases hname

/-- What an accepted list says about its items. -/
theorem hyphens_of_ofItems (hread : ofItems context items = .ok list) :
    (∀ entry ∈ list, entry.value ≠ "-") ∧
      ((∃ entry ∈ list, entry.type = "-") ↔ DoubleHyphen items) ∧ ¬ Dangling items := by
  obtain ⟨hlist, hruns⟩ := inRuns_of_ofItems hread
  exact ⟨hlist, hruns.hyphen_type_iff hlist, hruns.not_dangling hlist⟩

/-- The types of an accepted hierarchy say the same. -/
theorem hyphen_mem_types_iff {h : TypeHierarchy} (hread : TypeHierarchy.ofItems items = .ok h) :
    ("-" ∈ h.types ↔ DoubleHyphen items) ∧ ¬ Dangling items := by
  rcases TypeHierarchy.ofItems_cases items with ⟨fault, hfault, -⟩ | ⟨h', list, hok, hlist, htypes⟩
  · rw [hfault] at hread
    cases hread
  · rw [hok] at hread
    cases hread
    obtain ⟨hvalues, hhyphen, hdangling⟩ := hyphens_of_ofItems hlist
    refine ⟨?_, hdangling⟩
    rw [htypes, ← hhyphen]
    constructor
    · rintro (hobject | ⟨entry, hentry, hvalue | htype⟩)
      · exact absurd hobject (by decide)
      · exact absurd hvalue.symm (hvalues entry hentry)
      · exact ⟨entry, hentry, htype.symm⟩
    · rintro ⟨entry, hentry, htype⟩
      exact Or.inr ⟨entry, hentry, Or.inr htype.symm⟩

/-- A hyphen is never a name of an accepted typed list. It is the type of some entry, or a type of
an accepted hierarchy, exactly if two hyphens stand in a row. A hyphen that has no word after it is
refused, in a typed list and among types. -/
theorem hyphen_type_iff_doubleHyphen (context : String) (items : List SExpr) :
    (∀ list, ofItems context items = .ok list →
      (∀ entry ∈ list, entry.value ≠ "-") ∧
        ((∃ entry ∈ list, entry.type = "-") ↔ DoubleHyphen items)) ∧
    (∀ h, TypeHierarchy.ofItems items = .ok h → ("-" ∈ h.types ↔ DoubleHyphen items)) ∧
    (Dangling items →
      (∃ fault ∈ faults context, ofItems context items = .error fault) ∧
        ∃ fault ∈ faults "types", TypeHierarchy.ofItems items = .error fault) := by
  refine ⟨fun list hread => ?_, fun h hread => (hyphen_mem_types_iff hread).1,
    fun hdangling => ⟨?_, ?_⟩⟩
  · obtain ⟨hvalues, htypes, -⟩ := hyphens_of_ofItems hread
    exact ⟨hvalues, htypes⟩
  · cases hread : ofItems context items with
    | error fault => exact ⟨fault, fault_mem_faults hread, rfl⟩
    | ok list => exact absurd hdangling (hyphens_of_ofItems hread).2.2
  · rcases TypeHierarchy.ofItems_cases items with ⟨fault, htypes, hlist⟩ | ⟨h, list, htypes, -⟩
    · exact ⟨fault, fault_mem_faults hlist, htypes⟩
    · exact absurd hdangling (hyphen_mem_types_iff htypes).2

/-- A run whose type is a hyphen before one with a type of its own. -/
def hyphened : List SExpr := ["a", "-", "-", "b", "-", "crate"].map SExpr.word

theorem hyphen_type_iff_doubleHyphen_hyphened :
    ofItems "objects" hyphened = .ok [⟨"a", "-"⟩, ⟨"b", "crate"⟩] ∧ DoubleHyphen hyphened ∧
      Dangling (.word "a" :: [.word "-"]) ∧
      ∃ fault ∈ faults "objects", ofItems "objects" (.word "a" :: [.word "-"]) = .error fault := by
  have hread : ofItems "objects" hyphened = .ok [⟨"a", "-"⟩, ⟨"b", "crate"⟩] := by decide +kernel
  have hdangling : Dangling ([.word "a"] ++ [.word "-"]) := .last (by decide)
  exact ⟨hread,
    ((hyphen_type_iff_doubleHyphen "objects" hyphened).1 _ hread).2.mp ⟨_, List.mem_cons_self, rfl⟩,
    hdangling, ((hyphen_type_iff_doubleHyphen "objects" _).2.2 hdangling).1⟩

/-- Two hyphens after a name are accepted, and the second is a type. -/
theorem exists_hyphen_type :
    (∃ list, ofItems "objects" (["a", "-", "-"].map SExpr.word) = .ok list ∧
      ¬ ∀ entry ∈ list, entry.type ≠ "-") ∧
    ∃ h, TypeHierarchy.ofItems (["a", "-", "-"].map SExpr.word) = .ok h ∧ "-" ∈ h.types :=
  ⟨⟨[⟨"a", "-"⟩], by decide +kernel, by decide⟩,
    ⟨["object", "a", "-"], [("object", ["-"]), ("a", []), ("-", ["a"])],
      [("-", "object"), ("a", "-")]⟩, by decide +kernel, by decide⟩

end TypedList

end StripsReach
