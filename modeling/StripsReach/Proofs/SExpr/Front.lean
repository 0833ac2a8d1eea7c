import StripsReach.Proofs.SExpr.Parentheses

/-!
# The expression at the front of a text

Taking one expression from a text is local. A list is taken up to the parenthesis that closes its
first one, and that place is found by counting: it is the first at which as many parentheses have
been closed as opened, those in comments left aside. What stands behind it is neither read nor
changed. A word is taken up to the first character that no word has.
-/

namespace StripsReach.SExpr

variable {s rest chars : List Char} {items : List SExpr} {name : Name}

/-! ### Runs in front of a longer text -/

/-- A run that something follows is the same run in front of any longer text. Without anything
behind it, its last word could go on. -/
theorem Reads.append (h : Reads s items rest) (hrest : rest ≠ []) (t : List Char) :
    Reads (s ++ t) items (rest ++ t) := by
  induction h with
  | done s => exact .done _
  | @word s chars after rest items hskip hchars hafter hitems ih =>
    have hsome : skipGap s ≠ [] := by simp [hskip, hchars.1]
    have hends : after ≠ [] := by
      obtain ⟨taken, htaken, -⟩ := hitems.exists_taken
      simp [htaken, hrest]
    refine .word ?_ hchars ?_ (ih hrest)
    · rw [skipGap_append hsome, hskip, List.append_assoc]
    · obtain ⟨c, after, rfl⟩ := List.exists_cons_of_ne_nil hends
      exact hafter
  | @list s inside close after rest inner items hopening _ hclosing hitems ihInner ihItems =>
    have hsome : skipGap s ≠ [] := by simp [hopening]
    have hsome' : skipGap close ≠ [] := by simp [hclosing]
    have hclose : close ≠ [] := by
      rintro rfl
      cases hclosing
    refine .list ?_ (ihInner hclose) ?_ (ihItems hrest)
    · rw [skipGap_append hsome, hopening, List.cons_append]
    · rw [skipGap_append hsome', hclosing, List.cons_append]

/-- The rules leave the reader no choice: a run that nothing more follows is the run it takes. -/
theorem readRun_of_reads (h : Reads s items rest) (hend : readFront? (skipGap rest) = none) :
    (readRun s).1 = items ∧ (readRun s).2.1 = rest := by
  induction h with
  | done s => exact readRun_of_none hend
  | @word s chars after rest items hskip hchars hafter _ ih =>
    obtain ⟨hitems, hrest⟩ := ih hend
    obtain ⟨c, chars, rfl⟩ := List.exists_cons_of_ne_nil hchars.1
    obtain ⟨hc, hplain⟩ := List.forall_mem_cons.1 hchars.2
    obtain ⟨htake, hdrop⟩ := span_append hplain hafter
    have hfront := readFront?_word hc (chars ++ after)
    rw [htake, hdrop, ← List.cons_append, ← hskip] at hfront
    obtain ⟨htaken, hleft⟩ := readRun_of_some hfront
    rw [htaken, hleft, hitems, hrest]
    exact ⟨rfl, rfl⟩
  | @list s inside close after rest inner items hopening _ hclosing _ ihInner ihItems =>
    have hstop : readFront? (skipGap close) = none := by
      rw [hclosing]
      exact readFront?_delimiter rfl (by decide) after
    obtain ⟨hinner, hclose⟩ := ihInner hstop
    obtain ⟨hitems, hrest⟩ := ihItems hend
    have hfront := readFront?_opening inside
    rw [hinner, hclose, hclosing, ← hopening] at hfront
    obtain ⟨htaken, hleft⟩ := readRun_of_some hfront
    rw [htaken, hleft, hitems, hrest]
    exact ⟨rfl, rfl⟩

/-! ### One expression -/

/-- The reader takes a list exactly where a text starts with one. -/
theorem readFront?_eq_list_iff : readFront? s = some (.list items, rest) ↔
    ∃ inside close, s = '(' :: inside ∧ Reads inside items close ∧ skipGap close = ')' :: rest := by
  constructor
  · intro h
    cases s with
    | nil =>
      rw [readFront?_nil] at h
      cases h
    | cons c inside =>
      by_cases hopening : c = '('
      · subst hopening
        rw [readFront?_opening] at h
        split at h
        · next after hclose =>
          cases h
          exact ⟨inside, _, rfl, (reads_readRun inside).1, hclose⟩
        · cases h
      · by_cases hc : isDelimiter c = true
        · rw [readFront?_delimiter hc hopening] at h
          cases h
        · rw [readFront?_word (by simpa using hc)] at h
          cases h
  · rintro ⟨inside, close, rfl, hreads, hclose⟩
    have hstop : readFront? (skipGap close) = none := by
      rw [hclose]
      exact readFront?_delimiter rfl (by decide) rest
    obtain ⟨hitems, hrest⟩ := readRun_of_reads hreads hstop
    rw [readFront?_opening]
    simp only [hrest, hclose, hitems]

/-- The reader takes a word exactly where a text starts with one. -/
theorem readFront?_eq_word_iff : readFront? s = some (.word name, rest) ↔
    s = name.toList ++ rest ∧ IsWord name.toList ∧ AtDelimiter rest := by
  constructor
  · intro h
    cases s with
    | nil =>
      rw [readFront?_nil] at h
      cases h
    | cons c inside =>
      by_cases hc : isDelimiter c = true
      · by_cases hopening : c = '('
        · subst hopening
          rw [readFront?_opening] at h
          split at h <;> cases h
        · rw [readFront?_delimiter hc hopening] at h
          cases h
      · have hplain : isDelimiter c = false := by simpa using hc
        rw [readFront?_word hplain] at h
        cases h
        rw [String.toList_ofList, List.cons_append, List.takeWhile_append_dropWhile]
        exact ⟨rfl, isWord_cons_takeWhile hplain inside, atDelimiter_dropWhile inside⟩
  · rintro ⟨rfl, hword, hrest⟩
    obtain ⟨c, chars, hname⟩ := List.exists_cons_of_ne_nil hword.1
    have hname' : name = String.ofList (c :: chars) := by rw [← hname, String.ofList_toList]
    rw [hname] at hword ⊢
    obtain ⟨hc, hplain⟩ := List.forall_mem_cons.1 hword.2
    obtain ⟨htake, hdrop⟩ := span_append hplain hrest
    rw [List.cons_append, readFront?_word hc, htake, hdrop, hname']

/-- What stands behind a list does not change it. -/
theorem readFront?_append (h : readFront? s = some (.list items, rest)) (t : List Char) :
    readFront? (s ++ t) = some (.list items, rest ++ t) := by
  obtain ⟨inside, close, rfl, hreads, hclose⟩ := readFront?_eq_list_iff.1 h
  have hsome : skipGap close ≠ [] := by simp [hclose]
  have hne : close ≠ [] := by
    rintro rfl
    cases hclose
  refine readFront?_eq_list_iff.2 ⟨inside ++ t, close ++ t, rfl, hreads.append hne t, ?_⟩
  rw [skipGap_append hsome, hclose, List.cons_append]

/-! ### What is taken -/

/-- Between the two parentheses of a list those of its items form a Dyck word. -/
theorem exists_within (h : readFront? s = some (.list items, rest)) :
    ∃ within, s = '(' :: within ++ ')' :: rest ∧
      ∃ w : DyckWord, ∀ t, parentheses (within ++ t) = w.toList ++ parentheses t := by
  obtain ⟨inside, close, rfl, hreads, hclose⟩ := readFront?_eq_list_iff.1 h
  obtain ⟨taken, htaken, w, hw⟩ := hreads.exists_taken
  obtain ⟨gap, hgap, hnone⟩ := exists_parentheses_eq (s := close) (by simp [hclose])
  rw [hclose] at hgap
  refine ⟨taken ++ gap, by simp [htaken, hgap], w, fun t => ?_⟩
  rw [List.append_assoc, hw, hnone]

section

variable {within other : List Char} {w : DyckWord}
  (hw : ∀ t, parentheses (within ++ t) = w.toList ++ parentheses t)

include hw

theorem balanced_list : Balanced ('(' :: within ++ [')']) := by
  refine ⟨w.nest, ?_⟩
  rw [List.cons_append, parentheses_opening, hw]
  rfl

/-- No shorter prefix of a text than the list at its front is balanced. -/
theorem prefix_of_balanced (hother : other <+: '(' :: within ++ ')' :: rest) (hne : other ≠ [])
    (hbalanced : Balanced other) : '(' :: within ++ [')'] <+: other := by
  have hlist : '(' :: within ++ [')'] <+: '(' :: within ++ ')' :: rest := ⟨rest, by simp⟩
  rcases List.prefix_or_prefix_of_prefix hother hlist with hshort | hlong
  · rcases List.prefix_concat_iff.1 hshort with rfl | hshort
    · exact List.prefix_rfl
    · have hopens : OpensFirst (parentheses (within ++ [])) := hw [] ▸ opensFirst_nil.append w
      rw [List.append_nil] at hopens
      exact absurd hbalanced (not_balanced_of_opensFirst hopens hshort hne)
  · exact hlong

end

/-- A prefix without a delimiter does not reach past the word at the front of a text. -/
theorem prefix_of_plain {other : List Char} (hchars : ∀ c ∈ chars, isDelimiter c = false)
    (hrest : AtDelimiter rest) (hother : other <+: chars ++ rest)
    (hplain : ∀ c ∈ other, isDelimiter c = false) : other <+: chars := by
  obtain ⟨more, hmore⟩ := hother
  have htaken : (other ++ more).takeWhile (!isDelimiter ·) =
      other ++ more.takeWhile (!isDelimiter ·) :=
    List.takeWhile_append_of_pos (by simpa using hplain)
  rw [hmore, (span_append hchars hrest).1] at htaken
  exact ⟨_, htaken.symm⟩

/-- The reader takes a list where the parenthesis at the front of a text is closed. -/
theorem exists_list_iff : (∃ items rest, readFront? s = some (.list items, rest)) ↔
    s.head? = some '(' ∧ ∃ front, front <+: s ∧ front ≠ [] ∧ Balanced front := by
  constructor
  · rintro ⟨items, rest, h⟩
    obtain ⟨within, rfl, w, hw⟩ := exists_within h
    exact ⟨rfl, '(' :: within ++ [')'], ⟨rest, by simp⟩, by simp, balanced_list hw⟩
  · rintro ⟨hhead, front, hfront, hne, hbalanced⟩
    cases s with
    | nil => cases hhead
    | cons c inside =>
      obtain rfl := Option.some.inj hhead
      obtain ⟨hreads, hstops⟩ := reads_readRun inside
      -- If the run inside does not end at a parenthesis, no prefix balances.
      cases hstops with
      | ended hend =>
        have hopens := opensFirst_of_reads hreads (opensFirst_of_skipGap hend)
        exact absurd hbalanced (not_balanced_of_opensFirst hopens hfront hne)
      | closing hclose => exact ⟨_, _, readFront?_eq_list_iff.2 ⟨inside, _, rfl, hreads, hclose⟩⟩
      | unclosed hopen =>
        have hopens := opensFirst_of_reads hreads (opensFirst_of_unclosed hopen)
        exact absurd hbalanced (not_balanced_of_opensFirst hopens hfront hne)

/-- The reader takes a word where a text starts with no delimiter. -/
theorem exists_word_iff : (∃ name rest, readFront? s = some (.word name, rest)) ↔
    ∃ c ∈ s.head?, isDelimiter c = false := by
  constructor
  · rintro ⟨name, rest, h⟩
    obtain ⟨rfl, ⟨hne, hchars⟩, -⟩ := readFront?_eq_word_iff.1 h
    obtain ⟨c, chars, hname⟩ := List.exists_cons_of_ne_nil hne
    exact ⟨c, by simp [hname], hchars c (by simp [hname])⟩
  · rintro ⟨c, hhead, hc⟩
    obtain ⟨s, rfl⟩ := List.head?_eq_some_iff.1 hhead
    exact ⟨_, _, readFront?_word hc s⟩

/-- The reader takes from the front of a text, and leaves what is behind. It takes a list if the
parenthesis there is closed: the shortest non-empty prefix whose parentheses outside comments
balance, and the same list whatever is written behind the text. It takes a word if no delimiter
stands there: the longest prefix without one, which is not empty. -/
theorem front_taken_locally (s : List Char) :
    ((∃ items rest, readFront? s = some (.list items, rest)) ↔
      s.head? = some '(' ∧ ∃ front, front <+: s ∧ front ≠ [] ∧ Balanced front) ∧
    (∀ items rest, readFront? s = some (.list items, rest) →
      ∃ front, front ++ rest = s ∧ front ≠ [] ∧ Balanced front ∧
        (∀ other, other <+: s → other ≠ [] → Balanced other → front <+: other) ∧
        ∀ t, readFront? (s ++ t) = some (.list items, rest ++ t)) ∧
    ((∃ name rest, readFront? s = some (.word name, rest)) ↔
      ∃ c ∈ s.head?, isDelimiter c = false) ∧
    ∀ name rest, readFront? s = some (.word name, rest) →
      name.toList ++ rest = s ∧ name.toList ≠ [] ∧ (∀ c ∈ name.toList, isDelimiter c = false) ∧
      (∀ other, other <+: s → (∀ c ∈ other, isDelimiter c = false) → other <+: name.toList) ∧
      (rest = [] ∨ ∃ c after, rest = c :: after ∧ isDelimiter c = true) := by
  refine ⟨exists_list_iff, ?_, exists_word_iff, ?_⟩
  · intro items rest h
    obtain ⟨within, rfl, w, hw⟩ := exists_within h
    refine ⟨'(' :: within ++ [')'], by simp, by simp, balanced_list hw, ?_, readFront?_append h⟩
    exact fun other hother hne hbalanced => prefix_of_balanced hw hother hne hbalanced
  · intro name rest h
    obtain ⟨rfl, ⟨hne, hchars⟩, hrest⟩ := readFront?_eq_word_iff.1 h
    refine ⟨rfl, hne, hchars, fun other => prefix_of_plain hchars hrest, ?_⟩
    cases rest with
    | nil => exact Or.inl rfl
    | cons c after => exact Or.inr ⟨c, after, rfl, hrest c rfl⟩

/-- A comment that ends the text stays behind the list, and so does a word that is written after
it. The list ends where its parentheses balance, not at the one in its comment. -/
theorem front_taken_locally_comments :
    readFront? "(a ; )\n(b)); c".toList =
        some (.list [.word "a", .list [.word "b"]], "; c".toList) ∧
      readFront? "(a ; )\n(b)); c) d".toList =
        some (.list [.word "a", .list [.word "b"]], "; c) d".toList) ∧
      (∃ front, front ++ "; c".toList = "(a ; )\n(b)); c".toList ∧ Balanced front) ∧
      readFront? "?x;y".toList = some (.word "?x", ";y".toList) ∧
      ("?".toList <+: "?x;y".toList ∧ "?".toList <+: "?x".toList) := by
  have hlist : readFront? "(a ; )\n(b)); c".toList =
      some (.list [.word "a", .list [.word "b"]], "; c".toList) := by
    decide +kernel
  have hword : readFront? "?x;y".toList = some (.word "?x", ";y".toList) := by decide +kernel
  have hshort : "?".toList <+: "?x;y".toList := by decide
  obtain ⟨front, hfront, -, hbalanced, -, hlocal⟩ := (front_taken_locally _).2.1 _ _ hlist
  obtain ⟨-, -, -, hlongest, -⟩ := (front_taken_locally _).2.2.2 _ _ hword
  exact ⟨hlist, hlocal ") d".toList, ⟨front, hfront, hbalanced⟩, hword, hshort,
    hlongest _ hshort (by simp [isDelimiter, isBlank])⟩

end StripsReach.SExpr
