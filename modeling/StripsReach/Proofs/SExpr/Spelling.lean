import StripsReach.Config
import StripsReach.Proofs.SExpr.Writing
import StripsReach.Proofs.Text.Boundaries

/-!
# Spellings

A text is put into lower case as a whole before it is cut into tokens, while a configuration puts
every name into lower case by itself. The result is the same: every token of a text in lower case
is the lower case of a token of the text. No letter sees past a parenthesis, a blank or a semicolon,
and lower casing neither makes nor removes one of these, so words and comments end where they did.
-/

namespace StripsReach.SExpr

open Text (AtBound Bounds OwnCase)

/-! ### Delimiters -/

/-- A fact about all delimiters is one about seven characters. -/
theorem of_isDelimiter {p : Char → Prop} [DecidablePred p]
    (hall : ['(', ')', ';', ' ', '\t', '\r', '\n'].all (p ·) = true) {c : Char}
    (h : isDelimiter c = true) : p c := by
  have hmem : c ∈ ['(', ')', ';', ' ', '\t', '\r', '\n'] := by
    simpa [isDelimiter, isBlank, or_assoc] using h
  simpa using List.all_eq_true.mp hall c hmem

theorem bounds_of_isDelimiter {c : Char} (h : isDelimiter c = true) : Bounds c :=
  of_isDelimiter (by decide +kernel) h

theorem ownCase_of_isDelimiter {c : Char} (h : isDelimiter c = true) : OwnCase c :=
  of_isDelimiter (by decide) h

theorem isAscii_of_isDelimiter {c : Char} (h : isDelimiter c = true) : c.toNat < 128 :=
  of_isDelimiter (p := (·.toNat < 128)) (by decide) h

theorem isDelimiter_of_endsLine {c : Char} (h : endsLine c = true) : isDelimiter c = true := by
  simp only [endsLine, Bool.or_eq_true, decide_eq_true_eq] at h
  rcases h with rfl | rfl <;> rfl

theorem toLower_eq_of_isDelimiter : ∀ n < 128, isDelimiter (Char.ofNat n).toLower = true →
    (Char.ofNat n).toLower = Char.ofNat n := by
  decide +kernel

/-- No other character has a delimiter in its lower case. -/
theorem eq_of_mem_lowerChar {c d : Char} (hmem : d ∈ Text.lowerChar c)
    (hd : isDelimiter d = true) : d = c := by
  have hascii := isAscii_of_isDelimiter hd
  unfold Text.lowerChar at hmem
  split at hmem
  · next hc =>
    obtain rfl := List.mem_singleton.1 hmem
    simpa using toLower_eq_of_isDelimiter c.toNat hc (by simpa using hd)
  · split at hmem
    · obtain rfl | rfl : d = 'i' ∨ d = '\u0307' := by simpa using hmem
      · cases hd
      · cases hd
    · split at hmem
      · next n hfound =>
        obtain rfl := List.mem_singleton.1 hmem
        obtain ⟨range, hrange, hlower⟩ := List.exists_of_findSome?_eq_some hfound
        rcases Text.image_cases hrange hlower with rfl | ⟨hwide, hpoint⟩
        · cases hd
        · omega
      · exact List.mem_singleton.1 hmem

theorem isDelimiter_lowerSigma (done rest : List Char) :
    isDelimiter (Text.lowerSigma done rest) = false := by
  unfold Text.lowerSigma
  split <;> rfl

theorem mem_of_mem_lowercaseAfter {done s : List Char} {d : Char}
    (hmem : d ∈ Text.lowercaseAfter done s) (hd : isDelimiter d = true) : d ∈ s := by
  induction s generalizing done with
  | nil => cases hmem
  | cons c rest ih =>
    rw [Text.lowercaseAfter, List.mem_append] at hmem
    rcases hmem with hhead | hrest
    · split at hhead
      · obtain rfl := List.mem_singleton.1 hhead
        rw [isDelimiter_lowerSigma] at hd
        cases hd
      · exact eq_of_mem_lowerChar hhead hd ▸ List.mem_cons_self
    · exact List.mem_cons_of_mem c (ih hrest)

/-! ### Tokens without their places -/

/-- A token whose word is put into lower case by itself. -/
def Token.lowercase : Token → Token
  | .opening => .opening
  | .closing => .closing
  | .word name => .word (Text.lowercase name)

def Token.word? : Token → Option Name
  | .word name => some name
  | _ => none

/-- The parentheses and words of a text. -/
def symbols (s : List Char) : List Token := (tokens s).map Prod.fst

/-- The words of a text as they are spelled there. -/
def spellings (text : String) : List Name := (symbols text.toList).filterMap Token.word?

theorem map_fst_tokensFrom (place : Text.Position) (s : List Char) :
    (tokensFrom place s).map Prod.fst = symbols s := by
  suffices h : ∀ place other, (tokensFrom place s).map Prod.fst = (tokensFrom other s).map Prod.fst
    from h place ⟨1, 1⟩
  intro place other
  induction place, s using tokensFrom.induct generalizing other with
  | case1 => simp [tokensFrom]
  | case2 place c rest hblank ih =>
    rw [tokensFrom, tokensFrom, if_pos hblank, if_pos hblank]
    exact ih _
  | case3 place rest hblank ih =>
    rw [tokensFrom, tokensFrom, if_neg hblank, if_neg hblank, if_pos rfl, if_pos rfl]
    exact ih _
  | case4 place rest hblank hcomment ih =>
    rw [tokensFrom_opening, tokensFrom_opening, List.map_cons, List.map_cons, ih (other.next '(')]
  | case5 place rest hblank hcomment hopening ih =>
    rw [tokensFrom_closing, tokensFrom_closing, List.map_cons, List.map_cons, ih (other.next ')')]
  | case6 place c rest hblank hcomment hopening hclosing chars ih =>
    rw [tokensFrom, tokensFrom]
    simp only [hblank, hcomment, hopening, hclosing, if_false, List.map_cons]
    rw [ih (other.past chars)]

variable {s left rest chars after : List Char} {c : Char}

theorem symbols_blank (hc : isBlank c = true) : symbols (c :: rest) = symbols rest := by
  rw [symbols, tokens, tokensFrom_cons, if_pos hc, map_fst_tokensFrom]

theorem symbols_opening : symbols ('(' :: rest) = .opening :: symbols rest := by
  rw [symbols, tokens, tokensFrom_opening, List.map_cons, map_fst_tokensFrom]

theorem symbols_closing : symbols (')' :: rest) = .closing :: symbols rest := by
  rw [symbols, tokens, tokensFrom_closing, List.map_cons, map_fst_tokensFrom]

theorem symbols_word (hchars : IsWord chars) (hafter : AtDelimiter after) :
    symbols (chars ++ after) = .word (String.ofList chars) :: symbols after := by
  rw [symbols, tokens, tokensFrom_word ⟨1, 1⟩ hchars hafter, List.map_cons, map_fst_tokensFrom]

/-- A comment goes on to the end of its line. -/
theorem symbols_comment (hchars : ∀ c ∈ chars, endsLine c = false)
    (hafter : ∀ c ∈ after.head?, endsLine c = true) :
    symbols (';' :: (chars ++ after)) = symbols after := by
  have hrest := (span_append hchars hafter).2
  have hblank : ¬ isBlank ';' = true := by decide
  rw [symbols, tokens, tokensFrom_cons, if_neg hblank, if_pos rfl, map_fst_tokensFrom, hrest]

theorem symbols_skipGap (s : List Char) : symbols (skipGap s) = symbols s := by
  obtain ⟨gap, hgap, hskipped⟩ := exists_gap s
  have htokens := tokensFrom_gap hskipped ⟨1, 1⟩
  rw [← hgap] at htokens
  rw [symbols, symbols, tokens, tokens, htokens, map_fst_tokensFrom, map_fst_tokensFrom]

/-! ### The lower case of a text -/

theorem AtDelimiter.atBound (h : AtDelimiter s) : AtBound s :=
  fun c hc => bounds_of_isDelimiter (h c hc)

theorem lowercaseAfter_delimiter (hc : isDelimiter c = true) :
    Text.lowercaseAfter left (c :: rest) = c :: Text.lowercaseAfter (c :: left) rest :=
  Text.lowercaseAfter_cons_of_ownCase left rest (ownCase_of_isDelimiter hc)

/-- The lower case of a text starts with the same delimiter. -/
theorem head?_lowercaseAfter (hafter : AtDelimiter after) :
    (Text.lowercaseAfter left after).head? = after.head? := by
  cases after with
  | nil => rfl
  | cons c after => rw [lowercaseAfter_delimiter (hafter c rfl)]; rfl

theorem isWord_lowercaseAfter (hchars : IsWord chars) :
    IsWord (Text.lowercaseAfter left chars) := by
  refine ⟨Text.lowercaseAfter_ne_nil hchars.1, fun d hd => ?_⟩
  by_contra hdelimiter
  have hdelimiter : isDelimiter d = true := by simpa using hdelimiter
  have hplain := hchars.2 d (mem_of_mem_lowercaseAfter hd hdelimiter)
  rw [hdelimiter] at hplain
  cases hplain

/-- Lower casing does not move the end of a comment. -/
theorem symbols_lowercaseAfter_comment (hchars : ∀ c ∈ chars, endsLine c = false)
    (hafter : ∀ c ∈ after.head?, endsLine c = true) :
    symbols (';' :: Text.lowercaseAfter left (chars ++ after)) =
      symbols (Text.lowercaseAfter (chars.reverse ++ left) after) := by
  have hat : AtDelimiter after := fun c hc => isDelimiter_of_endsLine (hafter c hc)
  rw [Text.lowercaseAfter_append hat.atBound]
  refine symbols_comment (fun d hd => ?_) (by rwa [head?_lowercaseAfter hat])
  by_contra hends
  have hends : endsLine d = true := by simpa using hends
  have hplain := hchars d (mem_of_mem_lowercaseAfter hd (isDelimiter_of_endsLine hends))
  rw [hends] at hplain
  cases hplain

/-- A word becomes the word that its own lower case is. -/
theorem symbols_lowercaseAfter_word (hleft : AtDelimiter left) (hchars : IsWord chars)
    (hafter : AtDelimiter after) :
    symbols (Text.lowercaseAfter left (chars ++ after)) =
      (Token.word (String.ofList chars)).lowercase ::
        symbols (Text.lowercaseAfter (chars.reverse ++ left) after) := by
  have hat : AtDelimiter (Text.lowercaseAfter (chars.reverse ++ left) after) := by
    rwa [AtDelimiter, head?_lowercaseAfter hafter]
  rw [Text.lowercaseAfter_append hafter.atBound, symbols_word (isWord_lowercaseAfter hchars) hat,
    Text.lowercaseAfter_of_atBound hleft.atBound]
  simp [Token.lowercase, Text.lowercase]

/-- The tokens of a part of a text in lower case are those of the part, each in lower case, if a
delimiter stands on either side of where the part begins. -/
theorem symbols_lowercaseAfter (left s : List Char) (hbound : AtDelimiter left ∨ AtDelimiter s) :
    symbols (Text.lowercaseAfter left s) = (symbols s).map Token.lowercase := by
  match s, hbound with
  | [], _ => simp [Text.lowercaseAfter, symbols, tokens, tokensFrom]
  | c :: rest, hbound =>
    by_cases hc : isDelimiter c = true
    · rw [lowercaseAfter_delimiter hc]
      have hnext : AtDelimiter (c :: left) := by
        rintro d ⟨⟩
        exact hc
      by_cases hblank : isBlank c = true
      · rw [symbols_blank hblank, symbols_blank hblank,
          symbols_lowercaseAfter (c :: left) rest (.inl hnext)]
      · have hcases : c = '(' ∨ c = ')' ∨ c = ';' := by
          simpa [isDelimiter, hblank, or_assoc] using hc
        rcases hcases with rfl | rfl | rfl
        · rw [symbols_opening, symbols_opening,
            symbols_lowercaseAfter ('(' :: left) rest (.inl hnext)]
          rfl
        · rw [symbols_closing, symbols_closing,
            symbols_lowercaseAfter (')' :: left) rest (.inl hnext)]
          rfl
        · obtain ⟨comment, after, rfl, hcomment, hafter⟩ := exists_comment rest
          rw [symbols_lowercaseAfter_comment hcomment hafter, symbols_comment hcomment hafter]
          exact symbols_lowercaseAfter _ after
            (.inr fun d hd => isDelimiter_of_endsLine (hafter d hd))
    · have hplain : isDelimiter c = false := by simpa using hc
      have hleft : AtDelimiter left := by
        refine hbound.resolve_right fun hs => ?_
        exact hc (hs c rfl)
      have hchars := isWord_cons_takeWhile hplain rest
      have hafter := atDelimiter_dropWhile rest
      have hsplit : c :: rest =
          c :: rest.takeWhile (!isDelimiter ·) ++ rest.dropWhile (!isDelimiter ·) := by
        rw [List.cons_append, List.takeWhile_append_dropWhile]
      have hshorter := length_dropWhile_le (!isDelimiter ·) rest
      rw [hsplit, symbols_lowercaseAfter_word hleft hchars hafter, symbols_word hchars hafter,
        symbols_lowercaseAfter _ _ (.inr hafter), List.map_cons]
termination_by s.length

/-- A text in lower case has the tokens of the text, each in lower case. -/
theorem symbols_lowercaseChars (s : List Char) :
    symbols (Text.lowercaseChars s) = (symbols s).map Token.lowercase :=
  symbols_lowercaseAfter [] s (.inl nofun)

/-! ### The words of an expression -/

/-- The words of what is read are the words of the text, in their order. -/
theorem filterMap_word?_of_reads {items : List SExpr} (h : Reads s items rest) :
    (symbols s).filterMap Token.word? =
      wordsOfAll items ++ (symbols rest).filterMap Token.word? := by
  induction h with
  | done s => rfl
  | @word s chars after rest items hskip hchars hafter _ ih =>
    rw [← symbols_skipGap, hskip, symbols_word hchars hafter, wordsOfAll, List.append_assoc, ← ih]
    rfl
  | @list s inside close after rest inner items hopening _ hclosing _ ihInner ihItems =>
    rw [← symbols_skipGap, hopening, symbols_opening, wordsOfAll, List.append_assoc, ← ihItems]
    show (symbols inside).filterMap Token.word? = _
    rw [ihInner, ← symbols_skipGap close, hclosing, symbols_closing]
    rfl

theorem words_eq_map_lowercase {text : String} {e : SExpr} (h : read text = .ok e) :
    e.words = (spellings text).map Text.lowercase := by
  obtain ⟨rest, hreads, hend⟩ := reads_of_readLower h
  have hrest : symbols rest = [] := by
    rw [← symbols_skipGap, hend]
    simp [symbols, tokens, tokensFrom]
  have hwords := filterMap_word?_of_reads hreads
  rw [hrest, symbols_lowercaseChars, List.filterMap_map] at hwords
  rw [spellings, List.map_filterMap]
  simp only [wordsOfAll, List.append_nil, List.filterMap_nil] at hwords
  rw [← hwords]
  refine congrArg (List.filterMap · _) (funext fun t => ?_)
  cases t <;> rfl

/-- Lower casing the whole text or token by token is the same. So the words that are read are the
lower cases of the words in the text, and a name in a configuration is such a word exactly if both
spellings have one lower case. -/
theorem lowercase_token_by_token (text : String) :
    symbols (Text.lowercaseChars text.toList) = (symbols text.toList).map Token.lowercase ∧
      ∀ e, read text = .ok e →
        e.words = (spellings text).map Text.lowercase ∧
        ∀ (i : Nat) (written spelling : String), (spellings text)[i]? = some written →
          (Config.name? (.text spelling) = e.words[i]? ↔
            Text.lowercase spelling = Text.lowercase written) := by
  refine ⟨symbols_lowercaseChars text.toList, fun e hread => ?_⟩
  have hwords := words_eq_map_lowercase hread
  refine ⟨hwords, fun i written spelling hwritten => ?_⟩
  rw [hwords, List.getElem?_map, hwritten]
  exact Option.some_inj

/-- The sigma that ends a word is final there and in a configuration, whatever follows the word. -/
theorem lowercase_token_by_token_sigma :
    read "(ΟΔΟΣ(ΣΑΣ);ΑΣ\nΑΣ.Β)" =
        .ok (.list [.word "οδος", .list [.word "σας"], .word "ασ.β"]) ∧
      spellings "(ΟΔΟΣ(ΣΑΣ);ΑΣ\nΑΣ.Β)" = ["ΟΔΟΣ", "ΣΑΣ", "ΑΣ.Β"] ∧
      (Config.name? (.text "ΣαΣ") = some "σας" ↔ Text.lowercase "ΣαΣ" = Text.lowercase "ΣΑΣ") := by
  have hread : read "(ΟΔΟΣ(ΣΑΣ);ΑΣ\nΑΣ.Β)" =
      .ok (.list [.word "οδος", .list [.word "σας"], .word "ασ.β"]) := by
    decide +kernel
  have hspelled : spellings "(ΟΔΟΣ(ΣΑΣ);ΑΣ\nΑΣ.Β)" = ["ΟΔΟΣ", "ΣΑΣ", "ΑΣ.Β"] := by
    decide +kernel
  refine ⟨hread, hspelled, ?_⟩
  exact ((lowercase_token_by_token "(ΟΔΟΣ(ΣΑΣ);ΑΣ\nΑΣ.Β)").2 _ hread).2 1 "ΣΑΣ" "ΣαΣ"
    (by rw [hspelled]; rfl)

end StripsReach.SExpr
