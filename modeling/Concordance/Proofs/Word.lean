import Concordance.Proofs.Query.Lexing

/-!
# A Prepared Word Is a Query for Itself

What an indexer makes of a text, and what a query makes of what came of it.

A text is folded before it is cut, and each piece is folded again before it is trimmed. A
query is folded once, and trims what it cuts. All the same they agree, since pieces are made
of ASCII characters. Folding leaves nothing of them to do but the lower case, and what it
leaves in lower case it leaves alone from then on.

So a word that was prepared is read as one token, which is the word itself. The only
exceptions are those that a query has another use for.

## Main definitions

* `Word.Plain`: A word as it is when it was prepared.

## Theorems

* `Text.foldChars_ascii`: Folding ASCII is lower-casing.
* `Word.plain_prepare`: Candidates are prepared as plain words.
* `Word.Plain.tokenize_eq`: A plain word is a token.
-/

namespace Concordance

/-- What is true of the first 128 characters is true of all ASCII. -/
theorem forall_ascii {p : Char → Prop} (h : ∀ n < 128, p (Char.ofNat n)) {c : Char}
    (hc : c.val < 0x80) : p c := by
  have hlt : c.toNat < 128 := UInt32.lt_iff_toNat_lt.mp hc
  have hchar := h c.toNat hlt
  rw [Char.ofNat_toNat] at hchar
  exact hchar

namespace Text

theorem decompose_ascii {c : Char} (h : c.val < 0x80) : decompose c = [c] := by
  rw [decompose, if_pos h]

/-- Nothing is rearranged where there is no mark. -/
theorem arrange_ascii {cs : List Char} (h : ∀ c ∈ cs, c.val < 0x80) : arrange cs = cs := by
  have hplace : ∀ read : List Char,
      cs.foldl (fun read c => place c (combiningClass c) read) read = cs.reverse ++ read := by
    induction cs with
    | nil => exact fun _ => rfl
    | cons c cs ih =>
      intro read
      have hlt : c.val < 0x300 := UInt32.lt_of_lt_of_le (h c List.mem_cons_self) (by decide)
      have hclass : combiningClass c = 0 := if_pos hlt
      have hstep : place c 0 read = c :: read := by cases read <;> rfl
      rw [List.foldl_cons, hclass, hstep, ih fun d hd => h d (List.mem_cons_of_mem _ hd),
        List.reverse_cons, List.append_assoc, List.singleton_append]
  rw [arrange, hplace, List.append_nil, List.reverse_reverse]

theorem isDiacritic_ascii {c : Char} (h : c.val < 0x80) : isDiacritic c = false :=
  forall_ascii (p := fun c => isDiacritic c = false) (by decide) h

/-- Letters of ASCII are lower-cased one by one. -/
theorem lowercaseAfter_ascii {before cs : List Char} (h : ∀ c ∈ cs, c.val < 0x80) :
    lowercaseAfter before cs = cs.map Char.toLower := by
  induction cs generalizing before with
  | nil => rfl
  | cons c cs ih =>
    have hc := h c List.mem_cons_self
    -- What stands around a letter matters for these two only.
    have hdotted : c ≠ '\u0130' := by rintro rfl; exact absurd hc (by decide)
    have hsigma : c ≠ '\u03A3' := by rintro rfl; exact absurd hc (by decide)
    rw [lowercaseAfter, ih fun d hd => h d (List.mem_cons_of_mem _ hd), lowerAt, if_neg hdotted,
      if_neg hsigma, lowerChar, if_pos hc, List.map_cons, List.singleton_append]

/-- Folding ASCII is lower-casing. -/
theorem foldChars_ascii {cs : List Char} (h : ∀ c ∈ cs, c.val < 0x80) :
    foldChars cs = cs.map Char.toLower := by
  have hparts : cs.flatMap decompose = cs := by
    induction cs with
    | nil => rfl
    | cons c cs ih =>
      rw [List.flatMap_cons, decompose_ascii (h c List.mem_cons_self),
        ih fun d hd => h d (List.mem_cons_of_mem _ hd), List.singleton_append]
  have hkept : (cs.filter fun c => !isDiacritic c) = cs :=
    List.filter_eq_self.mpr fun c hc => by rw [isDiacritic_ascii (h c hc)]; rfl
  rw [foldChars, hparts, arrange_ascii h, hkept, lowercase, lowercaseAfter_ascii h]

end Text

namespace Word

/-- Characters of words are ASCII. -/
theorem ascii_of_isWordChar {c : Char} (h : isWordChar c = true) : c.val < 0x80 := by
  have hupper : c.isUpper = true → c.val < 0x80 := fun h =>
    UInt32.lt_of_le_of_lt (of_decide_eq_true h).2 (by decide)
  have hlower : c.isLower = true → c.val < 0x80 := fun h =>
    UInt32.lt_of_le_of_lt (of_decide_eq_true ((Bool.and_eq_true _ _).mp h).2) (by decide)
  have hdigit : c.isDigit = true → c.val < 0x80 := fun h =>
    UInt32.lt_of_le_of_lt (of_decide_eq_true ((Bool.and_eq_true _ _).mp h).2) (by decide)
  have halphanum : c.isAlphanum = true → c.val < 0x80 := fun h =>
    ((Bool.or_eq_true _ _).mp h).elim
      (fun halpha => ((Bool.or_eq_true _ _).mp halpha).elim hupper hlower) hdigit
  rw [isWordChar] at h
  simp only [Bool.or_eq_true, decide_eq_true_eq] at h
  rcases h with (((h | rfl) | rfl) | rfl) | rfl
  · exact halphanum h
  all_goals decide

/-- A character of words in lower case is one too, and stays as it is. -/
theorem isWordChar_toLower {c : Char} (h : isWordChar c = true) :
    isWordChar c.toLower = true ∧ c.toLower.toLower = c.toLower :=
  forall_ascii (p := fun c => isWordChar c = true → isWordChar c.toLower = true
    ∧ c.toLower.toLower = c.toLower) (by decide) (ascii_of_isWordChar h) h

/-- Pieces are made of the characters of words in a text. -/
theorem of_mem_pieces {cs piece : List Char} (h : piece ∈ pieces cs) :
    ∀ c ∈ piece, isWordChar c = true ∧ c ∈ cs := by
  -- What is in the rest of a text is in the text.
  have hbehind : ∀ {c : Char} {cs piece : List Char}, (∀ d ∈ piece, isWordChar d = true ∧ d ∈ cs) →
      ∀ d ∈ piece, isWordChar d = true ∧ d ∈ c :: cs :=
    fun h d hd => ⟨(h d hd).1, List.mem_cons_of_mem _ (h d hd).2⟩
  induction cs generalizing piece with
  | nil =>
    rw [pieces, List.mem_singleton] at h
    rw [h]
    exact fun _ hc => absurd hc List.not_mem_nil
  | cons c cs ih =>
    rw [pieces] at h
    split at h
    · -- A character of a word goes to the first piece, and anything else begins one.
      rename_i hword
      split at h
      · rename_i first rest hpieces
        rw [hpieces] at ih
        rcases List.mem_cons.mp h with rfl | h
        · exact List.forall_mem_cons.mpr
            ⟨⟨hword, List.mem_cons_self⟩, hbehind (ih List.mem_cons_self)⟩
        · exact hbehind (ih (List.mem_cons_of_mem _ h))
      · rw [List.mem_singleton] at h
        rw [h]
        exact List.forall_mem_cons.mpr
          ⟨⟨hword, List.mem_cons_self⟩, fun _ hd => absurd hd List.not_mem_nil⟩
    · rcases List.mem_cons.mp h with rfl | h
      · exact fun _ hd => absurd hd List.not_mem_nil
      · exact hbehind (ih h)

/-- What was trimmed has no punctuation at its ends any more. -/
theorem trimChars_trimChars (cs : List Char) : trimChars (trimChars cs) = trimChars cs := by
  let punctuation : Char → Bool := fun c => !c.isAlphanum
  have hhead : (trimChars cs).dropWhile punctuation = trimChars cs := by
    refine List.dropWhile_eq_self_iff.mpr fun hpos => ?_
    -- What is cut off behind leaves the first character, and that is not punctuation.
    have hfront : trimChars cs <+: cs.dropWhile punctuation := List.rdropWhile_prefix ..
    rw [hfront.getElem hpos]
    exact List.dropWhile_eq_self_iff.mp (List.dropWhile_idempotent ..) _
  have htail : (trimChars cs).rdropWhile punctuation = trimChars cs :=
    List.rdropWhile_idempotent punctuation (cs.dropWhile punctuation)
  calc trimChars (trimChars cs)
      = ((trimChars cs).dropWhile punctuation).rdropWhile punctuation := rfl
    _ = trimChars cs := by rw [hhead, htail]

/-- A word as it is when it was prepared. -/
structure Plain (word : List Char) : Prop where
  chars : ∀ c ∈ word, isWordChar c = true
  lower : word.map Char.toLower = word
  trimmed : trimChars word = word

/-- Candidates are prepared as plain words. -/
theorem plain_prepare {text raw : String} (h : raw ∈ candidates text) :
    Plain (prepare raw).toList := by
  rcases List.mem_map.mp h with ⟨piece, hpiece, rfl⟩
  have hchars : ∀ c ∈ piece, isWordChar c = true :=
    fun c hc => (of_mem_pieces (List.mem_filter.mp hpiece).1 c hc).1
  have hmem : ∀ c ∈ trimChars (piece.map Char.toLower), ∃ d ∈ piece, c = d.toLower := by
    intro c hc
    rcases List.mem_map.mp (mem_of_mem_trimChars hc) with ⟨d, hd, rfl⟩
    exact ⟨d, hd, rfl⟩
  rw [prepare, String.toList_ofList, String.toList_ofList, prepareChars,
    Text.foldChars_ascii fun c hc => ascii_of_isWordChar (hchars c hc)]
  refine ⟨fun c hc => ?_, ?_, trimChars_trimChars _⟩
  · rcases hmem c hc with ⟨d, hd, rfl⟩
    exact (isWordChar_toLower (hchars d hd)).1
  · refine (List.map_congr_left fun c hc => ?_).trans (List.map_id _)
    rcases hmem c hc with ⟨d, hd, rfl⟩
    exact (isWordChar_toLower (hchars d hd)).2

namespace Plain

variable {word : List Char}

/-- Folding leaves a plain word alone. -/
theorem fold_eq (h : Plain word) : Text.foldChars word = word := by
  rw [Text.foldChars_ascii fun c hc => ascii_of_isWordChar (h.chars c hc), h.lower]

/-- A plain word is one run. -/
theorem lexeme_eq (h : Plain word) (hne : word ≠ []) :
    Lexer.lexeme word = .token (Lexer.keyword word) word.length [] := by
  have hrun : Run word [] := ⟨hne, h.chars, fun _ hc => absurd hc (by simp)⟩
  calc Lexer.lexeme word = Lexer.lexeme (word ++ []) := by rw [List.append_nil]
    _ = Lexer.lexemeOfRun word [] := Lexer.lexeme_run hrun
    _ = .token (Lexer.keyword word) word.length [] := by
      rw [Lexer.lexemeOfRun_eq (by simp), h.trimmed, if_neg (by simpa using hne)]

/-- A plain word is a token, unless it is empty or a query has another use for it. -/
theorem tokenize_eq {text : String} (h : Plain text.toList)
    (hfree : text ∉ ["", "and", "or", "not", "near"]) :
    tokenize (Text.fold text) = .ok [.word text, .finish] := by
  rw [List.mem_cons, not_or] at hfree
  have hlexeme := h.lexeme_eq fun hnil => hfree.1 (String.toList_eq_nil_iff.mp hnil)
  rw [Lexer.keyword_of_notMem hfree.2] at hlexeme
  rw [tokenize, Text.fold, String.toList_ofList, h.fold_eq, Lexer.all_eq, hlexeme]
  exact congrArg (Except.map _) (Lexer.all_eq ⟨[], _⟩)

end Plain

end Word

end Concordance
