import Concordance.Proofs.Word.Run
import Concordance.Query.Lexer

/-!
# Tokens of a Query

Which queries have tokens, what these are, and that they can be written down again.

A lexer stands in front of a run of word characters or of one other character, and `Front` has
a constructor for each. What it does from there on depends on what is behind, never on what
came before: a run is always taken whole, so a lexer never stands in the middle of one. This
is why a star can be judged by the run in front of it in the text, and not by what the lexer
remembers.

Only one thing can go wrong. A star asks for the words that begin with the word in front of
it, and where there is no such word, there is nothing to begin with. `StarAlone` says this of
a text without the lexer.

Words lose the punctuation at their ends on the way, and nothing more is cut off what is left.
So a token is its own run when it is written down between spaces, and is read as it was.

## Main definitions

* `Token.WellFormed`: A token that a query can have, its end apart.
* `Lexer.Front`: What may stand at the front of a text.
* `Lexer.StarAlone`: A star without a word in front of it.
* `Lexer.Outcome`: What a lexer makes of a text.

## Theorems

* `Lexer.front`: A lexer sees what is there.
* `Lexer.all_eq`: One step of the lexer.
* `Lexer.all_outcome`: A text has tokens, or it has a star without a word.
* `Lexer.all_spelled`: Tokens are read back from what they are written as.
* `tokenize_exact`: All of this for any text.
-/

namespace Concordance

/-- A token that a query can have, its end apart: words are trimmed, and no word is one that a
    query has another use for. -/
def Token.WellFormed : Token → Prop
  | .word text => Word.Trimmed text.toList ∧ text ∉ ["and", "or", "not", "near"]
  | .wildcard text => Word.Trimmed text.toList
  | .finish => False
  | _ => True

namespace Lexer

open Word (isWordChar trimChars Run Trimmed)

variable {cs raw behind rest word : List Char} {token : Token}

/-- A word stands for itself if a query has no other use for it. -/
theorem keyword_of_notMem {text : String} (h : text ∉ ["and", "or", "not", "near"]) :
    keyword text.toList = .word text := by
  have hne : ∀ cs, String.ofList cs ∈ ["and", "or", "not", "near"] → text.toList ≠ cs := by
    rintro cs hcs rfl
    rw [String.ofList_toList] at hcs
    exact h hcs
  rw [keyword, if_neg (hne _ (by decide)), if_neg (hne _ (by decide)), if_neg (hne _ (by decide)),
    if_neg (hne _ (by decide)), String.ofList_toList]

theorem keyword_ne_finish (word : List Char) : keyword word ≠ .finish := by
  unfold keyword
  repeat' split
  all_goals simp

theorem lexemeOfRun_star : lexemeOfRun raw ('*' :: rest) =
    if (trimChars raw).isEmpty then .starAfter raw rest
    else .token (.wildcard (String.ofList (trimChars raw))) (raw.length + 1) rest := rfl

/-- A run that no star follows is a word by itself. -/
theorem lexemeOfRun_eq (h : behind.head? ≠ some '*') :
    lexemeOfRun raw behind =
      if (trimChars raw).isEmpty then .gap raw.length behind
      else .token (keyword (trimChars raw)) raw.length behind := by
  unfold lexemeOfRun
  split
  · exact absurd rfl h
  · rfl

/-- What may stand at the front of a text: nothing, one character, or a run. A run is a word or
    nothing but punctuation, and a star may follow it. -/
inductive Front : List Char → Lexeme → Prop
  | finish : Front [] .finish
  | openParen (rest : List Char) : Front ('(' :: rest) (.token .openParen 1 rest)
  | closeParen (rest : List Char) : Front (')' :: rest) (.token .closeParen 1 rest)
  | equals (rest : List Char) : Front ('=' :: rest) (.token .equals 1 rest)
  | loneStar (rest : List Char) : Front ('*' :: rest) .loneStar
  | other {c : Char} (hc : isWordChar c = false) (hother : c ∉ ['(', ')', '=', '*'])
    (rest : List Char) : Front (c :: rest) (.gap 1 rest)
  | word {raw behind : List Char} (hrun : Run raw behind) (hstar : behind.head? ≠ some '*')
    (hword : trimChars raw ≠ []) :
    Front (raw ++ behind) (.token (keyword (trimChars raw)) raw.length behind)
  | punctuation {raw behind : List Char} (hrun : Run raw behind) (hstar : behind.head? ≠ some '*')
    (hword : trimChars raw = []) : Front (raw ++ behind) (.gap raw.length behind)
  | wildcard {raw rest : List Char} (hrun : Run raw ('*' :: rest)) (hword : trimChars raw ≠ []) :
    Front (raw ++ '*' :: rest)
      (.token (.wildcard (String.ofList (trimChars raw))) (raw.length + 1) rest)
  | starAfter {raw rest : List Char} (hrun : Run raw ('*' :: rest)) (hword : trimChars raw = []) :
    Front (raw ++ '*' :: rest) (.starAfter raw rest)

theorem front_run (h : Run raw behind) :
    Front (raw ++ behind) (lexemeOfRun raw behind) := by
  by_cases hstar : behind.head? = some '*'
  · rcases List.head?_eq_some_iff.mp hstar with ⟨rest, rfl⟩
    rw [lexemeOfRun_star]
    split
    · rename_i hword
      exact .starAfter h (List.isEmpty_iff.mp hword)
    · rename_i hword
      exact .wildcard h fun hnil => hword (List.isEmpty_iff.mpr hnil)
  · rw [lexemeOfRun_eq hstar]
    split
    · rename_i hword
      exact .punctuation h hstar (List.isEmpty_iff.mp hword)
    · rename_i hword
      exact .word h hstar fun hnil => hword (List.isEmpty_iff.mpr hnil)

/-- A lexer sees what is there. -/
theorem front (cs : List Char) : Front cs (lexeme cs) := by
  rcases cs with _ | ⟨c, cs⟩
  · exact .finish
  · rw [lexeme]
    split
    · rename_i hc
      exact hc ▸ .openParen cs
    · split
      · rename_i hc
        exact hc ▸ .closeParen cs
      · split
        · rename_i hc
          exact hc ▸ .equals cs
        · split
          · rename_i hc
            exact hc ▸ .loneStar cs
          · -- It is none of the characters that are read by themselves.
            split
            · rename_i hword
              have hrun : Run ((c :: cs).takeWhile isWordChar) ((c :: cs).dropWhile isWordChar) :=
                Word.exists_run hword
              have hfront := front_run hrun
              rwa [List.takeWhile_append_dropWhile] at hfront
            · rename_i hword
              exact .other (Bool.eq_false_iff.mpr hword) (by simp [*]) cs

/-- So it takes a run for what it is. -/
theorem lexeme_run (h : Run raw behind) :
    lexeme (raw ++ behind) = lexemeOfRun raw behind := by
  rcases hraw : raw with _ | ⟨c, cs⟩
  · exact absurd hraw h.nonempty
  · have hc := h.chars c (hraw ▸ List.mem_cons_self)
    have hother : c ≠ '(' ∧ c ≠ ')' ∧ c ≠ '=' ∧ c ≠ '*' := by
      refine ⟨?_, ?_, ?_, ?_⟩ <;> rintro rfl <;> exact absurd hc (by decide)
    rw [List.cons_append, lexeme, if_neg hother.1, if_neg hother.2.1, if_neg hother.2.2.1,
      if_neg hother.2.2.2, if_pos hc, ← List.cons_append, ← hraw, h.takeWhile_eq, h.dropWhile_eq]

/-- The end of a text is no piece of it. -/
theorem lexeme_token_ne_finish {size : Nat}
    (h : lexeme cs = .token token size rest) : token ≠ .finish := by
  have hfront := front cs
  rw [h] at hfront
  cases hfront with
  | word => exact keyword_ne_finish _
  | _ => simp

theorem next_eq (lexer : Lexer) : lexer.next =
    match lexeme lexer.rest with
    | .finish => (.ok .finish, lexer)
    | .token token size rest => (.ok token, ⟨rest, lexer.position + size⟩)
    | .gap size rest => next ⟨rest, lexer.position + size⟩
    | .loneStar => (.error (.malformed (.loneStar lexer.position)), lexer)
    | .starAfter raw rest =>
      (.error (.malformed (.starAfter (String.ofList raw))),
        ⟨rest, lexer.position + raw.length + 1⟩) := by
  rw [next]
  split <;> simp_all

theorem all_eq_next (lexer : Lexer) : lexer.all =
    match lexer.next with
    | (.error e, _) => .error e
    | (.ok token, lexer') =>
      if token = .finish then .ok [.finish] else lexer'.all.map (token :: ·) := by
  rw [all]
  split <;> simp_all

/-- One step of the lexer. -/
theorem all_eq (lexer : Lexer) : lexer.all =
    match lexeme lexer.rest with
    | .finish => .ok [.finish]
    | .token token size rest => (all ⟨rest, lexer.position + size⟩).map (token :: ·)
    | .gap size rest => all ⟨rest, lexer.position + size⟩
    | .loneStar => .error (.malformed (.loneStar lexer.position))
    | .starAfter raw _ => .error (.malformed (.starAfter (String.ofList raw))) := by
  rw [all_eq_next, next_eq]
  rcases hlexeme : lexeme lexer.rest with _ | ⟨token, size, rest⟩ | ⟨size, rest⟩ | _ | ⟨raw, rest⟩
  · rfl
  · exact if_neg (lexeme_token_ne_finish hlexeme)
  · exact (all_eq_next _).symm
  · rfl
  · rfl

/-- A star without a word in front of it: the word characters that it follows, if there are any,
    have no letter and no digit among them. -/
def StarAlone (cs : List Char) : Prop :=
  ∃ before after, cs = before ++ '*' :: after
    ∧ ∀ c ∈ before.rtakeWhile isWordChar, c.isAlphanum = false

theorem not_starAlone_nil : ¬ StarAlone [] := by
  rintro ⟨before, after, heq, -⟩
  exact absurd heq (List.append_ne_nil_of_right_ne_nil _ (List.cons_ne_nil _ _)).symm

/-- No word goes across a character that is not one of words, so the texts on both sides of it
    can be looked at by themselves. -/
theorem starAlone_append_cons {front : List Char} {c : Char} (hc : isWordChar c = false) :
    StarAlone (front ++ c :: behind)
      ↔ StarAlone front
        ∨ (c = '*' ∧ ∀ d ∈ front.rtakeWhile isWordChar, d.isAlphanum = false)
        ∨ StarAlone behind := by
  -- The characters of words at the end of a text do not reach back across the character.
  have hcut : ∀ more : List Char,
      (front ++ c :: more).rtakeWhile isWordChar = more.rtakeWhile isWordChar := by
    intro more
    induction more using List.reverseRecOn with
    | nil => exact List.rtakeWhile_concat_neg _ _ _ (by simp [hc])
    | append_singleton more d ih =>
      rw [← List.cons_append, ← List.append_assoc, List.rtakeWhile_concat, List.rtakeWhile_concat,
        ih]
  constructor
  · -- The star is behind the character, or is the character, or is in front of it.
    rintro ⟨before, after, heq, hrun⟩
    rcases List.append_eq_append_iff.mp heq with ⟨more, rfl, hmore⟩ | ⟨more, rfl, hmore⟩
    · rcases more with _ | ⟨d, more⟩
      · rw [List.nil_append] at hmore
        rw [List.append_nil] at hrun
        exact .inr (.inl ⟨(List.cons.inj hmore).1, hrun⟩)
      · rw [List.cons_append] at hmore
        rcases List.cons.inj hmore with ⟨rfl, hbehind⟩
        rw [hcut] at hrun
        exact .inr (.inr ⟨more, after, hbehind, hrun⟩)
    · rcases more with _ | ⟨d, more⟩
      · rw [List.nil_append] at hmore
        rw [List.append_nil]
        exact .inr (.inl ⟨(List.cons.inj hmore).1.symm, hrun⟩)
      · rcases List.cons.inj hmore with ⟨rfl, -⟩
        exact .inl ⟨before, more, rfl, hrun⟩
  · rintro (⟨before, after, rfl, hrun⟩ | ⟨rfl, hrun⟩ | ⟨before, after, rfl, hrun⟩)
    · exact ⟨before, after ++ c :: behind, by rw [List.append_assoc, List.cons_append], hrun⟩
    · exact ⟨front, behind, rfl, hrun⟩
    · refine ⟨front ++ c :: before, after, by rw [List.append_assoc, List.cons_append], ?_⟩
      rwa [hcut]

/-- A star in front is alone if nothing is in front of it. -/
theorem starAlone_cons {c : Char} (hc : isWordChar c = false) :
    StarAlone (c :: rest) ↔ c = '*' ∨ StarAlone rest := by
  have hfront : StarAlone ([] ++ c :: rest) ↔ _ := starAlone_append_cons hc
  simpa [not_starAlone_nil] using hfront

theorem starAlone_cons_of_ne {c : Char} (hc : isWordChar c = false) (hne : c ≠ '*') :
    StarAlone (c :: rest) ↔ StarAlone rest :=
  (starAlone_cons hc).trans (or_iff_right hne)

/-- Characters of words are no stars. -/
theorem not_starAlone_of_isWordChar (h : ∀ c ∈ cs, isWordChar c = true) :
    ¬ StarAlone cs := by
  rintro ⟨before, after, rfl, -⟩
  exact absurd (h '*' (List.mem_append_right _ List.mem_cons_self)) (by decide)

/-- A run decides of the star behind it. -/
theorem starAlone_run_star (h : Run raw ('*' :: rest)) :
    StarAlone (raw ++ '*' :: rest) ↔ trimChars raw = [] ∨ StarAlone rest := by
  rw [starAlone_append_cons (by decide), List.rtakeWhile_eq_self_iff.mpr h.chars,
    or_iff_right (not_starAlone_of_isWordChar h.chars), ← Word.trimChars_eq_nil_iff]
  simp

/-- It has no part in what is behind any other character. -/
theorem starAlone_run_of_ne (h : Run raw behind)
    (hstar : behind.head? ≠ some '*') : StarAlone (raw ++ behind) ↔ StarAlone behind := by
  have hnone := not_starAlone_of_isWordChar h.chars
  rcases behind with _ | ⟨c, rest⟩
  · rw [List.append_nil]
    exact iff_of_false hnone not_starAlone_nil
  · have hc : isWordChar c = false := h.ends c rfl
    have hne : c ≠ '*' := fun heq => hstar (congrArg some heq)
    rw [starAlone_append_cons hc, starAlone_cons_of_ne hc hne]
    simp [hnone, hne]

/-- A trimmed run is a word or an operator. -/
theorem keyword_wellFormed (h : Trimmed word) : (keyword word).WellFormed := by
  unfold keyword
  repeat' split
  · trivial
  · trivial
  · trivial
  · trivial
  · rename_i hand hor hnot hnear
    -- What is left is a word, since it is none of the operators.
    refine ⟨by rwa [String.toList_ofList], fun hmem => ?_⟩
    have hchars := List.mem_map_of_mem (f := String.toList) hmem
    rw [String.toList_ofList] at hchars
    simp only [List.map_cons, List.map_nil, List.mem_cons, List.not_mem_nil, or_false] at hchars
    rcases hchars with h | h | h | h
    · exact hand h
    · exact hor h
    · exact hnot h
    · exact hnear h

/-- What a lexer makes of a text: an error if there is a star alone in it, and otherwise tokens
    that a query can have. -/
inductive Outcome (cs : List Char) : Except Error (List Token) → Prop
  | failed (cause : Malformed) (halone : StarAlone cs) : Outcome cs (.error (.malformed cause))
  | read {tokens : List Token} (hwell : ∀ token ∈ tokens, token.WellFormed)
    (halone : ¬ StarAlone cs) : Outcome cs (.ok (tokens ++ [.finish]))

/-- What is passed over makes no difference if it has no star alone. -/
theorem Outcome.pass {result : Except Error (List Token)} (h : Outcome rest result)
    (hiff : StarAlone cs ↔ StarAlone rest) : Outcome cs result := by
  rcases h with ⟨cause, halone⟩ | ⟨hwell, halone⟩
  · exact .failed cause (hiff.mpr halone)
  · exact .read hwell (hiff.not.mpr halone)

/-- And what is read goes in front of the tokens behind it. -/
theorem Outcome.cons {result : Except Error (List Token)} (h : Outcome rest result)
    (hiff : StarAlone cs ↔ StarAlone rest) (htoken : token.WellFormed) :
    Outcome cs (result.map (token :: ·)) := by
  rcases h.pass hiff with ⟨cause, halone⟩ | ⟨hwell, halone⟩
  · exact .failed cause halone
  · exact .read (List.forall_mem_cons.mpr ⟨htoken, hwell⟩) halone

/-- Any text is cut into tokens, or has a star alone and is refused. -/
theorem all_outcome (cs : List Char) (position : Nat) : Outcome cs (all ⟨cs, position⟩) := by
  -- What is behind a piece is shorter.
  induction hlength : cs.length using Nat.strongRecOn generalizing cs position with
  | _ length ih =>
    have hrest : ∀ {rest : List Char}, rest.length < cs.length → ∀ position,
        Outcome rest (all ⟨rest, position⟩) :=
      fun hlt position => ih _ (hlength ▸ hlt) _ position rfl
    -- What is behind a piece is judged by itself, and the piece decides only of its own star.
    have hfront := front cs
    rw [all_eq]
    dsimp only
    generalize lexeme cs = piece at hfront ⊢
    cases hfront with
    | finish =>
      show Outcome [] (.ok ([] ++ [.finish]))
      exact .read (by simp) not_starAlone_nil
    | openParen rest =>
      exact (hrest (Nat.lt_succ_self _) _).cons
        (starAlone_cons_of_ne (by decide) (by decide)) trivial
    | closeParen rest =>
      exact (hrest (Nat.lt_succ_self _) _).cons
        (starAlone_cons_of_ne (by decide) (by decide)) trivial
    | equals rest =>
      exact (hrest (Nat.lt_succ_self _) _).cons
        (starAlone_cons_of_ne (by decide) (by decide)) trivial
    | loneStar rest => exact .failed _ ((starAlone_cons (by decide)).mpr (.inl rfl))
    | @other c hc hother rest =>
      have hne : c ≠ '*' := by
        rintro rfl
        exact hother (by decide)
      exact (hrest (Nat.lt_succ_self _) _).pass (starAlone_cons_of_ne hc hne)
    | word hrun hstar hword =>
      -- No star follows the run, so it has no part in what is behind it.
      exact (hrest hrun.length_lt _).cons (starAlone_run_of_ne hrun hstar)
        (keyword_wellFormed (Word.trimmed_trimChars hrun.chars hword))
    | punctuation hrun hstar hword =>
      exact (hrest hrun.length_lt _).pass (starAlone_run_of_ne hrun hstar)
    | wildcard hrun hword =>
      -- The star has a word in front of it.
      refine (hrest (Nat.lt_of_succ_lt hrun.length_lt) _).cons
        ((starAlone_run_star hrun).trans (or_iff_right hword)) ?_
      rw [Token.WellFormed, String.toList_ofList]
      exact Word.trimmed_trimChars hrun.chars hword
    | starAfter hrun hword => exact .failed _ ((starAlone_run_star hrun).mpr (.inl hword))

/-- A word is its own run where something else than a word is behind it. -/
theorem lexeme_trimmed (h : Trimmed word) (hends : ∀ c ∈ behind.head?, isWordChar c = false)
    (hstar : behind.head? ≠ some '*') :
    lexeme (word ++ behind) = .token (keyword word) word.length behind := by
  rw [lexeme_run ⟨h.nonempty, h.chars, hends⟩, lexemeOfRun_eq hstar, h.trimChars_eq,
    if_neg (by simpa using h.nonempty)]

/-- A token is read back where it ends, or where a space is behind it. -/
theorem lexeme_spelling (behind : List Char) (h : token.WellFormed)
    (hblank : ∀ c ∈ behind.head?, c = ' ') :
    ∃ size, lexeme (token.spelling.toList ++ behind) = .token token size behind := by
  have hends : ∀ c ∈ behind.head?, isWordChar c = false := fun c hc => by
    rw [hblank c hc]
    decide
  have hstar : behind.head? ≠ some '*' := fun hhead => absurd (hblank _ hhead) (by decide)
  have hword : ∀ word : List Char, Trimmed word →
      ∃ size, lexeme (word ++ behind) = .token (keyword word) size behind :=
    fun word htrimmed => ⟨_, lexeme_trimmed htrimmed hends hstar⟩
  -- Brackets and equals signs are read whatever is behind them, all others are runs.
  cases token with
  | word text =>
    have hlexeme := hword _ h.1
    rwa [keyword_of_notMem h.2] at hlexeme
  | wildcard text =>
    have htrimmed : Trimmed text.toList := h
    have hrun : Run text.toList ('*' :: behind) :=
      ⟨htrimmed.nonempty, htrimmed.chars, fun c hc => Option.some.inj hc ▸ by decide⟩
    refine ⟨text.toList.length + 1, ?_⟩
    rw [Token.spelling, String.toList_append, List.append_assoc]
    change lexeme (text.toList ++ '*' :: behind) = _
    rw [lexeme_run hrun, lexemeOfRun_star, htrimmed.trimChars_eq,
      if_neg (by simpa using htrimmed.nonempty), String.ofList_toList]
  | openParen => exact ⟨1, rfl⟩
  | closeParen => exact ⟨1, rfl⟩
  | equals => exact ⟨1, rfl⟩
  | and => exact hword ['a', 'n', 'd'] (Word.trimmed_of_all (by decide) (by decide))
  | or => exact hword ['o', 'r'] (Word.trimmed_of_all (by decide) (by decide))
  | not => exact hword ['n', 'o', 't'] (Word.trimmed_of_all (by decide) (by decide))
  | near => exact hword ['n', 'e', 'a', 'r'] (Word.trimmed_of_all (by decide) (by decide))
  | finish => exact absurd h id

/-- Tokens are read back from what they are written as. -/
theorem all_spelled {tokens : List Token} (h : ∀ token ∈ tokens, token.WellFormed)
    (position : Nat) :
    all ⟨(" ".intercalate (tokens.map Token.spelling)).toList, position⟩
      = .ok (tokens ++ [.finish]) := by
  induction tokens generalizing position with
  | nil => exact all_eq _
  | cons token tokens ih =>
    have hbehind := ih fun other hother => h other (List.mem_cons_of_mem _ hother)
    rcases tokens with _ | ⟨next, tokens⟩
    · -- The last token ends where the text does.
      rcases lexeme_spelling [] (h token List.mem_cons_self) (by simp)
        with ⟨size, hlexeme⟩
      rw [List.append_nil] at hlexeme
      rw [List.map_singleton, String.intercalate_singleton, all_eq, hlexeme]
      exact congrArg (Except.map _) (hbehind (position + size))
    · -- There is a space between this token and the next one.
      have hspelled : (" ".intercalate ((token :: next :: tokens).map Token.spelling)).toList
          = token.spelling.toList
            ++ ' ' :: (" ".intercalate ((next :: tokens).map Token.spelling)).toList := by
        rw [List.map_cons, List.map_cons, String.intercalate_cons_cons, String.toList_append,
          String.toList_append, List.append_assoc]
        rfl
      rcases lexeme_spelling (' ' :: _) (h token List.mem_cons_self) (by simp)
        with ⟨size, hlexeme⟩
      rw [hspelled, all_eq, hlexeme]
      -- The space is passed over.
      have hgap := (all_eq ⟨' ' :: _, position + size⟩).trans (hbehind (position + size + 1))
      exact congrArg (Except.map _) hgap

end Lexer

/-- A query is refused if it has a star with no word in front of it, and for nothing else.
    Otherwise it has tokens, and its end is the last of these and no other one. Words begin and
    end in a letter or a digit and are no operators, and the tokens can be written down between
    spaces, to be read as the same tokens again. -/
theorem tokenize_exact (text : String) :
    ((∃ cause, tokenize text = .error (.malformed cause)) ↔ Lexer.StarAlone text.toList)
      ∧ (¬ Lexer.StarAlone text.toList → ∃ tokens, tokenize text = .ok (tokens ++ [.finish])
        ∧ .finish ∉ tokens
        ∧ (∀ token ∈ tokens, token.WellFormed)
        ∧ tokenize (" ".intercalate (tokens.map Token.spelling)) = .ok (tokens ++ [.finish])) := by
  have houtcome := Lexer.all_outcome text.toList 0
  rw [tokenize]
  generalize Lexer.all ⟨text.toList, 0⟩ = result at houtcome ⊢
  cases houtcome with
  | failed cause halone =>
    exact ⟨iff_of_true ⟨cause, rfl⟩ halone, fun hnone => absurd halone hnone⟩
  | @read tokens hwell halone =>
    have hspelled := Lexer.all_spelled hwell 0
    exact ⟨iff_of_false (by simp) halone,
      fun _ => ⟨tokens, rfl, fun hmem => hwell _ hmem, hwell, hspelled⟩⟩

/-- The star of the first query has only a gap in front of it, and that of the second one has
    the start of a word. -/
theorem tokenize_exact_of_stars :
    ((∃ cause, tokenize "cat *" = .error (.malformed cause))
        ∧ Lexer.StarAlone "cat *".toList)
      ∧ ¬ Lexer.StarAlone "'Cat-' near (do*)".toList
      ∧ ∃ tokens, tokenize "'Cat-' near (do*)" = .ok (tokens ++ [.finish])
        ∧ .finish ∉ tokens
        ∧ (∀ token ∈ tokens, token.WellFormed)
        ∧ tokenize (" ".intercalate (tokens.map Token.spelling)) = .ok (tokens ++ [.finish]) := by
  -- Between the gap and the star there is no character of a word.
  have halone : Lexer.StarAlone "cat *".toList := by
    refine ⟨['c', 'a', 't', ' '], [], rfl, ?_⟩
    rw [show ['c', 'a', 't', ' '].rtakeWhile Word.isWordChar = [] from rfl]
    exact List.forall_mem_nil _
  have hread : ¬ Lexer.StarAlone "'Cat-' near (do*)".toList := by
    intro hstar
    rcases (tokenize_exact "'Cat-' near (do*)").1.mpr hstar with ⟨cause, herror⟩
    have hok : (tokenize "'Cat-' near (do*)").toOption.isSome = true := by decide +kernel
    rw [herror] at hok
    exact absurd hok (by simp [Except.toOption])
  exact ⟨⟨(tokenize_exact "cat *").1.mpr halone, halone⟩, hread,
    (tokenize_exact "'Cat-' near (do*)").2 hread⟩

end Concordance
