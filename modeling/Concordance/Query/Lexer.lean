import Concordance.Error
import Concordance.Word

/-!
# Cutting a Query into Tokens

From the characters of a query to its tokens.

A query is folded before it is cut, so operators are recognised however they are
written. Runs of word characters become words, trimmed at their ends; a star
right behind a run makes a wildcard of it. Brackets and the equals sign stand for
themselves. Every other character only keeps words apart. A star that has no
word in front of it is an error: it would stand for everything.

## Main definitions

* `Lexer`: A place in a query.
* `Lexer.lexeme`: What the front of a query is.
* `Lexer.next`: The next token.
* `tokenize`: All tokens of a query.

## Theorems

* `next_length`: A token takes at least one character.
-/

namespace Concordance

/-- A place in a query: what is left, and how many characters came before. -/
structure Lexer where
  rest : List Char
  position : Nat := 0
deriving DecidableEq, Repr

namespace Lexer

/-- The token of a trimmed run of word characters: four of them are operators. -/
def keyword (word : List Char) : Token :=
  if word = ['a', 'n', 'd'] then .and
  else if word = ['o', 'r'] then .or
  else if word = ['n', 'o', 't'] then .not
  else if word = ['n', 'e', 'a', 'r'] then .near
  else .word (String.ofList word)

/-- What the front of a query is, and what is behind it. Pieces are given with
    their number of characters. -/
inductive Lexeme where
  /-- There are no characters. -/
  | finish
  | token (token : Token) (size : Nat) (rest : List Char)
  /-- Characters that only keep words apart. -/
  | gap (size : Nat) (rest : List Char)
  | loneStar
  /-- A star behind a run that trims to nothing. -/
  | starAfter (raw rest : List Char)
deriving DecidableEq, Repr

/-- What a run of word characters is, given what is behind it. -/
def lexemeOfRun (raw behind : List Char) : Lexeme :=
  match behind with
  | '*' :: rest =>
    if (Word.trimChars raw).isEmpty then .starAfter raw rest
    else .token (.wildcard (String.ofList (Word.trimChars raw))) (raw.length + 1) rest
  | rest =>
    -- Dashes and quotes alone are no word.
    if (Word.trimChars raw).isEmpty then .gap raw.length rest
    else .token (keyword (Word.trimChars raw)) raw.length rest

/-- Looks at the front of a query. -/
def lexeme : List Char → Lexeme
  | [] => .finish
  | c :: cs =>
    if c = '(' then .token .openParen 1 cs
    else if c = ')' then .token .closeParen 1 cs
    else if c = '=' then .token .equals 1 cs
    else if c = '*' then .loneStar
    else if Word.isWordChar c then
      lexemeOfRun ((c :: cs).takeWhile Word.isWordChar) ((c :: cs).dropWhile Word.isWordChar)
    else .gap 1 cs

/-- A run is not empty, so what is behind it is shorter. -/
theorem dropWhile_length {p : Char → Bool} {c : Char} {cs : List Char} (h : p c = true) :
    ((c :: cs).dropWhile p).length < (c :: cs).length := by
  rw [List.dropWhile_cons_of_pos h]
  exact Nat.lt_succ_of_le (List.dropWhile_suffix p).length_le

/-- What is behind the lexeme of a run is no longer than what is behind the run. -/
theorem lexemeOfRun_token_length {raw behind rest : List Char} {token : Token} {size : Nat}
    (h : lexemeOfRun raw behind = .token token size rest) : rest.length ≤ behind.length := by
  unfold lexemeOfRun at h
  split at h <;> split at h
  all_goals simp only [reduceCtorEq, Lexeme.token.injEq] at h
  all_goals obtain ⟨-, -, rfl⟩ := h
  · exact Nat.le_succ _
  · exact Nat.le_refl _

/-- So it is where the run is a gap. -/
theorem lexemeOfRun_gap_length {raw behind rest : List Char} {size : Nat}
    (h : lexemeOfRun raw behind = .gap size rest) : rest.length ≤ behind.length := by
  unfold lexemeOfRun at h
  split at h <;> split at h
  all_goals simp only [reduceCtorEq, Lexeme.gap.injEq] at h
  all_goals obtain ⟨-, rfl⟩ := h
  exact Nat.le_refl _

/-- A token takes at least one character. -/
theorem lexeme_token_length {cs rest : List Char} {token : Token} {size : Nat}
    (h : lexeme cs = .token token size rest) : rest.length < cs.length := by
  cases cs with
  | nil => simp only [lexeme, reduceCtorEq] at h
  | cons c cs =>
    simp only [lexeme] at h
    repeat' split at h
    · obtain ⟨-, -, rfl⟩ := Lexeme.token.inj h
      exact Nat.lt_succ_self _
    · obtain ⟨-, -, rfl⟩ := Lexeme.token.inj h
      exact Nat.lt_succ_self _
    · obtain ⟨-, -, rfl⟩ := Lexeme.token.inj h
      exact Nat.lt_succ_self _
    · simp only [reduceCtorEq] at h
    · rename_i hw
      exact Nat.lt_of_le_of_lt (lexemeOfRun_token_length h) (dropWhile_length hw)
    · simp only [reduceCtorEq] at h

/-- A gap takes at least one character. -/
theorem lexeme_gap_length {cs rest : List Char} {size : Nat}
    (h : lexeme cs = .gap size rest) : rest.length < cs.length := by
  cases cs with
  | nil => simp only [lexeme, reduceCtorEq] at h
  | cons c cs =>
    simp only [lexeme] at h
    repeat' split at h
    · simp only [reduceCtorEq] at h
    · simp only [reduceCtorEq] at h
    · simp only [reduceCtorEq] at h
    · simp only [reduceCtorEq] at h
    · rename_i hw
      exact Nat.lt_of_le_of_lt (lexemeOfRun_gap_length h) (dropWhile_length hw)
    · obtain ⟨-, rfl⟩ := Lexeme.gap.inj h
      exact Nat.lt_succ_self _

/-- The next token, and the place behind it. A lone star is not passed; a star
    behind a run that trims to nothing is. -/
def next (lexer : Lexer) : Except Error Token × Lexer :=
  match h : lexeme lexer.rest with
  | .finish => (.ok .finish, lexer)
  | .token token size rest => (.ok token, ⟨rest, lexer.position + size⟩)
  | .gap size rest =>
    have := lexeme_gap_length h
    next ⟨rest, lexer.position + size⟩
  | .loneStar => (.error (.malformed (.loneStar lexer.position)), lexer)
  | .starAfter raw rest =>
    (.error (.malformed (.starAfter (String.ofList raw))), ⟨rest, lexer.position + raw.length + 1⟩)
termination_by lexer.rest.length

/-- A token takes at least one character, unless it is the end. -/
theorem next_length {lexer lexer' : Lexer} {token : Token}
    (h : lexer.next = (.ok token, lexer')) (ht : token ≠ .finish) :
    lexer'.rest.length < lexer.rest.length := by
  fun_induction next lexer with
  | case1 =>
    simp only [Prod.mk.injEq, Except.ok.injEq] at h
    exact absurd h.1.symm ht
  | case2 lexer token size rest hl =>
    simp only [Prod.mk.injEq] at h
    obtain ⟨-, rfl⟩ := h
    exact lexeme_token_length hl
  | case3 lexer size rest hl hlt ih => exact Nat.lt_trans (ih h) hlt
  | case4 => simp only [Prod.mk.injEq, reduceCtorEq, false_and] at h
  | case5 => simp only [Prod.mk.injEq, reduceCtorEq, false_and] at h

/-- The tokens from here on. -/
def all (lexer : Lexer) : Except Error (List Token) :=
  match h : lexer.next with
  | (.error e, _) => .error e
  | (.ok token, lexer') =>
    if ht : token = .finish then .ok [.finish]
    else
      have := next_length h ht
      (all lexer').map (token :: ·)
termination_by lexer.rest.length

end Lexer

/-- The tokens of a folded query. The last one is its end. -/
def tokenize (query : String) : Except Error (List Token) :=
  Lexer.all ⟨query.toList, 0⟩

end Concordance
