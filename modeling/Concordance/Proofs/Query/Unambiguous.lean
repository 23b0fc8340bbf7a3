import Concordance.Proofs.Query.Reading

/-!
# Queries Have One Derivation

No tokens are the spelling of two derivations, so a query can be spoken of by its tokens.

Two derivations with the same tokens begin in the same way, and are compared from there on,
constructor by constructor. A token in front tells primaries apart, and an operator tells
whether a chain goes on. The one case in which more than the front is needed is a word: it is
a name if an equals sign is behind it. So tokens behind an operand have to be given with it,
and are compared along with it.

## Theorems

* `Grammar.Operand.spelling_append_inj`: What is behind an operand is told apart from it.
* `Grammar.Query.spelling_inj`: No tokens are the spelling of two queries.
-/

namespace Concordance

namespace Grammar

open Concordance.Parser

/-- An operator is known from its tokens, and so is what is behind it. -/
theorem Relop.spelling_append_inj {relop relop' : Relop} {next next' : Operand}
    {rest rest' : List Token}
    (h : relop.spelling ++ (next.spelling ++ rest) = relop'.spelling ++ (next'.spelling ++ rest')) :
    relop = relop' ∧ next.spelling ++ rest = next'.spelling ++ rest' := by
  have hop := relop.operator_spelling next rest
  rw [h, relop'.operator_spelling next' rest'] at hop
  have hsame : relop = relop' := by
    -- What means the same is told apart by the number of tokens.
    cases relop <;> cases relop' <;>
      first | rfl | exact absurd hop (by simp [Relop.operator, Relop.spelling])
  subst hsame
  exact ⟨rfl, List.append_cancel_left h⟩

mutual

theorem Query.spelling_append_inj (query : Query) {query' : Query} {rest rest' : List Token}
    (h : query.spelling ++ rest = query'.spelling ++ rest') (hrest : operator rest = none)
    (hrest' : operator rest' = none) : query = query' ∧ rest = rest' := by
  cases query with
  | chain first more =>
    cases query' with
    | chain first' more' =>
      rw [Query.spelling, Query.spelling, List.append_assoc, List.append_assoc] at h
      rcases first.spelling_append_inj h (more.head?_ne_equals hrest) (more'.head?_ne_equals hrest')
        with ⟨rfl, hmore⟩
      rcases more.spelling_append_inj hmore hrest hrest' with ⟨rfl, hsame⟩
      exact ⟨rfl, hsame⟩

theorem Links.spelling_append_inj (more : Links) {more' : Links} {rest rest' : List Token}
    (h : more.spelling ++ rest = more'.spelling ++ rest') (hrest : operator rest = none)
    (hrest' : operator rest' = none) : more = more' ∧ rest = rest' := by
  -- Where one chain ends, there is no operator for the other one to go on with.
  have hends : ∀ {relop next more} {behind behind' : List Token}, operator behind' = none →
      (Links.cons relop next more).spelling ++ behind ≠ behind' := by
    rintro relop next more behind _ hnone rfl
    rw [Links.spelling, List.append_assoc, List.append_assoc, relop.operator_spelling] at hnone
    exact absurd hnone (by simp)
  cases more with
  | nil =>
    cases more' with
    | nil => exact ⟨rfl, h⟩
    | cons => exact absurd h.symm (hends hrest)
  | cons relop next more =>
    cases more' with
    | nil => exact absurd h (hends hrest')
    | cons relop' next' more' =>
      rw [Links.spelling, Links.spelling, List.append_assoc, List.append_assoc, List.append_assoc,
        List.append_assoc] at h
      rcases Relop.spelling_append_inj h with ⟨rfl, hnext⟩
      rcases next.spelling_append_inj hnext (more.head?_ne_equals hrest)
        (more'.head?_ne_equals hrest') with ⟨rfl, hmore⟩
      rcases more.spelling_append_inj hmore hrest hrest' with ⟨rfl, hsame⟩
      exact ⟨rfl, hsame⟩

/-- What is behind an operand is told apart from it, if it does not make a name of it. -/
theorem Operand.spelling_append_inj (operand : Operand) {operand' : Operand}
    {rest rest' : List Token} (h : operand.spelling ++ rest = operand'.spelling ++ rest')
    (hrest : rest.head? ≠ some .equals) (hrest' : rest'.head? ≠ some .equals) :
    operand = operand' ∧ rest = rest' := by
  -- A name has an equals sign behind it, and a primary has none.
  have hname : ∀ {name primary} {primary' : Primary} {behind behind' : List Token},
      behind'.head? ≠ some .equals →
      (Operand.named name primary).spelling ++ behind ≠ primary'.spelling ++ behind' := by
    intro name primary primary' behind behind' hhead heq
    cases primary' with
    | word text => exact hhead ((congrArg List.head? (List.cons.inj heq).2).symm)
    | _ => exact absurd (List.cons.inj heq).1 (by simp)
  cases operand with
  | named name primary =>
    cases operand' with
    | named name' primary' =>
      rcases List.cons.inj h with ⟨hsame, h⟩
      rcases Token.word.inj hsame with rfl
      have hprimary : primary.spelling ++ rest = primary'.spelling ++ rest' :=
        (List.cons.inj (List.cons.inj h).2).2
      rcases primary.spelling_append_inj hprimary hrest hrest' with ⟨rfl, hbehind⟩
      exact ⟨rfl, hbehind⟩
    | plain primary' => exact absurd h (hname hrest')
  | plain primary =>
    cases operand' with
    | named name' primary' => exact absurd h.symm (hname hrest)
    | plain primary' =>
      rcases primary.spelling_append_inj h hrest hrest' with ⟨rfl, hbehind⟩
      exact ⟨rfl, hbehind⟩

theorem Primary.spelling_append_inj (primary : Primary) {primary' : Primary}
    {rest rest' : List Token} (h : primary.spelling ++ rest = primary'.spelling ++ rest')
    (hrest : rest.head? ≠ some .equals) (hrest' : rest'.head? ≠ some .equals) :
    primary = primary' ∧ rest = rest' := by
  cases primary with
  | group query =>
    cases primary' with
    | group query' =>
      have hquery : query.spelling ++ [.closeParen] ++ rest
          = query'.spelling ++ [.closeParen] ++ rest' := (List.cons.inj h).2
      rw [List.append_assoc, List.append_assoc] at hquery
      -- Behind each of the two there is a parenthesis that closes, and not an equals sign.
      rcases query.spelling_append_inj hquery rfl rfl with ⟨rfl, hbehind⟩
      exact ⟨rfl, (List.cons.inj hbehind).2⟩
    | _ => exact absurd (List.cons.inj h).1 (by simp)
  | not operand =>
    cases primary' with
    | not operand' =>
      have hoperand : operand.spelling ++ rest = operand'.spelling ++ rest' := (List.cons.inj h).2
      rcases operand.spelling_append_inj hoperand hrest hrest' with ⟨rfl, hbehind⟩
      exact ⟨rfl, hbehind⟩
    | _ => exact absurd (List.cons.inj h).1 (by simp)
  | word text =>
    cases primary' with
    | word text' =>
      rcases List.cons.inj h with ⟨hsame, hbehind⟩
      rcases Token.word.inj hsame with rfl
      exact ⟨rfl, hbehind⟩
    | _ => exact absurd (List.cons.inj h).1 (by simp)
  | wildcard lead =>
    cases primary' with
    | wildcard lead' =>
      rcases List.cons.inj h with ⟨hsame, hbehind⟩
      rcases Token.wildcard.inj hsame with rfl
      exact ⟨rfl, hbehind⟩
    | _ => exact absurd (List.cons.inj h).1 (by simp)

end

end Grammar

end Concordance
