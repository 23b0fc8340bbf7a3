import Concordance.Proofs.Text.Fold
import Concordance.Proofs.Word

/-!
# A Text and a Query Are Cut Alike

An indexer cuts a folded text at everything that is not a word character, and prepares each
piece by itself. A query is scanned from its front, and what is in front is taken off. These
are two programs, and a word is found only if they agree on where it begins and where it ends.

A run of word characters is one piece for both of them (`candidateChars_run`), and what stands
between runs is none for either. From a run, both cut off the same punctuation, and both drop
it if it is nothing else. So they agree on any text that has none of the characters that only
a query has a use for.

Only the indexer folds a second time. There is nothing left for it to do: no part of Unicode
has a capital letter of ASCII for its lower case, so a folded text has none, and a piece of it
has no other letters.

## Theorems

* `Text.isUpper_foldChars`: A folded text has no capital letters of ASCII.
* `Word.foldChars_piece`: So folding leaves the pieces of it alone.
* `Word.candidateChars_run`: A run is a piece.
* `Word.prepare_candidates`: Pieces are prepared by trimming them.
* `Lexer.all_candidates`: A query has the pieces of a text for tokens.
* `tokenize_fold_eq`: A folded text is cut alike by both.
-/

namespace Concordance

namespace Text

/-- No letter has a capital letter of ASCII for its lower case. -/
theorem lowerRuns_above : ∀ run ∈ lowerRuns, 0x5A < run.2.2.2 := by
  decide +kernel

/-- What comes behind the capital letters is none of them. -/
theorem isUpper_eq_false {c : Char} (h : 0x5A < c.toNat) : c.isUpper = false := by
  refine Bool.eq_false_iff.mpr fun hupper => ?_
  have hle : c.toNat ≤ 0x5A := UInt32.le_iff_toNat_le.mp (of_decide_eq_true hupper).2
  omega

theorem isUpper_lowerChar (c : Char) : (lowerChar c).isUpper = false := by
  rw [lowerChar]
  split
  · rename_i hascii
    exact forall_ascii (p := fun c => c.toLower.isUpper = false) (by decide) hascii
  · rename_i hascii
    split
    · rename_i first last step lower hfind
      have habove : 0x5A < lower := lowerRuns_above _ (List.mem_of_find?_eq_some hfind)
      refine isUpper_eq_false ?_
      rw [toNat_ofNat (isStored_lower hfind)]
      omega
    · exact isUpper_eq_false (Nat.lt_of_lt_of_le (by decide)
        (UInt32.le_iff_toNat_le.mp (UInt32.not_lt.mp hascii)))

theorem isUpper_lowercaseAfter {before cs : List Char} {c : Char}
    (h : c ∈ lowercaseAfter before cs) : c.isUpper = false := by
  induction cs generalizing before with
  | nil => exact absurd h List.not_mem_nil
  | cons d cs ih =>
    rw [lowercaseAfter, List.mem_append] at h
    rcases h with h | h
    · -- A capital I with a dot becomes two characters, and a sigma one of two.
      have hdotted : ∀ c ∈ ['i', '\u0307'], c.isUpper = false :=
        List.forall_mem_cons.mpr ⟨rfl, List.forall_mem_singleton.mpr rfl⟩
      have hsigma : ∀ c ∈ ['\u03C2', '\u03C3'], c.isUpper = false :=
        List.forall_mem_cons.mpr ⟨rfl, List.forall_mem_singleton.mpr rfl⟩
      rw [lowerAt] at h
      split at h
      · exact hdotted c h
      · split at h
        · refine hsigma c ?_
          split at h <;> rw [List.mem_singleton.mp h] <;> decide
        · rw [List.mem_singleton.mp h]
          exact isUpper_lowerChar d
    · exact ih h

/-- A folded text has no capital letters of ASCII. -/
theorem isUpper_foldChars {cs : List Char} {c : Char} (h : c ∈ foldChars cs) :
    c.isUpper = false :=
  isUpper_lowercaseAfter h

end Text

namespace Word

variable {raw behind first cs piece : List Char} {more : List (List Char)} {c : Char}

/-- So folding leaves the pieces of it alone. -/
theorem foldChars_piece (h : piece ∈ candidateChars (Text.foldChars cs)) :
    Text.foldChars piece = piece := by
  have hpiece := of_mem_pieces (List.mem_filter.mp h).1
  have hascii : ∀ c ∈ piece, c.val < 0x80 := fun c hc => ascii_of_isWordChar (hpiece c hc).1
  have hlower : ∀ c ∈ piece, c.toLower = c := fun c hc =>
    forall_ascii (p := fun c => c.isUpper = false → c.toLower = c) (by decide) (hascii c hc)
      (Text.isUpper_foldChars (hpiece c hc).2)
  rw [Text.foldChars_ascii hascii]
  exact (List.map_congr_left hlower).trans (List.map_id _)

/-- What is not a character of words is in no piece. -/
theorem candidateChars_cons (h : isWordChar c = false) :
    candidateChars (c :: cs) = candidateChars cs := by
  rw [candidateChars, pieces, if_neg (by simp [h]), List.filter_cons_of_neg (by simp)]
  rfl

/-- A run goes to the piece that begins behind it. -/
theorem pieces_append (hchars : ∀ c ∈ raw, isWordChar c = true)
    (hbehind : pieces behind = first :: more) :
    pieces (raw ++ behind) = (raw ++ first) :: more := by
  induction raw with
  | nil => exact hbehind
  | cons c raw ih =>
    rw [List.cons_append, pieces, if_pos (hchars c List.mem_cons_self),
      ih fun d hd => hchars d (List.mem_cons_of_mem _ hd)]
    rfl

/-- A run is a piece. -/
theorem candidateChars_run (h : Run raw behind) :
    candidateChars (raw ++ behind) = raw :: candidateChars behind := by
  -- Nothing goes on behind a run, so an empty piece begins there.
  have hbehind : ∃ more, pieces behind = [] :: more := by
    rcases behind with _ | ⟨c, cs⟩
    · exact ⟨[], rfl⟩
    · exact ⟨pieces cs, by rw [pieces, if_neg (by simp [h.ends c rfl])]⟩
  rcases hbehind with ⟨more, hmore⟩
  rw [candidateChars, candidateChars, pieces_append h.chars hmore, hmore, List.append_nil,
    List.filter_cons_of_pos (by simpa using h.nonempty), List.filter_cons_of_neg (by simp)]

/-- Pieces of a folded text are prepared by trimming them. -/
theorem prepare_candidates (text : String) :
    (candidates (Text.fold text)).map prepare
      = (candidateChars (Text.foldChars text.toList)).map fun piece =>
        String.ofList (trimChars piece) := by
  rw [candidates, Text.fold, String.toList_ofList, List.map_map]
  refine List.map_congr_left fun piece hpiece => ?_
  rw [Function.comp_apply, prepare, String.toList_ofList, prepareChars, foldChars_piece hpiece]

end Word

namespace Lexer

open Word (trimChars candidateChars)

theorem spelling_keyword (word : List Char) : (keyword word).spelling = String.ofList word := by
  unfold keyword
  split_ifs with hand hor hnot hnear
  · rw [hand]
    rfl
  · rw [hor]
    rfl
  · rw [hnot]
    rfl
  · rw [hnear]
    rfl
  · rfl

/-- Where a query has nothing but words, it has the pieces of a text for tokens. -/
theorem all_candidates {cs : List Char} (h : ∀ c ∈ cs, c ∉ ['(', ')', '=', '*']) (position : Nat) :
    ∃ tokens, all ⟨cs, position⟩ = .ok (tokens ++ [.finish])
      ∧ tokens.map Token.spelling
        = ((candidateChars cs).map fun piece => String.ofList (trimChars piece)).filter
          (· ≠ "") := by
  -- What is behind a piece is shorter.
  induction hlength : cs.length using Nat.strongRecOn generalizing cs position with
  | _ length ih =>
    have hfront := front cs
    rw [all_eq]
    dsimp only
    generalize lexeme cs = piece at hfront ⊢
    cases hfront with
    | finish => exact ⟨[], rfl, rfl⟩
    | openParen => exact absurd (h '(' List.mem_cons_self) (by decide)
    | closeParen => exact absurd (h ')' List.mem_cons_self) (by decide)
    | equals => exact absurd (h '=' List.mem_cons_self) (by decide)
    | loneStar => exact absurd (h '*' List.mem_cons_self) (by decide)
    | wildcard => exact absurd (h '*' (by simp)) (by decide)
    | starAfter => exact absurd (h '*' (by simp)) (by decide)
    | other hc hother rest =>
      have hrest := ih rest.length (hlength ▸ Nat.lt_succ_self _)
        (fun d hd => h d (List.mem_cons_of_mem _ hd)) (position + 1) rfl
      rwa [Word.candidateChars_cons hc]
    | @word raw behind hrun hstar hword =>
      rcases ih behind.length (hlength ▸ hrun.length_lt)
        (fun d hd => h d (List.mem_append_right _ hd)) (position + raw.length) rfl
        with ⟨tokens, htokens, hspelling⟩
      refine ⟨keyword (trimChars raw) :: tokens, congrArg (Except.map _) htokens, ?_⟩
      rw [Word.candidateChars_run hrun, List.map_cons, List.map_cons, spelling_keyword, hspelling,
        List.filter_cons_of_pos (by simpa [String.ofList_eq_empty_iff] using hword)]
    | @punctuation raw behind hrun hstar hword =>
      rw [Word.candidateChars_run hrun, List.map_cons, List.filter_cons_of_neg (by simp [hword])]
      exact ih behind.length (hlength ▸ hrun.length_lt)
        (fun d hd => h d (List.mem_append_right _ hd)) (position + raw.length) rfl

end Lexer

/-- A folded text is cut alike by an indexer and a query. Where it has none of the characters
    that only a query has a use for, the words that the pieces of it are prepared as, apart from
    empty ones, are what the tokens of the query are written as. Folding a piece a second time
    changes nothing, whatever the text. -/
theorem tokenize_fold_eq (text : String) :
    (∀ piece ∈ Word.candidates (Text.fold text), Text.fold piece = piece)
      ∧ ((∀ c ∈ (Text.fold text).toList, c ∉ ['(', ')', '=', '*']) →
        ∃ tokens, tokenize (Text.fold text) = .ok (tokens ++ [.finish])
          ∧ .finish ∉ tokens
          ∧ tokens.map Token.spelling
            = ((Word.candidates (Text.fold text)).map Word.prepare).filter (· ≠ "")) := by
  have hchars : (Text.fold text).toList = Text.foldChars text.toList := String.toList_ofList
  constructor
  · intro piece hpiece
    rw [Word.candidates, hchars] at hpiece
    rcases List.mem_map.mp hpiece with ⟨cs, hcs, rfl⟩
    rw [Text.fold, String.toList_ofList, Word.foldChars_piece hcs]
  · intro hplain
    rcases Lexer.all_candidates hplain 0 with ⟨tokens, htokens, hspelling⟩
    rw [hchars, ← Word.prepare_candidates] at hspelling
    refine ⟨tokens, htokens, fun hfinish => ?_, hspelling⟩
    -- The end of a query is written as nothing.
    have hempty : "" ∈ tokens.map Token.spelling :=
      List.mem_map_of_mem (f := Token.spelling) hfinish
    rw [hspelling] at hempty
    exact of_decide_eq_true (List.mem_filter.mp hempty).2 rfl

/-- A text with capital letters, a diacritic, quotes, a lone dash and an operator in it. -/
theorem tokenize_fold_eq_of_quoted :
    (∀ c ∈ (Text.fold "Caf\u00e9 - 'NEAR' Rock-'n'-Roll!").toList, c ∉ ['(', ')', '=', '*'])
      ∧ (∀ piece ∈ Word.candidates (Text.fold "Caf\u00e9 - 'NEAR' Rock-'n'-Roll!"),
        Text.fold piece = piece)
      ∧ ∃ tokens, tokenize (Text.fold "Caf\u00e9 - 'NEAR' Rock-'n'-Roll!")
          = .ok (tokens ++ [.finish])
        ∧ tokens.map Token.spelling = ["cafe", "near", "rock-'n'-roll"] := by
  have hplain : ∀ c ∈ (Text.fold "Caf\u00e9 - 'NEAR' Rock-'n'-Roll!").toList,
      c ∉ ['(', ')', '=', '*'] := by
    have hall : (Text.fold "Caf\u00e9 - 'NEAR' Rock-'n'-Roll!").toList.all
        (fun c => decide (c ∉ ['(', ')', '=', '*'])) = true := by
      decide +kernel
    exact fun c hc => of_decide_eq_true (List.all_eq_true.mp hall c hc)
  -- The dash is a candidate as well, and nothing is left of it.
  have hwords : ((Word.candidates (Text.fold "Caf\u00e9 - 'NEAR' Rock-'n'-Roll!")).map
      Word.prepare).filter (· ≠ "") = ["cafe", "near", "rock-'n'-roll"] := by decide +kernel
  rcases tokenize_fold_eq "Caf\u00e9 - 'NEAR' Rock-'n'-Roll!" with ⟨hpieces, hread⟩
  rcases hread hplain with ⟨tokens, htokens, -, hspelling⟩
  exact ⟨hplain, hpieces, tokens, htokens, hspelling.trans hwords⟩

end Concordance
