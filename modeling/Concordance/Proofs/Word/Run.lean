import Concordance.Word
import Mathlib.Data.List.DropRight

/-!
# Runs and Words

Text is cut into runs of word characters, and a run is trimmed to a word.

A run goes as far as it can, so it is known from where it begins. Trimming takes the punctuation
off both of its ends, and what is left has a letter or a digit there. So trimming a second time
changes nothing. It may be that nothing is left, and this is so just if there was nothing but
punctuation.

## Main definitions

* `Word.Run`: A run of word characters, as far as it goes.
* `Word.Trimmed`: A word without punctuation at its ends.

## Theorems

* `Word.exists_run`: There is a run wherever there is a word character.
* `Word.trimChars_eq_nil_iff`, `Word.trimmed_trimChars`: What a run is trimmed to.
-/

namespace Concordance

namespace Word

variable {raw behind word : List Char}

/-- A run of word characters, as far as it goes. -/
structure Run (raw behind : List Char) : Prop where
  nonempty : raw ≠ []
  chars : ∀ c ∈ raw, isWordChar c = true
  ends : ∀ c ∈ behind.head?, isWordChar c = false

/-- A word without punctuation at its ends. -/
structure Trimmed (word : List Char) : Prop where
  nonempty : word ≠ []
  chars : ∀ c ∈ word, isWordChar c = true
  first : ∀ c ∈ word.head?, c.isAlphanum = true
  last : ∀ c ∈ word.getLast?, c.isAlphanum = true

/-- Letters and digits are a word. -/
theorem trimmed_of_all (hne : word ≠ []) (h : word.all Char.isAlphanum = true) : Trimmed word where
  nonempty := hne
  chars c hc := by simp [isWordChar, List.all_eq_true.mp h c hc]
  first c hc := List.all_eq_true.mp h c (List.mem_of_mem_head? hc)
  last c hc := List.all_eq_true.mp h c (List.mem_of_mem_getLast? hc)

theorem mem_of_mem_trimChars {cs : List Char} {c : Char} (h : c ∈ trimChars cs) : c ∈ cs :=
  (List.dropWhile_sublist _).subset ((List.rdropWhile_prefix ..).subset h)

/-- A run is trimmed to nothing if it is nothing but punctuation. -/
theorem trimChars_eq_nil_iff {cs : List Char} :
    trimChars cs = [] ↔ ∀ c ∈ cs, c.isAlphanum = false := by
  have hpunctuation : ∀ c : Char, (!c.isAlphanum) = true ↔ c.isAlphanum = false := by simp
  constructor
  · intro h
    -- What is left in front would end in a letter or a digit.
    have hall := List.rdropWhile_eq_nil_iff.mp
      (show List.rdropWhile _ (List.dropWhile _ cs) = [] from h)
    have hnil : cs.dropWhile (fun c => !c.isAlphanum) = [] := by
      by_contra hne
      have hhead := List.head_dropWhile_not (fun c : Char => !c.isAlphanum) hne
      rw [hall _ (List.head_mem hne)] at hhead
      exact absurd hhead (by simp)
    exact fun c hc => (hpunctuation c).mp (List.dropWhile_eq_nil_iff.mp hnil c hc)
  · intro h
    have hnil : cs.dropWhile (fun c => !c.isAlphanum) = [] :=
      List.dropWhile_eq_nil_iff.mpr fun c hc => (hpunctuation c).mpr (h c hc)
    rw [trimChars, hnil]
    rfl

/-- A run that is not trimmed to nothing is trimmed to a word. -/
theorem trimmed_trimChars (h : ∀ c ∈ raw, isWordChar c = true) (hne : trimChars raw ≠ []) :
    Trimmed (trimChars raw) := by
  have hfront : trimChars raw <+: raw.dropWhile fun c => !c.isAlphanum :=
    List.rdropWhile_prefix ..
  refine ⟨hne, fun c hc => h c (mem_of_mem_trimChars hc), fun c hc => ?_, fun c hc => ?_⟩
  · -- Trimming the end leaves the first character where it is.
    have hhead := List.head?_dropWhile_not (fun c : Char => !c.isAlphanum) raw
    rcases hfront with ⟨cut, heq⟩
    rw [← heq, List.head?_append_of_ne_nil _ hne, hc] at hhead
    simpa using hhead
  · -- What trimming leaves at the end is where it stopped.
    have hlast := List.rdropWhile_last_not (fun c : Char => !c.isAlphanum)
      (raw.dropWhile fun c => !c.isAlphanum) hne
    have hc' : (trimChars raw).getLast hne = c :=
      Option.some.inj ((List.getLast?_eq_some_getLast hne).symm.trans hc)
    have heq : (List.rdropWhile (fun c : Char => !c.isAlphanum)
      (raw.dropWhile fun c => !c.isAlphanum)).getLast hne = c := hc'
    rw [heq] at hlast
    simpa using hlast

/-- Nothing more is cut off a word. -/
theorem Trimmed.trimChars_eq (h : Trimmed word) : trimChars word = word := by
  have hfront : word.dropWhile (fun c => !c.isAlphanum) = word := by
    refine List.dropWhile_eq_self_iff.mpr fun hpos => ?_
    have hhead : word.head? = some word[0] := by
      rw [List.head?_eq_getElem?, List.getElem?_eq_getElem hpos]
    simpa using h.first _ hhead
  have hback : word.rdropWhile (fun c => !c.isAlphanum) = word := by
    refine List.rdropWhile_eq_self_iff.mpr fun hne => ?_
    simpa using h.last _ (List.getLast?_eq_some_getLast hne)
  calc trimChars word
      = (word.dropWhile fun c => !c.isAlphanum).rdropWhile fun c => !c.isAlphanum := rfl
    _ = word := by rw [hfront, hback]

theorem Run.takeWhile_eq (h : Run raw behind) : (raw ++ behind).takeWhile isWordChar = raw := by
  rw [List.takeWhile_append_of_pos h.chars]
  rcases behind with _ | ⟨c, cs⟩
  · exact List.append_nil _
  · rw [List.takeWhile_cons_of_neg (by simpa using h.ends c rfl), List.append_nil]

theorem Run.dropWhile_eq (h : Run raw behind) : (raw ++ behind).dropWhile isWordChar = behind := by
  rw [List.dropWhile_append_of_pos h.chars]
  rcases behind with _ | ⟨c, cs⟩
  · rfl
  · exact List.dropWhile_cons_of_neg (by simpa using h.ends c rfl)

/-- A run is not empty. -/
theorem Run.length_lt (h : Run raw behind) : behind.length < (raw ++ behind).length := by
  have hpos := List.length_pos_iff.mpr h.nonempty
  rw [List.length_append]
  omega

/-- Where there is a word character, there is a run. -/
theorem exists_run {c : Char} {cs : List Char} (h : isWordChar c = true) :
    Run ((c :: cs).takeWhile isWordChar) ((c :: cs).dropWhile isWordChar) where
  nonempty := by rw [List.takeWhile_cons_of_pos h]; exact List.cons_ne_nil _ _
  chars d hd := List.mem_takeWhile_imp hd
  ends d hd := by
    have hhead := List.head?_dropWhile_not isWordChar (c :: cs)
    rw [hd] at hhead
    exact hhead

end Word

end Concordance
