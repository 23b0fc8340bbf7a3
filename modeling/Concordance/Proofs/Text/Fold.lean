import Concordance.Proofs.Reader
import Concordance.Text.Fold

/-!
# Folding Brings in No NUL

The folded form of a text can be closed by a NUL if the text can.

A character is replaced by what the data of Unicode says about it, so this is a fact
about the data: no composed character has a NUL among its parts, and no letter has one
for its lower-case form. The rest of folding drops characters and changes their order.

## Main definitions

* `Text.IsStored`: A code point that stands for a character other than NUL.

## Theorems

* `Text.nulFree_fold`: Folding keeps a text free of NULs.
-/

namespace Concordance

namespace Text

/-- Does a code point stand for a character, and not for NUL? -/
def IsStored (code : Nat) : Prop :=
  (0 < code ∧ code < 0xD800) ∨ (0xE000 ≤ code ∧ code < 0x110000)

instance (code : Nat) : Decidable (IsStored code) :=
  inferInstanceAs (Decidable (_ ∨ _))

theorem toNat_ofNat {code : Nat} (h : IsStored code) : (Char.ofNat code).toNat = code := by
  have hvalid : code.isValidChar := h.imp And.right fun h => ⟨by omega, h.2⟩
  rw [Char.ofNat, dif_pos hvalid]
  rfl

theorem ofNat_ne_nul {code : Nat} (h : IsStored code) : Char.ofNat code ≠ '\x00' := by
  have hcode := toNat_ofNat h
  intro heq
  rw [heq] at hcode
  have hzero : code = 0 := hcode.symm
  rcases h with h | h <;> omega

/-- No composed character has a NUL among its parts. -/
theorem decompositionData_stored :
    ∀ entry ∈ decompositionData, ∀ code ∈ entry.2, IsStored code := by
  decide +kernel

/-- The first and the last form of each run are characters on the same side of the
    surrogates, and none is a NUL. -/
theorem lowerRuns_stored : ∀ run ∈ lowerRuns,
    (0 < run.2.2.2 ∧ run.2.2.2 + (run.2.1 - run.1) < 0xD800)
      ∨ (0xE000 ≤ run.2.2.2 ∧ run.2.2.2 + (run.2.1 - run.1) < 0x110000) := by
  decide +kernel

theorem decompositions_ne_nul {code : Nat} {parts : List Char}
    (h : (code, parts) ∈ decompositions) : '\x00' ∉ parts := by
  rw [decompositions, List.mem_toArray] at h
  rcases List.mem_map.mp h with ⟨entry, hentry, heq⟩
  rcases Prod.mk.inj heq with ⟨-, rfl⟩
  intro hnul
  rcases List.mem_map.mp hnul with ⟨part, hpart, hzero⟩
  exact ofNat_ne_nul (decompositionData_stored entry hentry part hpart) hzero

/-- Parts that are found are those of an entry of the table. -/
theorem mem_of_findParts {table : Array (Nat × List Char)} {code fuel low high : Nat}
    {parts : List Char} (h : findParts table code fuel low high = some parts) :
    (code, parts) ∈ table := by
  fun_induction findParts table code fuel low high with
  | case1 => exact absurd h (by simp)
  | case2 => exact absurd h (by simp)
  | case3 _ _ _ _ _ _ hget =>
    rcases Option.some.inj h with rfl
    exact Array.mem_of_getElem? hget
  | case4 =>
    rename_i ih
    exact ih h
  | case5 =>
    rename_i ih
    exact ih h
  | case6 => exact absurd h (by simp)

/-- A syllable is made of consonants and a vowel. -/
theorem decomposeHangul_ne_nul {code : Nat} (h : code ≤ 0xD7A3) :
    '\x00' ∉ decomposeHangul code := by
  have hstored : ∀ n, 0x1100 ≤ n ∧ n < 0xD800 → '\x00' ≠ Char.ofNat n :=
    fun n hn => (ofNat_ne_nul (Or.inl ⟨by omega, hn.2⟩)).symm
  have hleading := hstored (0x1100 + (code - 0xAC00) / 588) (by omega)
  have hvowel := hstored (0x1161 + (code - 0xAC00) % 588 / 28) (by omega)
  have htrailing := hstored (0x11A7 + (code - 0xAC00) % 28) (by omega)
  rw [decomposeHangul]
  split
  · simp only [List.mem_cons, List.not_mem_nil, hleading, hvowel, or_self, not_false_eq_true]
  · simp only [List.mem_append, List.mem_cons, List.not_mem_nil, hleading, hvowel, htrailing,
      or_self, not_false_eq_true]

/-- Only a NUL has a NUL among its parts. -/
theorem decompose_ne_nul {c : Char} (h : c ≠ '\x00') : '\x00' ∉ decompose c := by
  rw [decompose]
  split
  · exact fun hmem => h (List.mem_singleton.mp hmem).symm
  · split
    · rename_i hrange
      exact decomposeHangul_ne_nul hrange.2
    · rcases hfind : findParts decompositions c.toNat 32 0 decompositions.size with _ | parts
      · exact fun hmem => h (List.mem_singleton.mp hmem).symm
      · exact decompositions_ne_nul (mem_of_findParts hfind)

theorem mem_place {x c : Char} {k : Nat} {read : List Char} :
    x ∈ place c k read ↔ x = c ∨ x ∈ read := by
  induction read with
  | nil => simp [place]
  | cons d read ih =>
    rw [place]
    split
    · rw [List.mem_cons, ih, List.mem_cons]
      exact or_left_comm
    · rw [List.mem_cons]

/-- Putting marks in order brings in no character. -/
theorem mem_of_mem_arrange {x : Char} {cs : List Char} (h : x ∈ arrange cs) : x ∈ cs := by
  have hgen : ∀ (cs read : List Char),
      x ∈ cs.foldl (fun read c => place c (combiningClass c) read) read → x ∈ read ∨ x ∈ cs := by
    intro cs
    induction cs with
    | nil => exact fun read hmem => Or.inl hmem
    | cons c cs ih =>
      intro read hmem
      rcases ih _ hmem with hread | hrest
      · rcases mem_place.mp hread with rfl | hread
        · exact Or.inr List.mem_cons_self
        · exact Or.inl hread
      · exact Or.inr (List.mem_cons_of_mem _ hrest)
  exact (hgen cs [] (List.mem_reverse.mp h)).resolve_left List.not_mem_nil

/-- Letters in a run of the table are moved to characters that can be stored. -/
theorem isStored_lower {c : Char} {first last step lower : Nat}
    (h : lowerRuns.find? (fun (first, last, step, _) =>
      first ≤ c.toNat && c.toNat ≤ last && (c.toNat - first) % step == 0)
        = some (first, last, step, lower)) : IsStored (lower + (c.toNat - first)) := by
  have hrun := lowerRuns_stored _ (List.mem_of_find?_eq_some h)
  have htest := List.find?_some h
  simp only [Bool.and_eq_true, decide_eq_true_eq] at htest hrun
  rw [IsStored]
  omega

/-- A letter other than NUL has a lower-case form other than NUL. -/
theorem lowerChar_ne_nul {c : Char} (h : c ≠ '\x00') : lowerChar c ≠ '\x00' := by
  rw [lowerChar]
  split
  · intro heq
    delta Char.toLower at heq
    split at heq
    · rename_i hupper
      -- A capital letter is moved up by 32, which does not wrap around to zero.
      have hval : c.val + 32 = 0 := congrArg Char.val heq
      have hsum := congrArg UInt32.toNat hval
      have hle : c.val.toNat ≤ 90 := UInt32.le_iff_toNat_le.mp hupper.2
      rw [UInt32.toNat_add] at hsum
      simp only [UInt32.reduceToNat] at hsum
      omega
    · exact h heq
  · split
    · rename_i first last step lower hfind
      exact ofNat_ne_nul (isStored_lower hfind)
    · exact h

theorem nul_notMem_lowercaseAfter {before cs : List Char} (h : '\x00' ∉ cs) :
    '\x00' ∉ lowercaseAfter before cs := by
  induction cs generalizing before with
  | nil => exact List.not_mem_nil
  | cons c cs ih =>
    rw [List.mem_cons, not_or] at h
    rw [lowercaseAfter, List.mem_append, not_or]
    refine ⟨?_, ih h.2⟩
    rw [lowerAt]
    -- A capital I with a dot becomes two characters, and a sigma one of two.
    split
    · decide
    · split
      · split <;> decide
      · rw [List.mem_singleton]
        exact (lowerChar_ne_nul (Ne.symm h.1)).symm

/-- Folding keeps a text free of NULs. -/
theorem nulFree_fold {text : String} (h : NulFree text) : NulFree (fold text) := by
  rw [NulFree, fold, String.toList_ofList]
  refine nul_notMem_lowercaseAfter fun hmem => ?_
  rcases List.mem_flatMap.mp (mem_of_mem_arrange (List.mem_filter.mp hmem).1) with ⟨c, hc, hparts⟩
  exact decompose_ne_nul (fun hzero => h (hzero ▸ hc)) hparts

end Text

end Concordance
