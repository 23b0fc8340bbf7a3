import Concordance.Proofs.Ascending
import Concordance.Proofs.Utf8
import Concordance.StopWords

/-!
# Stop Words as a Set

Only the members of a set of stop words matter.

The words are kept in the order in which they came, and no word is there twice. Two
sets with the same members, in whatever order, give the same answers, and still have
the same members once the same words are added to both. They are also stored in the
same order, so nothing in an index tells them apart.

## Main definitions

* `StopWords.Distinct`: No word is there twice.

## Theorems

* `StopWords.mem_insertAll`: What adding words adds.
* `StopWords.Distinct.insertAll_perm`: Adding to sets with the same members.
* `StopWords.sorted_eq_of_perm`: Such sets are stored alike.
* `StopWords.Distinct.sorted_ascend`: Each word is stored behind those before it.
-/

namespace Concordance

/-- The bytes of words are in order one way or the other. -/
theorem storedBefore_total (a b : String) :
    (StopWords.storedBefore a b || StopWords.storedBefore b a) = true := by
  simp only [StopWords.storedBefore, Bool.or_eq_true, decide_eq_true_eq]
  exact List.le_total _ _

theorem storedBefore_trans (a b c : String) (h : StopWords.storedBefore a b = true)
    (h' : StopWords.storedBefore b c = true) : StopWords.storedBefore a c = true := by
  simp only [StopWords.storedBefore, decide_eq_true_eq] at h h' ⊢
  exact List.le_trans h h'

theorem storedBefore_antisymm (a b : String) (h : StopWords.storedBefore a b = true)
    (h' : StopWords.storedBefore b a = true) : a = b := by
  simp only [StopWords.storedBefore, decide_eq_true_eq] at h h'
  exact Utf8.bytes_injective (List.le_antisymm h h')

namespace StopWords

/-- No word is there twice. -/
def Distinct (stops : StopWords) : Prop :=
  stops.words.Nodup

theorem contains_iff {stops : StopWords} {word : String} :
    stops.contains word = true ↔ word ∈ stops.words :=
  List.contains_iff_mem

/-- Sets with the same members give the same answers. -/
theorem contains_congr {stops others : StopWords} (h : ∀ w, w ∈ stops.words ↔ w ∈ others.words) :
    stops.contains = others.contains := by
  funext word
  rw [Bool.eq_iff_iff, contains_iff, contains_iff, h]

theorem mem_insert {stops : StopWords} {word x : String} :
    x ∈ (stops.insert word).words ↔ x ∈ stops.words ∨ x = word := by
  rw [insert]
  split
  · rename_i hcontains
    refine ⟨Or.inl, ?_⟩
    rintro (hmem | rfl)
    · exact hmem
    · exact contains_iff.mp hcontains
  · rw [List.mem_append, List.mem_singleton]

/-- Adding words adds these words. -/
theorem mem_insertAll {stops : StopWords} {words : List String} {x : String} :
    x ∈ (stops.insertAll words).words ↔ x ∈ stops.words ∨ x ∈ words := by
  induction words generalizing stops with
  | nil => simp [insertAll]
  | cons word words ih =>
    rw [insertAll, List.foldl_cons, ← insertAll, ih, mem_insert, List.mem_cons, or_assoc]

theorem Distinct.insert {stops : StopWords} (h : stops.Distinct) (word : String) :
    (stops.insert word).Distinct := by
  rw [StopWords.insert]
  split
  · exact h
  · rename_i hcontains
    refine List.nodup_append.mpr ⟨h, List.pairwise_singleton _ _, ?_⟩
    rintro a ha b hb rfl
    rw [List.mem_singleton] at hb
    exact hcontains (contains_iff.mpr (hb ▸ ha))

theorem Distinct.insertAll {stops : StopWords} (h : stops.Distinct) (words : List String) :
    (stops.insertAll words).Distinct := by
  induction words generalizing stops with
  | nil => exact h
  | cons word words ih => exact ih (h.insert word)

/-- Sets with the same members still have the same members once the same words are
    added to both. -/
theorem Distinct.insertAll_perm {stops others : StopWords} (h : stops.Distinct)
    (h' : others.Distinct) (hperm : stops.words.Perm others.words) (words : List String) :
    (stops.insertAll words).words.Perm (others.insertAll words).words := by
  refine (List.perm_ext_iff_of_nodup (h.insertAll words) (h'.insertAll words)).mpr fun x => ?_
  rw [mem_insertAll, mem_insertAll, hperm.mem_iff]

/-- Words without repetition are all added to the empty set. -/
theorem empty_insertAll_perm {words : List String} (h : words.Nodup) :
    (empty.insertAll words).words.Perm words := by
  have hempty : empty.Distinct := List.Pairwise.nil
  refine (List.perm_ext_iff_of_nodup (hempty.insertAll words) h).mpr fun x => ?_
  rw [mem_insertAll]
  exact ⟨fun hx => hx.resolve_left List.not_mem_nil, Or.inr⟩

/-- Sets with the same members are stored alike. -/
theorem sorted_eq_of_perm {stops others : StopWords} (h : stops.words.Perm others.words) :
    stops.sorted = others.sorted :=
  mergeSort_eq_of_perm storedBefore_trans storedBefore_total storedBefore_antisymm h

/-- Stored words ascend, as no word is there twice. -/
theorem Distinct.sorted_ascend {stops : StopWords} (h : stops.Distinct) :
    stops.sorted.Pairwise fun a b => Utf8.bytes a < Utf8.bytes b := by
  have hsorted := List.pairwise_mergeSort storedBefore_trans storedBefore_total stops.words
  have hnodup : (stops.words.mergeSort storedBefore).Nodup :=
    (List.mergeSort_perm _ _).nodup_iff.mpr h
  refine (hsorted.and hnodup).imp fun {a b} hab => ?_
  rw [storedBefore, decide_eq_true_eq] at hab
  -- Words that are not in order the other way are equal.
  exact Classical.byContradiction fun hnot =>
    hab.2 (Utf8.bytes_injective (List.le_antisymm hab.1 (List.not_lt.mp hnot)))

end StopWords

end Concordance
