/-!
# Ascending Lists

A list in strictly ascending order is the one form of a set, and a list of pairs
with ascending keys is the one form of a map.

Sets of ids, word maps, the words of an index and the scores of a query are all
kept this way. Two such lists are equal as soon as they cannot be told apart by
asking for members or looking up keys. So an operation on them is described by
what it does to membership or lookup, and nothing about places in the list ever
enters a proof.

## Main definitions

* `KeysAscend`: The keys of a list of pairs ascend.

## Theorems

* `eq_of_mem_iff`: Ascending lists with the same members are equal.
* `mergeSort_eq_of_perm`: A sorted list forgets the order it came in.
* `KeysAscend.lookup_eq_some_iff`: Looking up a key finds its pair.
* `KeysAscend.ext_lookup`: Maps that agree on every key are equal.
-/

namespace Concordance

/-- Of two different elements one comes before the other. -/
theorem lt_of_not_lt {α : Type} [LT α] [Std.Trichotomous (α := α) (· < ·)] {a b : α} (hne : a ≠ b)
    (h : ¬ a < b) : b < a :=
  Classical.byContradiction fun h' => hne (Std.Trichotomous.trichotomous a b h h')

section Order

variable {α : Type} [LT α] [Std.Asymm (α := α) (· < ·)]

/-- An ascending list has no element twice. -/
theorem nodup_of_ascending {as : List α} (h : as.Pairwise (· < ·)) : as.Nodup := by
  rw [List.nodup_iff_pairwise_ne]
  refine h.imp (fun {a b} hab => ?_)
  rintro rfl
  exact Std.Asymm.asymm a a hab hab

/-- Ascending lists with the same members are equal. -/
theorem eq_of_mem_iff {as bs : List α} (ha : as.Pairwise (· < ·)) (hb : bs.Pairwise (· < ·))
    (h : ∀ a, a ∈ as ↔ a ∈ bs) : as = bs := by
  have hperm := (List.perm_ext_iff_of_nodup (nodup_of_ascending ha) (nodup_of_ascending hb)).mpr h
  refine hperm.eq_of_pairwise (fun a b _ _ hab hba => ?_) ha hb
  exact absurd hba (Std.Asymm.asymm a b hab)

end Order

/-- The order in which elements came does not matter to a list that is sorted, if no
    two of them have the same rank. -/
theorem mergeSort_eq_of_perm {α : Type} {before : α → α → Bool}
    (htrans : ∀ a b c, before a b = true → before b c = true → before a c = true)
    (htotal : ∀ a b, (before a b || before b a) = true)
    (hantisymm : ∀ a b, before a b = true → before b a = true → a = b) {as bs : List α}
    (h : as.Perm bs) : as.mergeSort before = bs.mergeSort before := by
  have hperm : (as.mergeSort before).Perm (bs.mergeSort before) :=
    (List.mergeSort_perm as before).trans (h.trans (List.mergeSort_perm bs before).symm)
  exact hperm.eq_of_pairwise (fun a b _ _ hab hba => hantisymm a b hab hba)
    (List.pairwise_mergeSort htrans htotal as) (List.pairwise_mergeSort htrans htotal bs)

/-- The keys of a list of pairs ascend. -/
def KeysAscend {κ β : Type} [LT κ] (m : List (κ × β)) : Prop :=
  m.Pairwise fun a b => a.1 < b.1

namespace KeysAscend

variable {κ β : Type}

/-- What is looked up is there. -/
theorem mem_of_lookup [BEq κ] [LawfulBEq κ] {m : List (κ × β)} {k : κ} {v : β}
    (h : m.lookup k = some v) : (k, v) ∈ m := by
  rcases List.lookup_eq_some_iff.mp h with ⟨before, behind, rfl, -⟩
  exact List.mem_append_right _ List.mem_cons_self

variable [LT κ] [Std.Asymm (α := κ) (· < ·)]

theorem nodup {m : List (κ × β)} (h : KeysAscend m) : m.Nodup := by
  rw [List.nodup_iff_pairwise_ne]
  refine List.Pairwise.imp (fun {a b} hab => ?_) h
  rintro rfl
  exact Std.Asymm.asymm a.1 a.1 hab hab

/-- A key has one pair. -/
theorem eq_of_mem {m : List (κ × β)} (h : KeysAscend m) {k : κ} {v w : β} (hv : (k, v) ∈ m)
    (hw : (k, w) ∈ m) : v = w := by
  have hirr : ¬ k < k := fun hk => Std.Asymm.asymm k k hk hk
  induction m with
  | nil => exact absurd hv List.not_mem_nil
  | cons a m ih =>
    have ⟨hhead, htail⟩ := List.pairwise_cons.mp h
    rcases List.mem_cons.mp hv with rfl | hv'
    · rcases List.mem_cons.mp hw with hw' | hw'
      · exact (Prod.mk.inj hw').2.symm
      · exact absurd (hhead (k, w) hw') hirr
    · rcases List.mem_cons.mp hw with rfl | hw'
      · exact absurd (hhead (k, v) hv') hirr
      · exact ih htail hv' hw'

variable [BEq κ] [LawfulBEq κ]

/-- Looking up a key finds its pair. -/
theorem lookup_eq_some_iff {m : List (κ × β)} (h : KeysAscend m) {k : κ} {v : β} :
    m.lookup k = some v ↔ (k, v) ∈ m := by
  constructor
  · exact mem_of_lookup
  · intro hmem
    rcases hl : m.lookup k with _ | w
    · rw [List.lookup_eq_none_iff] at hl
      exact absurd (hl _ hmem) (by simp)
    · rw [h.eq_of_mem hmem (mem_of_lookup hl)]

/-- Maps that agree on every key are equal. -/
theorem ext_lookup {m m' : List (κ × β)} (h : KeysAscend m) (h' : KeysAscend m')
    (heq : ∀ k, m.lookup k = m'.lookup k) : m = m' := by
  have hmem : ∀ a, a ∈ m ↔ a ∈ m' := by
    rintro ⟨k, v⟩
    rw [← h.lookup_eq_some_iff, ← h'.lookup_eq_some_iff, heq]
  refine ((List.perm_ext_iff_of_nodup h.nodup h'.nodup).mpr hmem).eq_of_pairwise
    (fun a b _ _ hab hba => ?_) h h'
  exact absurd hba (Std.Asymm.asymm a.1 b.1 hab)

end KeysAscend

end Concordance
