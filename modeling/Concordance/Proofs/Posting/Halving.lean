import Concordance.Proofs.Posting

/-!
# Sets of Ids, by Halving

An ascending list is a set that is searched by halving, and nothing else about it matters.

A set of ids is gone through from its front here, which needs no order to be right about what is
in it. A program goes about it in other ways. It halves the list to look for an id, and where the
search ends without one is the place to put it. And ids that come many at a time are put behind
the others, sorted all at once, and those that are there twice are left out. All of this is only
right for ascending lists, and it only yields ascending lists.

The search keeps an invariant about what is left of the list: all ids in front of it are less
than the one that is looked for, and all behind it are greater (`Between`). When nothing is left,
this says that the id is not there, and where it would be.

## Main definitions

* `IdSet.search`: The place of an id, or the place for it.
* `IdSet.insertFound`: Putting an id where the search has ended.
* `IdSet.withoutRepeats`, `IdSet.normalize`: Ids sorted, each of them once.

## Theorems

* `IdSet.search_ok`, `IdSet.search_error`: What a search finds.
* `IdSet.search_isOk_iff`: An id is found if it is there.
* `IdSet.insertFound_eq`: Putting an id where the search has ended is putting it into the set.
* `IdSet.normalize_append`: Sorting ids at once is putting them into the set one by one.
-/

namespace Concordance

namespace IdSet

/-- The place of an id from `low` up to `high`, or the place where it would have to be. -/
def halve (set : List UInt32) (id : UInt32) (low high : Nat) : Except Nat Nat :=
  if low < high then
    let middle := low + (high - low) / 2
    if set.getD middle 0 = id then .ok middle
    else if set.getD middle 0 < id then halve set id (middle + 1) high
    else halve set id low middle
  else .error low
termination_by high - low

/-- The place of an id in a set, or the place for it. -/
def search (set : List UInt32) (id : UInt32) : Except Nat Nat :=
  halve set id 0 set.length

/-- A set with an id put where the search for it has ended. -/
def insertFound (id : UInt32) (set : List UInt32) : List UInt32 :=
  match search set id with
  | .ok _ => set
  | .error i => set.take i ++ id :: set.drop i

/-- A list without what stands behind its like. -/
def withoutRepeats : List UInt32 → List UInt32
  | [] => []
  | [id] => [id]
  | id :: next :: rest =>
    if id = next then withoutRepeats (next :: rest) else id :: withoutRepeats (next :: rest)

/-- Ids in order, each of them once. -/
def normalize (ids : List UInt32) : List UInt32 :=
  withoutRepeats (ids.mergeSort (· ≤ ·))

variable {set : List UInt32} {id : UInt32} {low high : Nat}

/-- All ids in front of a part of a list are less than this one, and all behind it are greater. -/
structure Between (set : List UInt32) (id : UInt32) (low high : Nat) : Prop where
  inside : high ≤ set.length
  ordered : low ≤ high
  front : ∀ i (hi : i < set.length), i < low → set[i] < id
  behind : ∀ i (hi : i < set.length), high ≤ i → id < set[i]

/-- Either an id is found in its place, or no part is left in which it could be. -/
theorem halve_spec (h : set.Pairwise (· < ·)) (hbetween : Between set id low high) :
    (∀ i, halve set id low high = .ok i → set[i]? = some id)
      ∧ ∀ i, halve set id low high = .error i → Between set id i i := by
  have hascend := List.pairwise_iff_getElem.mp h
  have hget : ∀ i (hi : i < set.length), set.getD i 0 = set[i] := fun i hi => by
    rw [List.getD_eq_getElem?_getD, List.getElem?_eq_getElem hi, Option.getD_some]
  fun_induction halve set id low high with
  | case1 low high hlt middle heq =>
    have hmiddle : middle < set.length := by
      have := hbetween.inside
      omega
    rw [hget middle hmiddle] at heq
    refine ⟨fun i hi => ?_, fun i hi => absurd hi (by simp)⟩
    rw [← Except.ok.inj hi, List.getElem?_eq_getElem hmiddle, heq]
  | case2 low high hlt middle hne hless ih =>
    have hmiddle : middle < high := by omega
    have hinside := Nat.lt_of_lt_of_le hmiddle hbetween.inside
    rw [hget middle hinside] at hless
    -- What stands in front of a smaller id is smaller still.
    refine ih ⟨hbetween.inside, hmiddle, fun i hi hle => ?_, hbetween.behind⟩
    rcases Nat.lt_or_eq_of_le (Nat.le_of_lt_succ hle) with hlt | rfl
    · exact UInt32.lt_trans (hascend i middle hi hinside hlt) hless
    · exact hless
  | case3 low high hlt middle hne hless ih =>
    have hmiddle : middle < high := by omega
    have hinside := Nat.lt_of_lt_of_le hmiddle hbetween.inside
    rw [hget middle hinside] at hless hne
    have hgreater : id < set[middle] := by
      rw [UInt32.lt_iff_toNat_lt] at hless ⊢
      rw [← UInt32.toNat_inj] at hne
      omega
    refine ih ⟨Nat.le_of_lt hinside, by omega, hbetween.front, fun i hi hle => ?_⟩
    rcases Nat.lt_or_eq_of_le hle with hlt | rfl
    · exact UInt32.lt_trans hgreater (hascend middle i hinside hi hlt)
    · exact hgreater
  | case4 low high hnlt =>
    refine ⟨fun i hi => absurd hi (by simp), fun i hi => ?_⟩
    have hsame : low = high := Nat.le_antisymm hbetween.ordered (Nat.le_of_not_lt hnlt)
    rw [← Except.error.inj hi]
    exact ⟨hsame ▸ hbetween.inside, Nat.le_refl _, hbetween.front, hsame ▸ hbetween.behind⟩

theorem between_all (set : List UInt32) (id : UInt32) : Between set id 0 set.length :=
  ⟨Nat.le_refl _, Nat.zero_le _, fun _ _ hi => absurd hi (Nat.not_lt_zero _),
    fun _ hi hle => absurd hi (Nat.not_lt_of_le hle)⟩

/-- An id is found in its place. -/
theorem search_ok (h : set.Pairwise (· < ·)) {i : Nat} (hi : search set id = .ok i) :
    set[i]? = some id :=
  (halve_spec h (between_all set id)).1 i hi

/-- Where it is not found is the place for it. -/
theorem search_error (h : set.Pairwise (· < ·)) {i : Nat} (hi : search set id = .error i) :
    (∀ x ∈ set.take i, x < id) ∧ ∀ x ∈ set.drop i, id < x := by
  have hbetween := (halve_spec h (between_all set id)).2 i hi
  constructor
  · intro x hx
    rcases List.mem_iff_getElem.mp hx with ⟨j, hj, rfl⟩
    rw [List.length_take] at hj
    rw [List.getElem_take]
    exact hbetween.front j (by omega) (by omega)
  · intro x hx
    rcases List.mem_iff_getElem.mp hx with ⟨j, hj, rfl⟩
    rw [List.length_drop] at hj
    rw [List.getElem_drop]
    exact hbetween.behind (i + j) (by omega) (Nat.le_add_right ..)

/-- An id is found if it is there. -/
theorem search_isOk_iff (h : set.Pairwise (· < ·)) :
    (search set id).isOk = true ↔ id ∈ set := by
  rcases hsearch : search set id with i | i
  · refine ⟨fun hok => absurd hok (by simp [Except.isOk, Except.toBool]), fun hmem => ?_⟩
    rcases search_error h hsearch with ⟨hfront, hbehind⟩
    rw [← List.take_append_drop i set] at hmem
    rcases List.mem_append.mp hmem with hmem | hmem
    · exact absurd (hfront id hmem) (UInt32.lt_irrefl id)
    · exact absurd (hbehind id hmem) (UInt32.lt_irrefl id)
  · exact ⟨fun _ => List.mem_of_getElem? (search_ok h hsearch), fun _ => rfl⟩

/-- Putting an id where the search has ended is putting it into the set. -/
theorem insertFound_eq (h : set.Pairwise (· < ·)) : insertFound id set = insert id set := by
  rw [insertFound]
  rcases hsearch : search set id with i | i
  · rcases search_error h hsearch with ⟨hfront, hbehind⟩
    have hsplit : set.take i ++ set.drop i = set := List.take_append_drop i set
    have hparts := List.pairwise_append.mp (hsplit.symm ▸ h)
    -- Two lists that ascend are the same if they have the same members.
    refine eq_of_mem_iff ?_ (insert_ascending h) fun x => ?_
    · refine List.pairwise_append.mpr ⟨hparts.1, List.pairwise_cons.mpr ⟨hbehind, hparts.2.1⟩, ?_⟩
      intro a ha b hb
      rcases List.mem_cons.mp hb with rfl | hb
      · exact hfront a ha
      · exact hparts.2.2 a ha b hb
    · rw [mem_insert]
      show x ∈ set.take i ++ id :: set.drop i ↔ _
      rw [List.mem_append, List.mem_cons, or_left_comm, ← List.mem_append, hsplit]
  · -- The id was there already.
    have hmem : id ∈ set := List.mem_of_getElem? (search_ok h hsearch)
    refine eq_of_mem_iff h (insert_ascending h) fun x => ?_
    rw [mem_insert]
    exact ⟨Or.inr, fun hx => hx.elim (fun heq => heq ▸ hmem) fun hx => hx⟩

theorem mem_withoutRepeats {ids : List UInt32} {x : UInt32} :
    x ∈ withoutRepeats ids ↔ x ∈ ids := by
  fun_induction withoutRepeats ids with
  | case1 => exact Iff.rfl
  | case2 id => exact Iff.rfl
  | case3 id rest ih =>
    rw [ih, List.mem_cons (a := x) (b := id) (l := id :: rest)]
    exact ⟨Or.inr, fun hx => hx.elim (fun heq => heq ▸ List.mem_cons_self) fun hx => hx⟩
  | case4 id next rest hne ih => rw [List.mem_cons, ih, List.mem_cons (l := next :: rest)]

/-- Sorted ids ascend once each of them is there once. -/
theorem withoutRepeats_ascending {ids : List UInt32} (h : ids.Pairwise (· ≤ ·)) :
    (withoutRepeats ids).Pairwise (· < ·) := by
  fun_induction withoutRepeats ids with
  | case1 => exact List.Pairwise.nil
  | case2 id => exact List.pairwise_singleton _ _
  | case3 id rest ih => exact ih (List.pairwise_cons.mp h).2
  | case4 id next rest hne ih =>
    have ⟨hfirst, hrest⟩ := List.pairwise_cons.mp h
    refine List.pairwise_cons.mpr ⟨fun x hx => ?_, ih hrest⟩
    -- The next one is greater, and so all others are.
    have hnext : id < next := UInt32.lt_of_le_of_ne (hfirst next List.mem_cons_self) hne
    rcases List.mem_cons.mp (mem_withoutRepeats.mp hx) with rfl | hx
    · exact hnext
    · exact UInt32.lt_of_lt_of_le hnext ((List.pairwise_cons.mp hrest).1 x hx)

/-- Sorting ids at once is putting them into the set one by one. -/
theorem normalize_append (h : set.Pairwise (· < ·)) (ids : List UInt32) :
    normalize (set ++ ids) = union set ids := by
  have hsorted : ((set ++ ids).mergeSort (· ≤ ·)).Pairwise (· ≤ ·) := by
    refine (List.pairwise_mergeSort (fun a b c hab hbc => ?_) (fun a b => ?_) _).imp
      fun hab => of_decide_eq_true hab
    · exact decide_eq_true (UInt32.le_trans (of_decide_eq_true hab) (of_decide_eq_true hbc))
    · rw [Bool.or_eq_true, decide_eq_true_eq, decide_eq_true_eq]
      exact UInt32.le_total a b
  refine eq_of_mem_iff (withoutRepeats_ascending hsorted) (union_ascending h) fun x => ?_
  rw [normalize, mem_withoutRepeats, List.mem_mergeSort, List.mem_append, mem_union]

end IdSet

end Concordance
