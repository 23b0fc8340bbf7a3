import Concordance.Proofs.Query.Nearness

/-!
# The Scan for Near Positions, Round by Round

How the scan goes through its two lists, and that it comes to an end.

The scan is a loop with a place in each list. A round compares the positions at the two places,
and either answers or moves one of the places on by one. So there is one position less to look at
behind every round that does not answer, and the positions of both lists are a bound for all
rounds (`NearScan.run_eq`).

`anyWithin` knows no places. It is given what is left of each list, which is what lies from the
places on, and a round does to the places what a call of it does to the lists. That nothing is
missed by it was shown without places (`anyWithin_iff`). Here it is said for places again, with the
distance as a difference of whole numbers, which has no largest position to wrap around at.

## Main definitions

* `NearScan.round`: What is done at two places.
* `NearScan.run`: What so many rounds come to.
* `NearScan.left`: How many positions are left to look at.

## Theorems

* `NearScan.left_of_next`: A round that does not answer leaves one position less.
* `NearScan.run_eq`: Enough rounds come to what the scan finds.
* `anyWithin_complete`: The scan ends, and misses nothing.
-/

namespace Concordance

namespace NearScan

/-- A place in each of the two lists. -/
structure Places where
  first : Nat := 0
  second : Nat := 0
deriving DecidableEq, Repr

/-- What a round comes to. -/
inductive Outcome where
  | answer (found : Bool)
  | next (places : Places)
deriving DecidableEq, Repr

/-- What is done at two places. The scan is over when there is nothing at one of them. -/
def round (distance : Nat) (as bs : List UInt32) (places : Places) : Outcome :=
  match as[places.first]?, bs[places.second]? with
  | some a, some b =>
    if gap a b ≤ distance then .answer true
    else if a < b then .next { places with first := places.first + 1 }
    else .next { places with second := places.second + 1 }
  | _, _ => .answer false

/-- What so many rounds come to, if they are enough. -/
def run (distance : Nat) (as bs : List UInt32) : (rounds : Nat) → Places → Option Bool
  | 0, _ => none
  | rounds + 1, places =>
    match round distance as bs places with
    | .answer found => some found
    | .next places => run distance as bs rounds places

/-- How many positions there are from the places on. -/
def left (as bs : List UInt32) (places : Places) : Nat :=
  (as.length - places.first) + (bs.length - places.second)

variable {distance : Nat} {as bs : List UInt32} {places next : Places} {found : Bool}

/-- What is left of a list that has something at a place. -/
theorem drop_of_getElem? {cs : List UInt32} {i : Nat} {c : UInt32} (h : cs[i]? = some c) :
    i < cs.length ∧ cs.drop i = c :: cs.drop (i + 1) := by
  rcases List.getElem?_eq_some_iff.mp h with ⟨hi, rfl⟩
  exact ⟨hi, List.drop_eq_getElem_cons hi⟩

/-- A round that goes on has found two positions, and that they are too far apart. -/
theorem exists_of_next (h : round distance as bs places = .next next) :
    ∃ a b, as[places.first]? = some a ∧ bs[places.second]? = some b ∧ ¬ gap a b ≤ distance
      ∧ next = if a < b then { places with first := places.first + 1 }
        else { places with second := places.second + 1 } := by
  unfold round at h
  rcases ha : as[places.first]? with _ | a
  · simp only [ha, reduceCtorEq] at h
  · rcases hb : bs[places.second]? with _ | b
    · simp only [ha, hb, reduceCtorEq] at h
    · simp only [ha, hb] at h
      by_cases hnear : gap a b ≤ distance
      · simp only [if_pos hnear, reduceCtorEq] at h
      · -- The list with the smaller position goes on.
        rw [if_neg hnear] at h
        refine ⟨a, b, rfl, rfl, hnear, ?_⟩
        by_cases hlt : a < b
        · rw [if_pos hlt] at h ⊢
          exact (Outcome.next.inj h).symm
        · rw [if_neg hlt] at h ⊢
          exact (Outcome.next.inj h).symm

/-- A round that does not answer leaves one position less. -/
theorem left_of_next (h : round distance as bs places = .next next) :
    left as bs next + 1 = left as bs places := by
  obtain ⟨a, b, ha, hb, -, rfl⟩ := exists_of_next h
  have hfirst := (drop_of_getElem? ha).1
  have hsecond := (drop_of_getElem? hb).1
  unfold left
  by_cases hlt : a < b
  · rw [if_pos hlt]
    simp only
    omega
  · rw [if_neg hlt]
    simp only
    omega

/-- Such a round does what the scan of the two rests does. -/
theorem anyWithin_of_next (h : round distance as bs places = .next next) :
    anyWithin distance (as.drop places.first) (bs.drop places.second)
      = anyWithin distance (as.drop next.first) (bs.drop next.second) := by
  obtain ⟨a, b, ha, hb, hfar, rfl⟩ := exists_of_next h
  have hfirst := (drop_of_getElem? ha).2
  have hsecond := (drop_of_getElem? hb).2
  rw [hfirst, hsecond, anyWithin, if_neg hfar]
  by_cases hlt : a < b
  · rw [if_pos hlt, if_pos hlt, hsecond]
  · rw [if_neg hlt, if_neg hlt, hfirst]

/-- So does a round that answers. -/
theorem anyWithin_of_answer (h : round distance as bs places = .answer found) :
    anyWithin distance (as.drop places.first) (bs.drop places.second) = found := by
  unfold round at h
  rcases ha : as[places.first]? with _ | a
  · -- The first list is over.
    simp only [ha, Outcome.answer.injEq] at h
    rw [List.drop_eq_nil_of_le (List.getElem?_eq_none_iff.mp ha), anyWithin, h]
  · rw [(drop_of_getElem? ha).2]
    rcases hb : bs[places.second]? with _ | b
    · -- The second list is over.
      simp only [ha, hb, Outcome.answer.injEq] at h
      rw [List.drop_eq_nil_of_le (List.getElem?_eq_none_iff.mp hb), anyWithin, h]
    · rw [(drop_of_getElem? hb).2, anyWithin]
      simp only [ha, hb] at h
      -- Both lists go on, unless the answer is that these two are near.
      by_cases hnear : gap a b ≤ distance
      · rw [if_pos hnear] at h ⊢
        exact Outcome.answer.inj h
      · rw [if_neg hnear] at h
        by_cases hlt : a < b
        · simp only [if_pos hlt, reduceCtorEq] at h
        · simp only [if_neg hlt, reduceCtorEq] at h

/-- More rounds than there are positions left come to what the scan of the two rests finds. -/
theorem run_eq {rounds : Nat} (h : left as bs places < rounds) :
    run distance as bs rounds places
      = some (anyWithin distance (as.drop places.first) (bs.drop places.second)) := by
  induction rounds generalizing places with
  | zero => omega
  | succ rounds ih =>
    unfold run
    rcases hround : round distance as bs places with found | next
    · rw [anyWithin_of_answer hround]
    · -- One position less is left for one round less.
      have hleft := left_of_next hround
      simp only
      rw [ih (by omega), anyWithin_of_next hround]

end NearScan

/-- Being near is a matter of the difference of two positions. -/
theorem near_iff_natAbs {distance : Nat} {a b : UInt32} :
    Near distance a b ↔ ((a.toNat : Int) - b.toNat).natAbs ≤ distance := by
  unfold Near
  omega

/-- The scan of two lists in order ends within as many rounds as there are positions and one more,
    and what it comes to is whether a position of the first list and one of the second are at most
    `distance` apart. -/
theorem anyWithin_complete (distance : Nat) {as bs : List UInt32} (hfirst : as.Pairwise (· ≤ ·))
    (hsecond : bs.Pairwise (· ≤ ·)) :
    (∀ rounds, as.length + bs.length < rounds →
      NearScan.run distance as bs rounds {} = some (anyWithin distance as bs))
    ∧ (anyWithin distance as bs = true
      ↔ ∃ i j, ∃ (hi : i < as.length) (hj : j < bs.length),
        ((as[i].toNat : Int) - bs[j].toNat).natAbs ≤ distance) := by
  constructor
  · intro rounds hrounds
    exact NearScan.run_eq hrounds
  · -- Membership is told by places.
    rw [anyWithin_iff hfirst hsecond]
    constructor
    · rintro ⟨a, ha, b, hb, hnear⟩
      rcases List.mem_iff_getElem.mp ha with ⟨i, hi, rfl⟩
      rcases List.mem_iff_getElem.mp hb with ⟨j, hj, rfl⟩
      exact ⟨i, j, hi, hj, near_iff_natAbs.mp hnear⟩
    · rintro ⟨i, j, hi, hj, hnear⟩
      exact ⟨as[i], List.getElem_mem hi, bs[j], List.getElem_mem hj, near_iff_natAbs.mpr hnear⟩

/-- The only near positions are the last ones, behind some that come twice. One of them is the
    largest position that there is. -/
theorem anyWithin_complete_of_last :
    let as : List UInt32 := [0, 7, 7, 4294967295]
    let bs : List UInt32 := [4, 4, 4294967293]
    as.Pairwise (· ≤ ·) ∧ bs.Pairwise (· ≤ ·)
      ∧ NearScan.run 2 as bs 8 {} = some (anyWithin 2 as bs)
      ∧ anyWithin 2 as bs = true ∧ anyWithin 1 as bs = false := by
  have hfar : ∀ i (hi : i < 4) j (hj : j < 3),
      ¬ ((([0, 7, 7, 4294967295] : List UInt32)[i].toNat : Int)
        - ([4, 4, 4294967293] : List UInt32)[j].toNat).natAbs ≤ 1 := by decide
  intro as bs
  have hfirst : as.Pairwise (· ≤ ·) := by decide
  have hsecond : bs.Pairwise (· ≤ ·) := by decide
  obtain ⟨hends, hfound⟩ := anyWithin_complete 2 hfirst hsecond
  obtain ⟨-, hmissed⟩ := anyWithin_complete 1 hfirst hsecond
  refine ⟨hfirst, hsecond, hends 8 (by decide), ?_, ?_⟩
  · exact hfound.mpr ⟨3, 2, by decide, by decide, by decide⟩
  · -- At a distance of one there would be a pair of places, and none of the twelve is one.
    rw [Bool.eq_false_iff]
    intro htrue
    obtain ⟨i, j, hi, hj, hnear⟩ := hmissed.mp htrue
    exact hfar i hi j hj hnear

end Concordance
