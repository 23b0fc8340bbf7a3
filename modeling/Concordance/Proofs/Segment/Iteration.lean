import Concordance.Proofs.Guarded.Segment

/-!
# Iterating From Both Ends

What an iteration over a segment yields, in whichever order its two ends are asked.

An iteration knows no more than where its ends are. Both ends are moved by one for every entry that
they yield, so they close in on each other by one entry a call, and as long as there is anything
between them no call comes back without an entry. This is why the order of calls does not matter
to how many entries are left: of `size` entries, the first `size` calls yield one each, and the
others yield none (`remaining_endsAfter`). Each end yields its own entries in turn for as long as
there are any, whatever the other one was asked for in between (`answers_eq`).

Whether an entry can be read has nothing to do with it. What is yielded is the result of reading
the entry, an error as well as its bytes, and the ends are moved either way.

## Main definitions

* `Segment.endsAfter`: The ends behind some calls.
* `Segment.yields`: What some calls yield, without those that yield nothing.
* `Segment.answers`: What the calls to one of the ends come to.

## Theorems

* `Segment.takeFrom_of_lt`: A call while there is something left.
* `Segment.remaining_endsAfter`: How many entries are left behind some calls.
* `Segment.answers_eq`: What each of the ends yields.
* `Segment.iteration_exact`: An iteration yields every entry once, from both ends.
-/

namespace Concordance

namespace Segment

open Guarded (Side)

variable (segment : Segment)

/-- The ends behind some calls. -/
def endsAfter (ends : Ends) (sides : List Side) : Ends :=
  sides.foldl (fun ends side => (segment.takeFrom ends side).2) ends

/-- What some calls yield. -/
def yields (ends : Ends) (sides : List Side) : List (Except Error Bytes) :=
  (segment.walk ends sides).filterMap Prod.snd

/-- What the calls to one of the ends come to, among calls to both of them. -/
def answers (side : Side) (ends : Ends) : List Side → List (Option (Except Error Bytes))
  | [] => []
  | call :: calls =>
    if call = side then
      (segment.takeFrom ends call).1 :: answers side (segment.takeFrom ends call).2 calls
    else answers side (segment.takeFrom ends call).2 calls

/-- The entry that an end yields behind `k` others. -/
def Ends.entry (ends : Ends) (side : Side) (k : Nat) : Nat :=
  match side with
  | .front => ends.front + k
  | .back => ends.back - 1 - k

/-- The ends once one of them has yielded an entry. -/
def Ends.moved (ends : Ends) : Side → Ends
  | .front => { ends with front := ends.front + 1 }
  | .back => { ends with back := ends.back - 1 }

variable {ends : Ends}

/-- A call is made to the ends, and the others are made to what it leaves of them. -/
theorem endsAfter_cons (ends : Ends) (side : Side) (sides : List Side) :
    segment.endsAfter ends (side :: sides)
      = segment.endsAfter (segment.takeFrom ends side).2 sides :=
  rfl

theorem yields_cons (ends : Ends) (side : Side) (sides : List Side) :
    segment.yields ends (side :: sides)
      = (segment.takeFrom ends side).1.toList
        ++ segment.yields (segment.takeFrom ends side).2 sides := by
  rw [yields, walk, List.filterMap_cons]
  rcases (segment.takeFrom ends side).1 with _ | entry
  · rfl
  · rfl

/-- A call while there is something left. -/
theorem takeFrom_of_lt (h : ends.front < ends.back) (side : Side) :
    segment.takeFrom ends side = (some (segment.get (ends.entry side 0)), ends.moved side) := by
  cases side with
  | front => exact if_pos h
  | back => exact if_pos h

/-- There is one entry less then, and the ends have not passed each other. -/
theorem Ends.remaining_moved (h : ends.front < ends.back) (side : Side) :
    (ends.moved side).remaining + 1 = ends.remaining
      ∧ (ends.moved side).front ≤ (ends.moved side).back := by
  cases side with
  | front =>
    simp only [moved, remaining]
    omega
  | back =>
    simp only [moved, remaining]
    omega

/-- Where the ends have met, no call yields anything any more. -/
theorem forall_walk_of_le (h : ends.back ≤ ends.front) (sides : List Side) :
    ∀ step ∈ segment.walk ends sides, step = (0, none) := by
  have hremaining : ends.remaining = 0 := Nat.sub_eq_zero_of_le h
  induction sides with
  | nil => exact fun step hstep => absurd hstep List.not_mem_nil
  | cons side sides ih =>
    intro step hstep
    rw [walk, takeFrom_of_le (Nat.not_lt.mpr h), hremaining] at hstep
    rcases List.mem_cons.mp hstep with rfl | hstep
    · rfl
    · exact ih step hstep

/-- How many entries are left behind some calls, and how many they have yielded. -/
theorem remaining_endsAfter (h : ends.front ≤ ends.back) (sides : List Side) :
    (segment.endsAfter ends sides).front ≤ (segment.endsAfter ends sides).back
      ∧ (segment.endsAfter ends sides).remaining + (segment.yields ends sides).length
        = ends.remaining
      ∧ (segment.yields ends sides).length = min sides.length ends.remaining := by
  induction sides generalizing ends with
  | nil => exact ⟨h, rfl, (Nat.zero_min _).symm⟩
  | cons side sides ih =>
    rw [endsAfter_cons, yields_cons, List.length_append, List.length_cons]
    by_cases hleft : ends.front < ends.back
    · -- The call yields an entry, and the others go on with one less.
      have ⟨hless, hordered⟩ := Ends.remaining_moved hleft side
      obtain ⟨hordered', hremaining, hcount⟩ := ih hordered
      rw [segment.takeFrom_of_lt hleft]
      simp only [Option.toList_some, List.length_singleton]
      refine ⟨hordered', ?_, ?_⟩
      · omega
      · omega
    · -- The ends have met, so that this call and all others yield nothing.
      have hnone : ends.remaining = 0 := Nat.sub_eq_zero_of_le (Nat.le_of_not_lt hleft)
      obtain ⟨hordered', hremaining, hcount⟩ := ih h
      rw [takeFrom_of_le hleft]
      simp only [Option.toList_none, List.length_nil]
      refine ⟨hordered', ?_, ?_⟩
      · omega
      · omega

/-- Where the ends have met, the calls to either of them come to nothing. -/
theorem answers_of_le (h : ends.back ≤ ends.front) (side : Side) (sides : List Side) :
    segment.answers side ends sides = List.replicate (sides.count side) none := by
  induction sides with
  | nil => rfl
  | cons call calls ih =>
    rw [answers, takeFrom_of_le (Nat.not_lt.mpr h), ih]
    by_cases hside : call = side
    · rw [if_pos hside, hside, List.count_cons_self, List.replicate_succ]
    · rw [if_neg hside, List.count_cons_of_ne hside]

/-- An end that was moved has one entry behind it, and the other end has none more. -/
theorem Ends.entry_moved (ends : Ends) (call side : Side) (k : Nat) :
    (ends.moved call).entry side k
      = if call = side then ends.entry side (k + 1) else ends.entry side k := by
  cases call with
  | front =>
    cases side with
    | front => exact Nat.add_right_comm ends.front 1 k
    | back => rfl
  | back =>
    cases side with
    | front => rfl
    | back =>
      show ends.back - 1 - 1 - k = ends.back - 1 - (k + 1)
      omega

/-- What the calls to one of the ends come to: its entries in turn, for those of the calls that
    still find one, and nothing from then on. -/
theorem answers_eq (h : ends.front ≤ ends.back) (side : Side) (sides : List Side) :
    segment.answers side ends sides
      = (List.range ((sides.take ends.remaining).count side)).map
          (fun k => some (segment.get (ends.entry side k)))
        ++ List.replicate (sides.count side - (sides.take ends.remaining).count side) none := by
  induction sides generalizing ends with
  | nil => simp only [answers, List.take_nil, List.count_nil, List.range_zero, List.map_nil,
      Nat.sub_self, List.replicate_zero, List.append_nil]
  | cons call calls ih =>
    by_cases hleft : ends.front < ends.back
    · have ⟨hless, hordered⟩ := Ends.remaining_moved hleft call
      rw [answers, segment.takeFrom_of_lt hleft, ih hordered, ← hless, List.take_succ_cons]
      by_cases hside : call = side
      · -- The first of its entries is yielded, and those that follow have one more behind them.
        rw [if_pos hside, hside, List.count_cons_self, List.count_cons_self,
          Nat.add_sub_add_right, List.range_succ_eq_map, List.map_cons, List.map_map,
          List.cons_append]
        refine congrArg₂ List.cons rfl (congrArg (· ++ _) (List.map_congr_left fun k _ => ?_))
        rw [Ends.entry_moved, if_pos rfl]
        rfl
      · -- The other end yields one, and this end has all of its entries still to come.
        rw [if_neg hside, List.count_cons_of_ne hside, List.count_cons_of_ne hside]
        refine congrArg (· ++ _) (List.map_congr_left fun k _ => ?_)
        rw [Ends.entry_moved, if_neg hside]
    · -- Nothing is left, so that none of the calls finds an entry.
      have hnone : ends.remaining = 0 := Nat.sub_eq_zero_of_le (Nat.le_of_not_lt hleft)
      rw [segment.answers_of_le (Nat.le_of_not_lt hleft), hnone]
      rfl

/-- Calls are to one end or to the other. -/
theorem count_sides (sides : List Side) :
    sides.count .front + sides.count .back = sides.length := by
  induction sides with
  | nil => rfl
  | cons side sides ih =>
    cases side with
    | front =>
      rw [List.count_cons_self, List.count_cons_of_ne (by decide), List.length_cons]
      omega
    | back =>
      rw [List.count_cons_self, List.count_cons_of_ne (by decide), List.length_cons]
      omega

/-- The first numbers and the last ones are different, if there are not more than all. -/
theorem nodup_both_ends {size front back : Nat} (h : front + back ≤ size) :
    (List.range front ++ (List.range back).map (size - 1 - ·)).Nodup := by
  refine List.nodup_append.mpr ⟨List.nodup_range, ?_, ?_⟩
  · refine List.pairwise_map.mpr (List.pairwise_lt_range.imp_of_mem ?_)
    intro i j hi hj hlt
    have hlast := List.mem_range.mp hj
    omega
  · intro i hi j hj
    rcases List.mem_map.mp hj with ⟨k, hk, rfl⟩
    have hfront := List.mem_range.mp hi
    have hback := List.mem_range.mp hk
    omega

/-- An iteration over a segment, behind any calls to its two ends. The number of entries that are
    left is a difference that does not fall below zero, and together with the entries that were
    yielded it makes all of them. The front end has yielded the results of reading the first
    entries in turn, and the back end those of the last ones, as many as there were calls to it
    among the first `size` calls. No entry was yielded twice. The calls that are left over yield
    nothing, and once all entries were yielded neither do any others. -/
theorem iteration_exact (segment : Segment) (sides : List Side) :
    let ends := segment.endsAfter segment.ends sides
    let yielded := segment.yields segment.ends sides
    let front := (sides.take segment.size).count .front
    let back := (sides.take segment.size).count .back
    Guarded.difference ends.back ends.front = .ok ends.remaining
    ∧ ends.remaining + yielded.length = segment.size
    ∧ yielded.length = front + back
    ∧ segment.answers .front segment.ends sides
      = (List.range front).map (fun k => some (segment.get k))
        ++ List.replicate (sides.count .front - front) none
    ∧ segment.answers .back segment.ends sides
      = (List.range back).map (fun k => some (segment.get (segment.size - 1 - k)))
        ++ List.replicate (sides.count .back - back) none
    ∧ (List.range front ++ (List.range back).map (segment.size - 1 - ·)).Nodup
    ∧ (yielded.length = segment.size →
      ∀ more, ∀ step ∈ segment.walk ends more, step = (0, none)) := by
  intro ends yielded front back
  have hsize : segment.ends.remaining = segment.size := Nat.sub_zero _
  have hstart : segment.ends.front ≤ segment.ends.back := Nat.zero_le _
  obtain ⟨hordered, hremaining, hcount⟩ := segment.remaining_endsAfter hstart sides
  rw [hsize] at hremaining hcount
  have hyielded : yielded.length = min sides.length segment.size := hcount
  have hall : ends.remaining + yielded.length = segment.size := hremaining
  -- Each of the first calls is to one end or the other.
  have hboth : front + back = min segment.size sides.length :=
    (count_sides _).trans List.length_take
  refine ⟨Guarded.difference_eq hordered, hall, by omega, ?_, ?_, nodup_both_ends (by omega),
    fun hover more => segment.forall_walk_of_le ?_ more⟩
  · rw [segment.answers_eq hstart, hsize]
    simp only [Ends.entry, Segment.ends, Nat.zero_add, front]
  · rw [segment.answers_eq hstart, hsize]
    rfl
  · -- All were yielded, so that nothing is left between the ends.
    have hnone : ends.remaining = 0 := by omega
    exact Nat.sub_eq_zero_iff_le.mp hnone

end Segment

end Concordance
