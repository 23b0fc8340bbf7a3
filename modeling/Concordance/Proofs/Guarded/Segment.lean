import Concordance.Proofs.Guarded.Entry
import Concordance.Proofs.Layout.Cut

/-!
# Segments With Every Step Guarded

Getting at the entries of a table by number, by key and in turn, whatever the table says.

Every place in a blob is told by the blob, and only two things are known of them. A table that
could be read lies in the blob (`Inside`), and a place that was read out of it is compared with
the size of the blob before it is used. From these follows all the rest: the product of a number
with eight is not too large, since the table is there; a slice does not end behind the blob, since
its end is a place; and the middle of two numbers lies between them.

Halving is a loop on numbers and not on bytes. It ends because every round leaves less than there
was, and a round that does not is a fault, as with the loops that read bytes. An iteration goes on
for as long as it is asked to, from either end, and all that it can rely on is that its ends have
not passed each other.

## Main definitions

* `Guarded.table`, `Guarded.offset`, `Guarded.get`: A table, a place, an entry.
* `Guarded.halve`, `Guarded.search`: Looking for a key.
* `Guarded.Side`, `Guarded.walk`: An iteration, told by the ends that it takes from.
* `Guarded.Inside`: What is known of a segment.

## Theorems

* `Guarded.safe_table`: A table is read anywhere without a fault.
* `Guarded.Inside.get`, `Guarded.Inside.search`: Any entry, and any search.
* `Guarded.Inside.rangeOf`, `find`, `leadRange`, `isSorted`: The lookups.
* `Guarded.Inside.takeFrom`, `Guarded.Inside.walk`: A step of an iteration, and all of it.
-/

namespace Concordance

namespace Guarded

/-- The table that begins at `start`, and where it ends. What there is behind a place is asked
    for, and may be nothing. -/
def table (blob : Blob) (start : Nat) : Except Error (OffsetTable × Nat) := do
  let count ← front u64 (blob.toList.drop start)
  let firstPlace ← checked (start + 8)
  if UInt64.size ≤ 8 * count then .error (.corrupt (.tableOverflow count))
  else if firstPlace + 8 * count ≤ blob.size then
    .ok (⟨count, firstPlace⟩, firstPlace + 8 * count)
  else .error (.corrupt (.tableOutside count blob.size))

/-- The place of entry `i`. -/
def offset (table : OffsetTable) (blob : Blob) (i : Nat) : Except Error Nat :=
  if table.count ≤ i then .error (.corrupt (.entryOutOfRange i table.count))
  else do
    let width ← checked (8 * i)
    let place ← checked (table.firstPlace + width)
    let rest ← part blob.toList place blob.toList.length
    let raw ← front u64 rest
    if raw < blob.size then .ok raw else .error (.corrupt (.entryOutside i raw))

/-- Where the entry in front of entry `i` ends. -/
def endBefore (segment : Segment) (i : Nat) : Except Error Nat :=
  if i < segment.table.count then offset segment.table segment.blob i
  else .ok segment.blob.size

/-- The bytes of entry `i`. -/
def get (segment : Segment) (i : Nat) : Except Error Bytes := do
  let start ← offset segment.table segment.blob i
  let next ← checked (i + 1)
  let stop ← endBefore segment next
  if stop < start then .error (.corrupt (.entryBackwards i start stop))
  else part segment.blob.toList start stop

/-- What entry `i` is sorted by. -/
def key (segment : Segment) (i : Nat) : Except Error Bytes :=
  get segment i >>= untilNul

/-- Looks at the key in the middle, and says what is left to look at. The test may go wrong. -/
def halve (segment : Segment) (test : Bytes → Except Error Bool) (low high : Nat) :
    Except Error (Nat × Nat) := do
  let room ← difference high low
  let middle ← checked (low + room / 2)
  let found ← key segment middle
  let passed ← test found
  if passed then
    let low ← checked (middle + 1)
    .ok (low, high)
  else .ok (low, middle)

/-- Halves the entries from `low` up to `high` until there are none. -/
def search (segment : Segment) (test : Bytes → Except Error Bool) (low high : Nat) :
    Except Error Nat :=
  if low < high then
    match halve segment test low high with
    | .error e => .error e
    | .ok (low', high') =>
      if high' - low' < high - low then search segment test low' high' else .error .fault
  else .ok low
termination_by high - low

/-- The entries with a key. -/
def rangeOf (segment : Segment) (key : Bytes) : Except Error (Nat × Nat) := do
  let start ← search segment (fun k => .ok (decide (k < key))) 0 segment.size
  let stop ← search segment (fun k => .ok (decide (k ≤ key))) 0 segment.size
  .ok (start, stop)

/-- The first entry with a key, if there is one. -/
def find (segment : Segment) (key : Bytes) : Except Error (Option Nat) := do
  let (start, stop) ← rangeOf segment key
  .ok (if start < stop then some start else none)

/-- As many bytes of a key as `lead` has, or all. -/
def leadOf (lead key : Bytes) : Except Error Bytes :=
  part key 0 (min key.length lead.length)

/-- The entries whose key begins with `lead`. -/
def leadRange (segment : Segment) (lead : Bytes) : Except Error (Nat × Nat) := do
  let start ← search segment (fun k => (leadOf lead k).map (decide <| · < lead)) 0 segment.size
  let stop ← search segment (fun k => (leadOf lead k).map (decide <| · ≤ lead)) 0 segment.size
  .ok (start, max start stop)

/-- Do the keys from the one before entry `i` on ascend, of `count` entries from there? -/
def isSortedFrom (segment : Segment) (i : Nat) : (count : Nat) → Except Error Bool
  | 0 => .ok true
  | count + 1 => do
    let before ← difference i 1
    let previous ← key segment before
    let next ← key segment i
    if next < previous then .ok false else isSortedFrom segment (i + 1) count

/-- Do the keys ascend? -/
def isSorted (segment : Segment) : Except Error Bool :=
  isSortedFrom segment 1 (segment.size - 1)

/-- The ends of an iteration. -/
inductive Side where
  | front
  | back
deriving DecidableEq, Repr

/-- A result, whatever it is. A fault is none. -/
def reveal {α : Type} : Except Error α → Except Error (Except Error α)
  | .error .fault => .error .fault
  | outcome => .ok outcome

/-- Takes an entry from one of the ends. -/
def takeFrom (segment : Segment) (ends : Segment.Ends) :
    Side → Except Error (Option (Except Error Bytes) × Segment.Ends)
  | .front =>
    if ends.front < ends.back then do
      let entry ← reveal (get segment ends.front)
      let front ← checked (ends.front + 1)
      .ok (some entry, { ends with front })
    else .ok (none, ends)
  | .back =>
    if ends.front < ends.back then do
      let back ← difference ends.back 1
      let entry ← reveal (get segment back)
      .ok (some entry, { ends with back })
    else .ok (none, ends)

/-- An iteration that takes entries from these ends. Before each it is asked how many are left. -/
def walk (segment : Segment) (ends : Segment.Ends) :
    List Side → Except Error (List (Nat × Option (Except Error Bytes)))
  | [] => .ok []
  | side :: sides => do
    let left ← difference ends.back ends.front
    let (entry, ends) ← takeFrom segment ends side
    let others ← walk segment ends sides
    .ok ((left, entry) :: others)

end Guarded

namespace Segment

/-- Takes an entry from one of the ends. -/
def takeFrom (segment : Segment) (ends : Ends) :
    Guarded.Side → Option (Except Error Bytes) × Ends
  | .front => segment.takeFront ends
  | .back => segment.takeBack ends

/-- Where the ends have met there is nothing to take. -/
theorem takeFrom_of_le {segment : Segment} {ends : Ends} (h : ¬ ends.front < ends.back)
    (side : Guarded.Side) : segment.takeFrom ends side = (none, ends) := by
  cases side with
  | front => exact if_neg h
  | back => exact if_neg h

/-- An iteration that takes entries from these ends, and how many were left before each. -/
def walk (segment : Segment) (ends : Ends) :
    List Guarded.Side → List (Nat × Option (Except Error Bytes))
  | [] => []
  | side :: sides =>
    (ends.remaining, (segment.takeFrom ends side).1)
      :: segment.walk (segment.takeFrom ends side).2 sides

end Segment

namespace Guarded

variable {blob : Blob}

/-- A slice of the bytes of a blob is a slice of the blob. -/
theorem part_toList {start stop : Nat} (hstart : start ≤ stop) (hstop : stop ≤ blob.size) :
    part blob.toList start stop = blob.slice start stop := by
  rw [part_eq hstart (by rw [Array.length_toList]; exact hstop), Blob.slice, if_pos ⟨hstart, hstop⟩,
    Array.toList_extract, List.extract_eq_take_drop, List.drop_take]

/-- Eight bytes at a place, with all that is behind them or without. -/
theorem safe_u64 (hsize : blob.size < UInt64.size) (start : Nat) :
    Safe (front u64 (blob.toList.drop start)) (Reader.u64 ⟨blob.window start 8, 0⟩).1 := by
  have hlength : (blob.toList.drop start).length < UInt64.size := by
    rw [List.length_drop, Array.length_toList]
    omega
  have hwindow : (blob.window start 8).take 8 = (blob.toList.drop start).take 8 := by
    rw [Blob.window, Array.toList_extract, List.extract_eq_take_drop, Nat.add_sub_cancel_left,
      List.take_take, Nat.min_self]
  have hsame : (Reader.u64 ⟨blob.window start 8, 0⟩).1
      = (Reader.u64 ⟨blob.toList.drop start, 0⟩).1 := by
    simp only [Reader.u64, hwindow]
    split <;> rfl
  rw [hsame]
  exact mirrors_u64.safe hlength

/-- A table is read anywhere without a fault. -/
theorem safe_table (hsize : blob.size < UInt64.size) (start : Nat) :
    Safe (table blob start) (OffsetTable.parse blob start) := by
  rw [OffsetTable.parse_eq_bind]
  refine (safe_u64 hsize start).bind fun count hcount => ?_
  -- Its number is there, and so its first place is in the blob or at its end.
  have hinside : start + 8 ≤ blob.size := Reader.le_of_u64 (Prod.ext hcount rfl)
  rw [checked_eq (Nat.lt_of_le_of_lt hinside hsize)]
  change Safe (if _ then _ else _) (if _ then _ else _)
  split
  · exact .corrupt _
  · split
    · exact .value _
    · exact .corrupt _

/-- What is known of a segment: its table is in its blob, and there is a number for every place
    of the blob. -/
structure Inside (segment : Segment) : Prop where
  size : segment.blob.size < UInt64.size
  table : segment.table.firstPlace + 8 * segment.table.count ≤ segment.blob.size

/-- The ends of an iteration have not passed each other. -/
structure Ordered (segment : Segment) (ends : Segment.Ends) : Prop where
  front : ends.front ≤ ends.back
  back : ends.back ≤ segment.size

theorem ordered_ends (segment : Segment) : Ordered segment segment.ends :=
  ⟨Nat.zero_le _, Nat.le_refl _⟩

/-- And no step lets them pass. -/
theorem Ordered.takeFrom {segment : Segment} {ends : Segment.Ends} (h : Ordered segment ends)
    (side : Side) : Ordered segment (segment.takeFrom ends side).2 := by
  by_cases hleft : ends.front < ends.back
  · cases side with
    | front =>
      simp only [Segment.takeFrom, Segment.takeFront, if_pos hleft]
      exact ⟨Nat.succ_le_of_lt hleft, h.back⟩
    | back =>
      simp only [Segment.takeFrom, Segment.takeBack, if_pos hleft]
      exact ⟨Nat.le_sub_one_of_lt hleft, Nat.le_trans (Nat.sub_le _ _) h.back⟩
  · rw [Segment.takeFrom_of_le hleft]
    exact h

/-- A result that is safe is no fault. -/
theorem reveal_eq {α : Type} {guarded plain : Except Error α} (h : Safe guarded plain) :
    reveal guarded = .ok plain := by
  cases h <;> rfl

/-- A slice of a key is not longer than the key. -/
theorem leadOf_eq (lead key : Bytes) : leadOf lead key = .ok (key.take lead.length) := by
  rw [leadOf, part_eq (Nat.zero_le _) (Nat.min_le_left _ _), List.drop_zero, Nat.min_comm,
    ← List.take_take, List.take_length]

namespace Inside

variable {segment : Segment}

theorem offset (h : Inside segment) (i : Nat) :
    Safe (offset segment.table segment.blob i) (segment.table.offset segment.blob i) := by
  have hsize := h.size
  have htable := h.table
  rw [OffsetTable.offset_eq_bind]
  unfold Guarded.offset
  by_cases hi : segment.table.count ≤ i
  · rw [if_pos hi, if_pos hi]
    exact .corrupt _
  · -- The number of the entry is less than that of the entries, and so is its place.
    have hplace : segment.table.firstPlace + 8 * i ≤ segment.blob.size := by omega
    have hlength : segment.blob.toList.length = segment.blob.size := Array.length_toList
    have hwidth : checked (8 * i) = .ok (8 * i) := checked_eq (by omega)
    have hsum := checked_eq (Nat.lt_of_le_of_lt hplace hsize)
    rw [if_neg hi, if_neg hi, hwidth, hsum]
    change Safe (checked (segment.table.firstPlace + 8 * i) >>= _) (Blob.behind _ _ _ >>= _)
    rw [hsum, Blob.behind, if_pos hplace]
    change Safe (part segment.blob.toList _ _ >>= _) ((Reader.u64 _).1 >>= _)
    rw [part_eq (by omega) (Nat.le_refl _), List.take_length]
    refine (safe_u64 hsize _).bind fun raw _ => ?_
    split
    · exact .value raw
    · exact .corrupt _

theorem endBefore (h : Inside segment) (i : Nat) :
    Safe (endBefore segment i)
      (if i < segment.table.count then segment.table.offset segment.blob i
        else .ok segment.blob.size) := by
  unfold Guarded.endBefore
  split
  · exact h.offset i
  · exact .value _

/-- Any entry is read without a fault. -/
theorem get (h : Inside segment) (i : Nat) : Safe (get segment i) (segment.get i) := by
  rw [Segment.get_eq_bind]
  refine (h.offset i).bind fun start hstart => ?_
  -- There is such an entry, so that the number behind it is not too large.
  have hi := OffsetTable.lt_count_of_offset hstart
  have hnext : checked (i + 1) = .ok (i + 1) := by
    have hsize := h.size
    have htable := h.table
    exact checked_eq (by omega)
  rw [hnext]
  change Safe (Guarded.endBefore segment (i + 1) >>= _) _
  refine (h.endBefore (i + 1)).bind fun stop hstop => ?_
  have hle : stop ≤ segment.blob.size := by
    split at hstop
    · exact Nat.le_of_lt (OffsetTable.lt_of_offset hstop)
    · exact Nat.le_of_eq (Except.ok.inj hstop).symm
  by_cases hback : stop < start
  · rw [if_pos hback, if_pos hback]
    exact .corrupt _
  · have horder := Nat.le_of_not_lt hback
    rw [if_neg hback, if_neg hback, part_toList horder hle, Blob.slice, if_pos ⟨horder, hle⟩]
    exact .value _

theorem key (h : Inside segment) (i : Nat) : Safe (key segment i) (segment.key i) :=
  (h.get i).bind fun entry _ => safe_untilNul entry

/-- There is a number for every entry. -/
theorem count_lt (h : Inside segment) : segment.size < UInt64.size := by
  have hsize := h.size
  have htable := h.table
  rw [Segment.size]
  omega

section Search

variable {test : Bytes → Except Error Bool} {test' : Bytes → Bool} {low high : Nat}

/-- A round looks at the key in the middle and goes on with one of the halves. -/
theorem halve_eq (h : Inside segment) (htest : ∀ k, test k = .ok (test' k)) (hlt : low < high)
    (hhigh : high ≤ segment.size) :
    halve segment test low high
      = (segment.key (low + (high - low) / 2)).map fun found =>
          if test' found then (low + (high - low) / 2 + 1, high)
          else (low, low + (high - low) / 2) := by
  have hcount := h.count_lt
  have hmiddle : checked (low + (high - low) / 2) = .ok (low + (high - low) / 2) :=
    checked_eq (by omega)
  have hnext : checked (low + (high - low) / 2 + 1) = .ok (low + (high - low) / 2 + 1) :=
    checked_eq (by omega)
  -- The middle is no further than the number of entries, so neither sum leaves its range.
  unfold halve
  rw [difference_eq (Nat.le_of_lt hlt)]
  change (checked (low + (high - low) / 2) >>= _) = _
  rw [hmiddle]
  change (Guarded.key segment (low + (high - low) / 2) >>= _) = _
  rw [(h.key _).eq]
  rcases segment.key (low + (high - low) / 2) with e | found
  · rfl
  · change (test found >>= _) = _
    rw [htest]
    change (if test' found = true then checked (low + (high - low) / 2 + 1) >>= _ else _)
      = Except.ok (if test' found = true then _ else _)
    rw [hnext]
    split <;> rfl

/-- Halving goes on without a fault, and it ends. -/
theorem search (h : Inside segment) (htest : ∀ k, test k = .ok (test' k))
    (hhigh : high ≤ segment.size) :
    Safe (search segment test low high) (segment.search test' low high) := by
  fun_induction Segment.search segment test' low high with
  | case1 low high hlt middle e hkey =>
    rcases (h.key middle).corrupt_of_error hkey with ⟨cause, rfl⟩
    rw [Guarded.search, if_pos hlt, h.halve_eq htest hlt hhigh, hkey]
    exact .corrupt cause
  | case2 low high hlt middle found hkey hpass ih =>
    -- The guard of the round is met, since the half that is left is shorter.
    rw [Guarded.search, if_pos hlt, h.halve_eq htest hlt hhigh, hkey]
    dsimp only [Except.map]
    rw [if_pos hpass]
    dsimp only
    rw [if_pos (by omega)]
    exact ih hhigh
  | case3 low high hlt middle found hkey hfail ih =>
    rw [Guarded.search, if_pos hlt, h.halve_eq htest hlt hhigh, hkey]
    dsimp only [Except.map]
    rw [if_neg hfail]
    dsimp only
    rw [if_pos (by omega)]
    exact ih (by omega)
  | case4 low high hnot =>
    rw [Guarded.search, if_neg hnot]
    exact .value low

/-- A search among all entries. -/
theorem firstFailing (h : Inside segment) (htest : ∀ k, test k = .ok (test' k)) :
    Safe (Guarded.search segment test 0 segment.size) (segment.firstFailing test') :=
  h.search htest (Nat.le_refl _)

end Search

theorem rangeOf (h : Inside segment) (key : Bytes) :
    Safe (rangeOf segment key) (segment.rangeOf key) :=
  (h.firstFailing fun _ => rfl).bind fun _ _ => (h.firstFailing fun _ => rfl).bind fun _ _ =>
    .value _

theorem find (h : Inside segment) (key : Bytes) : Safe (find segment key) (segment.find key) :=
  (h.rangeOf key).bind fun _ _ => .value _

theorem leadRange (h : Inside segment) (lead : Bytes) :
    Safe (leadRange segment lead) (segment.leadRange lead) := by
  refine (h.firstFailing fun k => ?_).bind fun _ _ => (h.firstFailing fun k => ?_).bind fun _ _ =>
    .value _
  · rw [leadOf_eq]
    rfl
  · rw [leadOf_eq]
    rfl

/-- Going through the keys, each next to the one before it. -/
theorem isSortedFrom (h : Inside segment) (i count : Nat) :
    Safe (isSortedFrom segment (i + 1) count) (segment.isSortedFrom i count) := by
  induction count generalizing i with
  | zero => exact .value true
  | succ count ih =>
    refine (h.key i).bind fun previous _ => (h.key (i + 1)).bind fun next _ => ?_
    split
    · exact .value false
    · exact ih (i + 1)

theorem isSorted (h : Inside segment) : Safe (isSorted segment) segment.isSorted :=
  h.isSortedFrom 0 _

section Iteration

variable {ends : Segment.Ends}

/-- A step of an iteration whose ends have not passed each other. -/
theorem takeFrom (h : Inside segment) (hends : Ordered segment ends) (side : Side) :
    takeFrom segment ends side = .ok (segment.takeFrom ends side) := by
  by_cases hleft : ends.front < ends.back
  · have hcount := h.count_lt
    have hback := hends.back
    cases side with
    | front =>
      have hnext : checked (ends.front + 1) = .ok (ends.front + 1) := checked_eq (by omega)
      simp only [Guarded.takeFrom, Segment.takeFrom, Segment.takeFront, if_pos hleft]
      rw [reveal_eq (h.get _)]
      change (checked (ends.front + 1) >>= _) = _
      rw [hnext]
      rfl
    | back =>
      -- There is an entry between the ends, so the end at the back is not zero.
      simp only [Guarded.takeFrom, Segment.takeFrom, Segment.takeBack, if_pos hleft]
      rw [difference_eq (by omega)]
      change (reveal (Guarded.get segment (ends.back - 1)) >>= _) = _
      rw [reveal_eq (h.get _)]
      rfl
  · rw [Segment.takeFrom_of_le hleft]
    cases side with
    | front => exact if_neg hleft
    | back => exact if_neg hleft

/-- What such a step takes is no fault. -/
theorem safe_of_takeFrom (h : Inside segment) {side : Side} {entry : Except Error Bytes}
    (htake : (segment.takeFrom ends side).1 = some entry) : Safe entry entry := by
  by_cases hleft : ends.front < ends.back
  · cases side with
    | front =>
      simp only [Segment.takeFrom, Segment.takeFront, if_pos hleft] at htake
      exact Option.some.inj htake ▸ (h.get _).self
    | back =>
      simp only [Segment.takeFrom, Segment.takeBack, if_pos hleft] at htake
      exact Option.some.inj htake ▸ (h.get _).self
  · rw [Segment.takeFrom_of_le hleft] at htake
    exact absurd htake (by simp)

/-- An iteration, however long it is and whichever ends it takes from. -/
theorem walk (h : Inside segment) (hends : Ordered segment ends) (sides : List Side) :
    walk segment ends sides = .ok (segment.walk ends sides)
      ∧ ∀ step ∈ segment.walk ends sides, ∀ entry, step.2 = some entry → Safe entry entry := by
  induction sides generalizing ends with
  | nil => exact ⟨rfl, fun step hstep => absurd hstep List.not_mem_nil⟩
  | cons side sides ih =>
    obtain ⟨hwalk, hentries⟩ := ih (hends.takeFrom side)
    constructor
    · -- What is left after a step is between ends that are in order again.
      unfold Guarded.walk
      rw [difference_eq hends.front]
      change (Guarded.takeFrom segment ends side >>= _) = _
      rw [h.takeFrom hends]
      change (Guarded.walk segment (segment.takeFrom ends side).2 sides >>= _) = _
      rw [hwalk]
      rfl
    · intro step hstep entry hentry
      rcases List.mem_cons.mp hstep with rfl | hstep
      · exact h.safe_of_takeFrom hentry
      · exact hentries step hstep entry hentry

end Iteration

end Inside

end Guarded

end Concordance
