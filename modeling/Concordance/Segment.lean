import Concordance.Layout.OffsetTable

/-!
# Segments

The entries of one table, by number and by key.

An entry goes from its place to the place of the next one, the last to the end
of the blob. Its key is what it has before the first NUL. Where the keys ascend,
an entry is found by halving: `firstFailing` looks for the first entry whose
key fails a test that the keys before it pass, and every lookup is one or two
such searches.

An iteration takes entries from both ends until the ends meet.

## Main definitions

* `Segment`: A table and the blob that it lies in.
* `Segment.get`, `Segment.key`: One entry.
* `Segment.rangeOf`, `Segment.find`, `Segment.leadRange`: Lookups.
* `Segment.Ends`: An iteration from both ends.
-/

namespace Concordance

/-- A table and the blob that it lies in. -/
structure Segment where
  blob : Blob
  table : OffsetTable

namespace Segment

/-- The number of entries. -/
def size (segment : Segment) : Nat :=
  segment.table.count

/-- Are there no entries? -/
def isEmpty (segment : Segment) : Bool :=
  segment.table.count == 0

/-- The bytes of entry `i`. -/
def get (segment : Segment) (i : Nat) : Except Error Bytes := do
  let start ← segment.table.offset segment.blob i
  let stop ←
    -- The last entry is taken to go on to the end of the blob, whatever else is there.
    if i + 1 < segment.table.count then segment.table.offset segment.blob (i + 1)
    else .ok segment.blob.size
  if stop < start then .error (.corrupt (.entryBackwards i start stop))
  else segment.blob.slice start stop

/-- What entry `i` is sorted by. -/
def key (segment : Segment) (i : Nat) : Except Error Bytes :=
  segment.get i >>= untilNul

/-- Halves the entries between `low` and `high`, those before `low` being known
    to pass the test and those from `high` on to fail it. -/
def search (segment : Segment) (test : Bytes → Bool) (low high : Nat) : Except Error Nat :=
  if low < high then
    let middle := low + (high - low) / 2
    match segment.key middle with
    | .error e => .error e
    | .ok key =>
      if test key then segment.search test (middle + 1) high
      else segment.search test low middle
  else .ok low
termination_by high - low

/-- The first entry whose key fails a test that all keys before it pass. -/
def firstFailing (segment : Segment) (test : Bytes → Bool) : Except Error Nat :=
  segment.search test 0 segment.size

/-- The entries with this key, from the first up to the one after the last. -/
def rangeOf (segment : Segment) (key : Bytes) : Except Error (Nat × Nat) := do
  let start ← segment.firstFailing fun k => decide (k < key)
  let stop ← segment.firstFailing fun k => decide (k ≤ key)
  .ok (start, stop)

/-- The first entry with this key, if there is one. -/
def find (segment : Segment) (key : Bytes) : Except Error (Option Nat) := do
  let (start, stop) ← segment.rangeOf key
  .ok (if start < stop then some start else none)

/-- The entries whose key begins with `lead`. Only as many bytes of a key are
    looked at as `lead` has, which leaves the keys in order. -/
def leadRange (segment : Segment) (lead : Bytes) : Except Error (Nat × Nat) := do
  let start ← segment.firstFailing fun k => decide (k.take lead.length < lead)
  let stop ← segment.firstFailing fun k => decide (k.take lead.length ≤ lead)
  .ok (start, max start stop)

/-- Do the keys from entry `i` on ascend, where `count` more entries follow it? -/
def isSortedFrom (segment : Segment) (i : Nat) : (count : Nat) → Except Error Bool
  | 0 => .ok true
  | count + 1 => do
    let previous ← segment.key i
    let next ← segment.key (i + 1)
    if next < previous then .ok false else segment.isSortedFrom (i + 1) count

/-- Do the keys ascend? Equal keys may follow each other. -/
def isSorted (segment : Segment) : Except Error Bool :=
  segment.isSortedFrom 0 (segment.size - 1)

/-- An iteration from both ends: the entries from `front` up to `back` are left. -/
structure Ends where
  front : Nat
  back : Nat
deriving DecidableEq, Repr

/-- The iteration over all entries. -/
def ends (segment : Segment) : Ends :=
  ⟨0, segment.size⟩

/-- The number of entries left. -/
def Ends.remaining (ends : Ends) : Nat :=
  ends.back - ends.front

/-- Takes an entry from the front. -/
def takeFront (segment : Segment) (ends : Ends) : Option (Except Error Bytes) × Ends :=
  if ends.front < ends.back then
    (some (segment.get ends.front), { ends with front := ends.front + 1 })
  else (none, ends)

/-- Takes an entry from the back. -/
def takeBack (segment : Segment) (ends : Ends) : Option (Except Error Bytes) × Ends :=
  if ends.front < ends.back then
    (some (segment.get (ends.back - 1)), { ends with back := ends.back - 1 })
  else (none, ends)

/-- All entries in order, each as it can be read. -/
def entries (segment : Segment) : List (Except Error Bytes) :=
  (List.range segment.size).map segment.get

end Segment

end Concordance
