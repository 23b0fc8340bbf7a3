import Concordance.Blob
import Concordance.Reader

/-!
# Offset Tables

Where the entries of a segment begin.

A table is the number of its entries and then the place of each, all in eight
bytes. These are the only numbers of fixed width in a file, and that is what
makes a table's size known before its content.

Reading a table checks that it lies inside the blob. Reading a place out of it
checks that the place does.

## Main definitions

* `OffsetTable`: A table inside a blob.
* `OffsetTable.parse`, `OffsetTable.encode`: The bytes of a table.
* `OffsetTable.offset`: The place of one entry.
-/

namespace Concordance

/-- A table inside a blob: how many entries, and where their places are. -/
structure OffsetTable where
  count : Nat
  /-- Where the place of the first entry is written. -/
  firstPlace : Nat
deriving DecidableEq, Repr

namespace OffsetTable

/-- The size of a table. -/
def byteLength (count : Nat) : Nat :=
  8 * (count + 1)

/-- The bytes of a table. -/
def encode (offsets : List Nat) : Bytes :=
  toLittleEndian 8 offsets.length ++ offsets.flatMap (toLittleEndian 8)

/-- Reads the table that begins at `start`, and says where it ends. -/
def parse (blob : Blob) (start : Nat) : Except Error (OffsetTable × Nat) :=
  match Reader.u64 ⟨blob.window start 8, 0⟩ with
  | (.error e, _) => .error e
  | (.ok count, _) =>
    match checked (start + 8) with
    | .error e => .error e
    | .ok firstPlace =>
      if UInt64.size ≤ 8 * count then .error (.corrupt (.tableOverflow count))
      else if firstPlace + 8 * count ≤ blob.size then
        .ok (⟨count, firstPlace⟩, firstPlace + 8 * count)
      else .error (.corrupt (.tableOutside count blob.size))

/-- The place of entry `i`, which has to lie inside the blob. -/
def offset (table : OffsetTable) (blob : Blob) (i : Nat) : Except Error Nat :=
  if table.count ≤ i then .error (.corrupt (.entryOutOfRange i table.count))
  else
    match checked (table.firstPlace + 8 * i) with
    | .error e => .error e
    | .ok place =>
      match blob.behind place 8 with
      | .error e => .error e
      | .ok field =>
        match Reader.u64 ⟨field, 0⟩ with
        | (.error e, _) => .error e
        | (.ok raw, _) =>
          if raw < blob.size then .ok raw else .error (.corrupt (.entryOutside i raw))

end OffsetTable

end Concordance
