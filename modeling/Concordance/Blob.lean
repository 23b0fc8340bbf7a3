import Concordance.Error

/-!
# Blobs

The bytes of a whole file, read at any place.

Places in a blob are 64-bit numbers that come out of the blob itself, so none of
them can be trusted. Taking a slice outside the blob, or adding past 64 bits, is
a fault: the answer that no reader may ever give. Readers compare first and
report a corruption, and `slice` and `checked` make it visible should one not.

## Main definitions

* `Blob`: The bytes of a file.
* `Blob.window`: What there is of a stretch of bytes.
* `Blob.behind`: The same, from a place inside the blob.
* `Blob.slice`: Exactly a stretch of bytes.
* `checked`: A number of 64 bits.
-/

namespace Concordance

/-- The bytes of a whole file. -/
abbrev Blob := Array UInt8

/-- A sum or product of places that has to fit in 64 bits. -/
def checked (value : Nat) : Except Error Nat :=
  if value < UInt64.size then .ok value else .error .fault

namespace Blob

/-- What there is of `length` bytes from `start` on: fewer near the end. -/
def window (blob : Blob) (start length : Nat) : Bytes :=
  (blob.extract start (start + length)).toList

/-- What there is of `length` bytes from `start` on, which has to be a place of
    the blob or its end. -/
def behind (blob : Blob) (start length : Nat) : Except Error Bytes :=
  if start ≤ blob.size then .ok (blob.window start length) else .error .fault

/-- The bytes from `start` up to `stop`, which have to be there. -/
def slice (blob : Blob) (start stop : Nat) : Except Error Bytes :=
  if start ≤ stop ∧ stop ≤ blob.size then .ok (blob.extract start stop).toList
  else .error .fault

end Blob

end Concordance
