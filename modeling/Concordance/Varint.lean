import Concordance.Error

/-!
# Variable-Length Integers

Numbers below 2^64 in one to ten bytes.

A number is written in base 128, the highest digit first, and every byte but
the last has its high bit set. The writer never begins with a zero digit, so
the byte `0x80` can not begin a number. Whoever reads a list of numbers may
therefore use that byte to close the list.

The reader also takes numbers with leading zero digits, which no one writes, as
long as they stay within ten bytes.

## Main definitions

* `Varint.encode`: The bytes of a number.
* `Varint.length`: How many bytes that is, without writing them.
* `Varint.decode`: A number off the front of some bytes, and its length.
-/

namespace Concordance

namespace Varint

/-- The most bytes that a number takes. -/
def maxLength : Nat := 10

/-- The digits of a number with more to come, the highest first; none for zero. -/
def encodeLeading (value : Nat) : Bytes :=
  if value = 0 then []
  else encodeLeading (value / 128) ++ [UInt8.ofNat (value % 128 + 128)]
termination_by value
decreasing_by omega

/-- The bytes of a number. -/
def encode (value : Nat) : Bytes :=
  encodeLeading (value / 128) ++ [UInt8.ofNat (value % 128)]

/-- The number of bytes of a number: a byte for every seven bits, and one for
    zero. -/
def length (value : Nat) : Nat :=
  if value = 0 then 1 else (value.log2 + 7) / 7

/-- Reads on with at most `left` more bytes, `value` being what was read so far
    and `used` the number of bytes that it took. Shifting by another digit must
    not push bits out of 64, which shows before the digit is looked at. -/
def decodeFrom (value used : Nat) : (left : Nat) → Bytes → Except Error (Nat × Nat)
  | 0, _ => .error (.corrupt .varintTooLong)
  | _ + 1, [] => .error (.corrupt .incompleteVarint)
  | left + 1, b :: rest =>
    if UInt64.size ≤ value * 128 then .error (.corrupt .varintOverflow)
    else
      let value := value * 128 + b.toNat % 128
      if b < 0x80 then .ok (value, used + 1) else decodeFrom value (used + 1) left rest

/-- The number at the front of the bytes, and how many bytes it takes. -/
def decode (bytes : Bytes) : Except Error (Nat × Nat) :=
  match bytes with
  | [] => .error (.corrupt .emptyVarint)
  | _ :: _ => decodeFrom 0 0 maxLength bytes

end Varint

end Concordance
