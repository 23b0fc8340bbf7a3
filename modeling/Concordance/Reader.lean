import Concordance.Varint

/-!
# Reading Bytes

A reader stands somewhere in a byte string and takes fields off the front of
what is left.

Every read answers with a field or an error, and with the reader as it stands
afterwards. A read that fails because the field is cut short leaves the reader
where it was. Two reads fail on a field that is there in full and only has the
wrong content, a number too large or bytes that are no text, and they leave the
reader behind that field; what comes next can still be read.

## Main definitions

* `Reader`: The bytes left, and how many came before them.
* `Reader.u8`, `varint`, `u32`, `terminated`, `text`, `u64`: The fields.

## Theorems

* `varint_length`: A number that was read is gone from what is left.
-/

namespace Concordance

/-- A place in a byte string. -/
structure Reader where
  rest : Bytes
  position : Nat := 0
deriving DecidableEq, Repr

/-- The number that eight bytes stand for, the lowest first. -/
def littleEndian : Bytes → Nat
  | [] => 0
  | b :: bs => b.toNat + 256 * littleEndian bs

/-- The low `width` bytes of a number, the lowest first. -/
def toLittleEndian : (width value : Nat) → Bytes
  | 0, _ => []
  | width + 1, value => UInt8.ofNat value :: toLittleEndian width (value / 256)

/-- The bytes before the first NUL. -/
def untilNul (bytes : Bytes) : Except Error Bytes :=
  if bytes.contains 0 then .ok (bytes.takeWhile fun b => b != 0)
  else .error (.corrupt .unterminated)

/-- The bytes of a text, closed by a NUL. -/
def nulClosed (text : String) : Bytes :=
  Utf8.bytes text ++ [0]

namespace Reader

/-- The reader some bytes further on. -/
def forward (r : Reader) (count : Nat) : Reader :=
  ⟨r.rest.drop count, r.position + count⟩

/-- Is nothing left? -/
def atEnd (r : Reader) : Bool :=
  r.rest.isEmpty

/-- The next byte, left in place. -/
def peek (r : Reader) : Except Error UInt8 :=
  match r.rest with
  | [] => .error (.corrupt (.endOfData r.position))
  | b :: _ => .ok b

/-- The next byte. -/
def u8 (r : Reader) : Except Error UInt8 × Reader :=
  match r.peek with
  | .error e => (.error e, r)
  | .ok b => (.ok b, r.forward 1)

/-- A variable-length number. -/
def varint (r : Reader) : Except Error Nat × Reader :=
  match Varint.decode r.rest with
  | .error e => (.error e, r)
  | .ok (value, used) => (.ok value, r.forward used)

/-- A variable-length number that has to fit in 32 bits. -/
def u32 (r : Reader) : Except Error UInt32 × Reader :=
  match r.varint with
  | (.error e, r') => (.error e, r')
  | (.ok value, r') =>
    if value < UInt32.size then (.ok (UInt32.ofNat value), r')
    else (.error (.corrupt (.exceedsU32 value)), r')

/-- The bytes up to a NUL; the NUL is taken too. -/
def terminated (r : Reader) : Except Error Bytes × Reader :=
  match untilNul r.rest with
  | .error e => (.error e, r)
  | .ok key => (.ok key, r.forward (key.length + 1))

/-- The text up to a NUL. -/
def text (r : Reader) : Except Error String × Reader :=
  match r.terminated with
  | (.error e, r') => (.error e, r')
  | (.ok raw, r') =>
    match Utf8.decode raw with
    | .ok word => (.ok word, r')
    | .error fault => (.error (.corrupt (.notText fault)), r')

/-- Eight bytes as a number. -/
def u64 (r : Reader) : Except Error Nat × Reader :=
  if (r.rest.take 8).length = 8 then (.ok (littleEndian (r.rest.take 8)), r.forward 8)
  else (.error (.corrupt (.truncatedOffset r.position)), r)

end Reader

namespace Varint

/-- A number takes at least one byte, and no more than there are. -/
theorem decodeFrom_used {value used left : Nat} {bytes : Bytes} {v n : Nat}
    (h : decodeFrom value used left bytes = .ok (v, n)) :
    used < n ∧ n ≤ used + bytes.length := by
  induction left generalizing value used bytes with
  | zero => simp only [decodeFrom, reduceCtorEq] at h
  | succ left ih =>
    cases bytes with
    | nil => simp only [decodeFrom, reduceCtorEq] at h
    | cons b rest =>
      simp only [decodeFrom] at h
      split at h
      · simp only [reduceCtorEq] at h
      · split at h
        · simp only [Except.ok.injEq, Prod.mk.injEq] at h
          simp only [List.length_cons]
          omega
        · have := ih h
          simp only [List.length_cons]
          omega

/-- A number at the front of some bytes takes at least one of them. -/
theorem decode_used {bytes : Bytes} {v n : Nat} (h : decode bytes = .ok (v, n)) :
    0 < n ∧ n ≤ bytes.length := by
  unfold decode at h
  split at h
  · simp only [reduceCtorEq] at h
  · have := decodeFrom_used h
    omega

end Varint

namespace Reader

/-- A number that was read is gone from what is left. -/
theorem varint_length {r r' : Reader} {v : Nat} (h : r.varint = (.ok v, r')) :
    r'.rest.length < r.rest.length := by
  unfold varint at h
  split at h
  · simp only [Prod.mk.injEq, reduceCtorEq, false_and] at h
  · rename_i value used hd
    have hu := Varint.decode_used hd
    simp only [Prod.mk.injEq] at h
    obtain ⟨-, rfl⟩ := h
    simp only [forward, List.length_drop]
    omega

/-- So is a number that fits in 32 bits. -/
theorem u32_length {r r' : Reader} {v : UInt32} (h : r.u32 = (.ok v, r')) :
    r'.rest.length < r.rest.length := by
  unfold u32 at h
  split at h
  · simp only [Prod.mk.injEq, reduceCtorEq, false_and] at h
  · rename_i value s hv
    split at h
    · simp only [Prod.mk.injEq] at h
      obtain ⟨-, rfl⟩ := h
      exact varint_length hv
    · simp only [Prod.mk.injEq, reduceCtorEq, false_and] at h

/-- And so is a byte. -/
theorem u8_length {r r' : Reader} {b : UInt8} (h : r.u8 = (.ok b, r')) :
    r'.rest.length < r.rest.length := by
  unfold u8 peek at h
  rcases hr : r.rest with _ | ⟨c, cs⟩
  · simp only [hr, Prod.mk.injEq, reduceCtorEq, false_and] at h
  · simp only [hr, Prod.mk.injEq] at h
    obtain ⟨-, rfl⟩ := h
    simp only [forward, hr, List.drop_succ_cons, List.drop_zero, List.length_cons]
    omega

end Reader

end Concordance
