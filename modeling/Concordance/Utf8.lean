/-!
# UTF-8

Reading and writing the characters of a text as bytes.

Writing never fails. Reading looks at one character at a time: `next` either
takes a character off the front, or says how many bytes of the front can not
start any character. Two readers stand on it. `decode` refuses the first bad
sequence and reports how many good bytes came before it. `decodeLossy` puts one
replacement character in the place of every bad sequence and goes on.

The second byte of a long sequence carries the whole check against overlong
forms, surrogates and values past the last code point (`secondAllowed`), so a
sequence is cut off at the first byte that can not continue it and never later.

## Main definitions

* `bytes`: The bytes of a text.
* `next`: One step of reading.
* `decode`: Strict reading, with the place of the first error.
* `decodeLossy`: Reading that replaces what is not a character.

## Theorems

* `next_char_length`: A character that was read is gone from the rest.
* `next_invalid_length`: So is a bad sequence.
-/

namespace Concordance

/-- The contents of a file or of a part of one. -/
abbrev Bytes := List UInt8

namespace Utf8

/-- The bytes of a text. -/
def bytes (text : String) : Bytes :=
  text.toList.flatMap String.utf8EncodeChar

/-- Where a byte string stops being a text: how many good bytes come first, and
    how many bytes the bad sequence has. No length means that the bytes end
    inside a sequence that was good so far. -/
structure Fault where
  validUpTo : Nat
  length : Option Nat
deriving DecidableEq, Repr

/-- The wording of a fault. -/
def Fault.message (fault : Fault) : String :=
  match fault.length with
  | some n => s!"invalid utf-8 sequence of {n} bytes from index {fault.validUpTo}"
  | none => s!"incomplete utf-8 byte sequence from index {fault.validUpTo}"

/-- What the front of a byte string is. -/
inductive Step where
  /-- There are no bytes. -/
  | done
  /-- A character, `size` bytes long, and the bytes after it. -/
  | char (c : Char) (size : Nat) (rest : Bytes)
  /-- `size` bytes that start no character, and the bytes after them. -/
  | invalid (size : Nat) (rest : Bytes)
  /-- The bytes end inside a character. -/
  | incomplete
deriving DecidableEq, Repr

/-- A byte that continues a sequence. -/
def isContinuation (b : UInt8) : Bool :=
  0x80 ≤ b && b < 0xC0

/-- May `second` follow `first`, where `first` starts three or four bytes? The
    four narrowed cases exclude overlong forms, surrogates and values past
    U+10FFFF. -/
def secondAllowed (first second : UInt8) : Bool :=
  if first = 0xE0 then 0xA0 ≤ second && second < 0xC0
  else if first = 0xED then 0x80 ≤ second && second < 0xA0
  else if first = 0xF0 then 0x90 ≤ second && second < 0xC0
  else if first = 0xF4 then 0x80 ≤ second && second < 0x90
  else isContinuation second

/-- The six bits that a continuation byte carries. -/
def payload (b : UInt8) : Nat :=
  b.toNat % 64

/-- Looks at the front of a byte string. -/
def next : Bytes → Step
  | [] => .done
  | a :: r =>
    if a < 0x80 then .char (Char.ofNat a.toNat) 1 r
    -- Below 0xC2 it continues a sequence, or begins one of two bytes where one would do.
    else if a < 0xC2 then .invalid 1 r
    else if a < 0xE0 then
      match r with
      | [] => .incomplete
      | b :: r' =>
        if isContinuation b then .char (Char.ofNat (a.toNat % 32 * 64 + payload b)) 2 r'
        else .invalid 1 r
    else if a < 0xF0 then
      match r with
      | [] => .incomplete
      | b :: r' =>
        if !secondAllowed a b then .invalid 1 r
        else
          match r' with
          | [] => .incomplete
          | c :: r'' =>
            if isContinuation c then
              .char (Char.ofNat (a.toNat % 16 * 4096 + payload b * 64 + payload c)) 3 r''
            else .invalid 2 r'
    else if a < 0xF5 then
      match r with
      | [] => .incomplete
      | b :: r' =>
        if !secondAllowed a b then .invalid 1 r
        else
          match r' with
          | [] => .incomplete
          | c :: r'' =>
            if !isContinuation c then .invalid 2 r'
            else
              match r'' with
              | [] => .incomplete
              | d :: r''' =>
                if isContinuation d then
                  .char (Char.ofNat
                    (a.toNat % 8 * 262144 + payload b * 4096 + payload c * 64 + payload d)) 4 r'''
                else .invalid 3 r''
    else .invalid 1 r

/-- A character takes at least one byte. -/
theorem next_char_length {bs rest : Bytes} {c : Char} {size : Nat}
    (h : next bs = .char c size rest) : rest.length < bs.length := by
  unfold next at h
  repeat' split at h
  all_goals simp_all only [reduceCtorEq, Step.char.injEq, List.length_cons]
  all_goals omega

/-- A bad sequence takes at least one byte. -/
theorem next_invalid_length {bs rest : Bytes} {size : Nat}
    (h : next bs = .invalid size rest) : rest.length < bs.length := by
  unfold next at h
  repeat' split at h
  all_goals simp_all only [reduceCtorEq, Step.invalid.injEq, List.length_cons]
  all_goals omega

/-- Strict reading from `offset` bytes into the text. -/
def decodeFrom (offset : Nat) (bs : Bytes) : Except Fault (List Char) :=
  match h : next bs with
  | .done => .ok []
  | .char c size rest =>
    have := next_char_length h
    (decodeFrom (offset + size) rest).map (c :: ·)
  | .invalid size _ => .error ⟨offset, some size⟩
  | .incomplete => .error ⟨offset, none⟩
termination_by bs.length

/-- The text that the bytes spell, or where they stop spelling one. -/
def decode (bs : Bytes) : Except Fault String :=
  (decodeFrom 0 bs).map String.ofList

/-- The characters of the bytes, each bad sequence read as one U+FFFD. -/
def decodeLossyChars (bs : Bytes) : List Char :=
  match h : next bs with
  | .done => []
  | .char c _ rest =>
    have := next_char_length h
    c :: decodeLossyChars rest
  | .invalid _ rest =>
    have := next_invalid_length h
    '\uFFFD' :: decodeLossyChars rest
  | .incomplete => ['\uFFFD']
termination_by bs.length

/-- The text of the bytes, each bad sequence read as one replacement character. -/
def decodeLossy (bs : Bytes) : String :=
  String.ofList (decodeLossyChars bs)

end Utf8

end Concordance
