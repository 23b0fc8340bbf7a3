import Concordance.Proofs.Collect
import Concordance.Utf8

/-!
# Texts Are Read Back

The bytes of a text spell that text and no other.

A character is written in one of four forms, by the size of its code point, and
the reader tells the form from the first byte. What is left to see is that the
bytes of each form are among those that the reader lets pass. The second byte
decides this: it is restricted behind four first bytes, and a code point that is
no surrogate and below the last one meets all four restrictions.

The byte zero occurs in the bytes of a text only where the text has the character
zero. This is what allows a text to be closed by that byte.

## Theorems

* `next_one`, `next_two`, `next_three`, `next_four`: How a character is read.
* `next_utf8EncodeChar`: A character is read back.
* `decode_bytes`: A text is read back.
* `bytes_injective`: Texts with the same bytes are the same.
* `zero_mem_bytes`: The byte zero in a text is the character zero.
* `nul_notMem_of_decode`: There is no NUL in a text that was read without a zero.
-/

namespace Concordance

namespace Utf8

/-- A byte that was made from a number below 256, as that number. -/
theorem toNat_byte {n : Nat} (h : n < 256) : (UInt8.ofNat n).toNat = n := by
  rw [UInt8.toNat_ofNat']
  omega

/-- A byte from 0x80 up to 0xBF continues a sequence. -/
theorem isContinuation_of {b : UInt8} (hlow : 128 ≤ b.toNat) (hhigh : b.toNat < 192) :
    isContinuation b = true := by
  simp only [isContinuation, UInt8.le_iff_toNat_le, UInt8.lt_iff_toNat_lt, UInt8.reduceToNat,
    Bool.and_eq_true, decide_eq_true_eq]
  exact ⟨hlow, hhigh⟩

/-- The second byte passes if it continues a sequence and meets the restriction
    of the first byte, if that has one. -/
theorem secondAllowed_of {a b : UInt8} (hlow : 128 ≤ b.toNat) (hhigh : b.toNat < 192)
    (hE0 : a.toNat = 224 → 160 ≤ b.toNat) (hED : a.toNat = 237 → b.toNat < 160)
    (hF0 : a.toNat = 240 → 144 ≤ b.toNat) (hF4 : a.toNat = 244 → b.toNat < 144) :
    secondAllowed a b = true := by
  unfold secondAllowed
  simp only [← UInt8.toNat_inj, UInt8.le_iff_toNat_le, UInt8.lt_iff_toNat_lt, UInt8.reduceToNat]
  -- A restriction narrows the range at one end. Without one there is nothing more to show.
  repeat' split
  case isFalse.isFalse.isFalse.isFalse => exact isContinuation_of hlow hhigh
  all_goals
    simp only [Bool.and_eq_true, decide_eq_true_eq]
    omega

/-- A code point put together from its parts is the character that it was. -/
theorem ofNat_eq {c : Char} {n : Nat} (h : n = c.val.toNat) : Char.ofNat n = c := by
  rw [h]
  exact Char.ofNat_toNat c

section Next

variable {a b c d : UInt8} (rest : Bytes)

/-- A byte below 0x80 is a character. -/
theorem next_one (h : a.toNat < 128) : next (a :: rest) = .char (Char.ofNat a.toNat) 1 rest := by
  rw [next.eq_def]
  simp only [UInt8.lt_iff_toNat_lt, UInt8.reduceToNat]
  rw [if_pos h]

/-- From 0xC2 on there is one byte that continues it. -/
theorem next_two (hlow : 194 ≤ a.toNat) (hhigh : a.toNat < 224) (hb : isContinuation b = true) :
    next (a :: b :: rest) = .char (Char.ofNat (a.toNat % 32 * 64 + payload b)) 2 rest := by
  rw [next.eq_def]
  simp only [UInt8.lt_iff_toNat_lt, UInt8.reduceToNat]
  rw [if_neg (by omega), if_neg (by omega), if_pos hhigh, if_pos hb]

/-- From 0xE0 on there are two, and the first of them is restricted. -/
theorem next_three (hlow : 224 ≤ a.toNat) (hhigh : a.toNat < 240) (hb : secondAllowed a b = true)
    (hc : isContinuation c = true) : next (a :: b :: c :: rest)
      = .char (Char.ofNat (a.toNat % 16 * 4096 + payload b * 64 + payload c)) 3 rest := by
  rw [next.eq_def]
  simp only [UInt8.lt_iff_toNat_lt, UInt8.reduceToNat, hb, Bool.not_true]
  rw [if_neg (by omega), if_neg (by omega), if_neg (by omega), if_pos hhigh,
    if_neg Bool.false_ne_true, if_pos hc]

/-- And from 0xF0 on there are three. -/
theorem next_four (hlow : 240 ≤ a.toNat) (hhigh : a.toNat < 245) (hb : secondAllowed a b = true)
    (hc : isContinuation c = true) (hd : isContinuation d = true) :
    next (a :: b :: c :: d :: rest)
      = .char (Char.ofNat (a.toNat % 8 * 262144 + payload b * 4096 + payload c * 64 + payload d))
        4 rest := by
  rw [next.eq_def]
  simp only [UInt8.lt_iff_toNat_lt, UInt8.reduceToNat, hb, hc, Bool.not_true]
  rw [if_neg (by omega), if_neg (by omega), if_neg (by omega), if_neg (by omega), if_pos hhigh,
    if_neg Bool.false_ne_true, if_neg Bool.false_ne_true, if_pos hd]

end Next

/-- Six bits of a number, as a byte that continues a sequence. -/
theorem isContinuation_byte (n : Nat) : isContinuation (UInt8.ofNat (n % 64 + 128)) = true := by
  have hbyte : (UInt8.ofNat (n % 64 + 128)).toNat = n % 64 + 128 := toNat_byte (by omega)
  exact isContinuation_of (by omega) (by omega)

/-- They are what it carries. -/
theorem payload_byte (n : Nat) : payload (UInt8.ofNat (n % 64 + 128)) = n % 64 := by
  rw [payload, toNat_byte (by omega)]
  omega

/-- A character is read back, whatever comes behind it. -/
theorem next_utf8EncodeChar (c : Char) (rest : Bytes) :
    next (String.utf8EncodeChar c ++ rest)
      = .char c (String.utf8EncodeChar c).length rest := by
  have hvalid : c.val.toNat < 0xD800 ∨ (0xDFFF < c.val.toNat ∧ c.val.toNat < 0x110000) := c.valid
  unfold String.utf8EncodeChar
  simp only []
  by_cases h1 : c.val.toNat ≤ 127
  · have hfirst : (UInt8.ofNat c.val.toNat).toNat = c.val.toNat := toNat_byte (by omega)
    rw [if_pos h1, List.singleton_append, next_one _ (by omega), hfirst, ofNat_eq rfl,
      List.length_singleton]
  rw [if_neg h1]
  by_cases h2 : c.val.toNat ≤ 2047
  · have hfirst : (UInt8.ofNat (c.val.toNat / 64 % 32 + 192)).toNat = c.val.toNat / 64 % 32 + 192 :=
      toNat_byte (by omega)
    rw [if_pos h2, List.cons_append, List.singleton_append,
      next_two _ (by omega) (by omega) (isContinuation_byte _), hfirst, payload_byte,
      ofNat_eq (c := c) (by omega)]
    rfl
  rw [if_neg h2]
  by_cases h3 : c.val.toNat ≤ 65535
  · -- Three bytes: the second is restricted behind 0xE0 and behind 0xED.
    have hfirst : (UInt8.ofNat (c.val.toNat / 4096 % 16 + 224)).toNat
        = c.val.toNat / 4096 % 16 + 224 := toNat_byte (by omega)
    have hsecond : secondAllowed (UInt8.ofNat (c.val.toNat / 4096 % 16 + 224))
        (UInt8.ofNat (c.val.toNat / 64 % 64 + 128)) = true := by
      have hbyte : (UInt8.ofNat (c.val.toNat / 64 % 64 + 128)).toNat
          = c.val.toNat / 64 % 64 + 128 := toNat_byte (by omega)
      apply secondAllowed_of <;> omega
    rw [if_pos h3, List.cons_append, List.cons_append, List.singleton_append,
      next_three _ (by omega) (by omega) hsecond (isContinuation_byte _), hfirst, payload_byte,
      payload_byte, ofNat_eq (c := c) (by omega)]
    rfl
  · -- Four bytes: the second is restricted behind 0xF0 and behind 0xF4.
    have hfirst : (UInt8.ofNat (c.val.toNat / 262144 % 8 + 240)).toNat
        = c.val.toNat / 262144 % 8 + 240 := toNat_byte (by omega)
    have hsecond : secondAllowed (UInt8.ofNat (c.val.toNat / 262144 % 8 + 240))
        (UInt8.ofNat (c.val.toNat / 4096 % 64 + 128)) = true := by
      have hbyte : (UInt8.ofNat (c.val.toNat / 4096 % 64 + 128)).toNat
          = c.val.toNat / 4096 % 64 + 128 := toNat_byte (by omega)
      apply secondAllowed_of <;> omega
    rw [if_neg h3, List.cons_append, List.cons_append, List.cons_append, List.singleton_append,
      next_four _ (by omega) (by omega) hsecond (isContinuation_byte _) (isContinuation_byte _),
      hfirst, payload_byte, payload_byte, payload_byte, ofNat_eq (c := c) (by omega)]
    rfl

/-- Reading goes on behind the first character. -/
theorem decodeFrom_of_next {bs rest : Bytes} {c : Char} {size : Nat}
    (h : next bs = .char c size rest) (offset : Nat) :
    decodeFrom offset bs = (decodeFrom (offset + size) rest).map (c :: ·) := by
  rw [decodeFrom]
  split
  case h_2 c' size' rest' h' =>
    rw [h, Step.char.injEq] at h'
    rcases h' with ⟨rfl, rfl, rfl⟩
    rfl
  all_goals simp_all only [reduceCtorEq]

/-- The characters of a text are read back, wherever the text begins. -/
theorem decodeFrom_flatMap (cs : List Char) (offset : Nat) :
    decodeFrom offset (cs.flatMap String.utf8EncodeChar) = .ok cs := by
  induction cs generalizing offset with
  | nil =>
    rw [List.flatMap_nil, decodeFrom]
    rfl
  | cons c cs ih =>
    rw [List.flatMap_cons, decodeFrom_of_next (next_utf8EncodeChar c _), ih]
    rfl

/-- A text is read back. -/
theorem decode_bytes (text : String) : decode (bytes text) = .ok text := by
  rw [decode, bytes, decodeFrom_flatMap]
  exact congrArg Except.ok String.ofList_toList

/-- Texts with the same bytes are the same. -/
theorem bytes_injective {a b : String} (h : bytes a = bytes b) : a = b := by
  have hd := decode_bytes a
  rw [h, decode_bytes, Except.ok.injEq] at hd
  exact hd.symm

/-- The byte zero in a character is the character zero. -/
theorem zero_mem_utf8EncodeChar {c : Char} (h : (0 : UInt8) ∈ String.utf8EncodeChar c) :
    c = '\x00' := by
  have hzero : ∀ {n : Nat}, n < 256 → (0 : UInt8) = UInt8.ofNat n → n = 0 := by
    intro n hn hc
    have := congrArg UInt8.toNat hc
    rw [toNat_byte hn] at this
    exact this.symm
  unfold String.utf8EncodeChar at h
  simp only [] at h
  split at h
  · rw [List.mem_singleton] at h
    rw [← ofNat_eq (c := c) (hzero (by omega) h).symm]
  · -- In a longer form every byte has its high bit set.
    exfalso
    split at h
    · simp only [List.mem_cons, List.not_mem_nil, or_false] at h
      rcases h with h | h
      all_goals have := hzero (by omega) h; omega
    · split at h
      · simp only [List.mem_cons, List.not_mem_nil, or_false] at h
        rcases h with h | h | h
        all_goals have := hzero (by omega) h; omega
      · simp only [List.mem_cons, List.not_mem_nil, or_false] at h
        rcases h with h | h | h | h
        all_goals have := hzero (by omega) h; omega

/-- The byte zero in a text is the character zero. -/
theorem zero_mem_bytes {text : String} (h : (0 : UInt8) ∈ bytes text) :
    '\x00' ∈ text.toList := by
  rw [bytes, List.mem_flatMap] at h
  rcases h with ⟨c, hc, hz⟩
  rw [zero_mem_utf8EncodeChar hz] at hc
  exact hc

/-- A code point other than zero is the character of another than NUL. -/
theorem ofNat_ne_nul {n : Nat} (hvalid : n.isValidChar) (hpos : 0 < n) :
    Char.ofNat n ≠ '\x00' := by
  intro h
  rw [Char.ofNat, dif_pos hvalid] at h
  have hval : n = 0 := congrArg (fun c : Char => c.val.toNat) h
  omega

/-- What the second byte of three or four may be. -/
theorem bounds_of_secondAllowed {a b : UInt8} (h : secondAllowed a b = true) :
    (128 ≤ b.toNat ∧ b.toNat < 192) ∧ (a.toNat = 224 → 160 ≤ b.toNat)
      ∧ (a.toNat = 237 → b.toNat < 160) ∧ (a.toNat = 240 → 144 ≤ b.toNat)
      ∧ (a.toNat = 244 → b.toNat < 144) := by
  unfold secondAllowed isContinuation at h
  simp only [← UInt8.toNat_inj, UInt8.le_iff_toNat_le, UInt8.lt_iff_toNat_lt,
    UInt8.reduceToNat] at h
  repeat' split at h
  all_goals
    simp only [Bool.and_eq_true, decide_eq_true_eq] at h
    omega

/-- Bytes without a zero begin with no NUL, in whatever form it might be written. -/
theorem next_char_ne_nul {bs rest : Bytes} {c : Char} {size : Nat}
    (h : next bs = .char c size rest) (hzero : (0 : UInt8) ∉ bs) :
    c ≠ '\x00' ∧ (0 : UInt8) ∉ rest := by
  unfold next at h
  repeat' split at h
  all_goals simp only [reduceCtorEq, Step.char.injEq] at h
  all_goals
    rcases h with ⟨rfl, -, rfl⟩
    simp only [List.mem_cons, not_or, ← UInt8.toNat_inj, UInt8.reduceToNat] at hzero
  · -- The first byte of two has bits of its own. That of three or four may have none, and then the
    -- second byte is restricted to some that has.
    rename_i hone
    simp only [UInt8.lt_iff_toNat_lt, UInt8.reduceToNat] at hone
    refine ⟨ofNat_ne_nul ?_ ?_, hzero.2⟩ <;> omega
  · rename_i htwo hfirst hstop _ b _ hsecond
    simp only [UInt8.lt_iff_toNat_lt, UInt8.reduceToNat] at htwo hfirst hstop
    refine ⟨ofNat_ne_nul ?_ ?_, hzero.2.2⟩ <;> simp only [payload] <;> omega
  · rename_i hthree hstop _ _ hsecond _ _ _ _
    have hbounds := bounds_of_secondAllowed (by simpa using hsecond)
    simp only [UInt8.lt_iff_toNat_lt, UInt8.reduceToNat] at hthree hstop
    refine ⟨ofNat_ne_nul ?_ ?_, hzero.2.2.2⟩ <;> simp only [payload] <;> omega
  · rename_i hfour hstop _ _ hsecond _ _ _ _ _ _ _
    have hbounds := bounds_of_secondAllowed (by simpa using hsecond)
    simp only [UInt8.lt_iff_toNat_lt, UInt8.reduceToNat] at hfour hstop
    refine ⟨ofNat_ne_nul ?_ ?_, hzero.2.2.2.2⟩ <;> simp only [payload] <;> omega

/-- A text that was read from bytes without a zero has no NUL in it. -/
theorem nul_notMem_of_decode {bs : Bytes} {text : String} (h : decode bs = .ok text)
    (hzero : (0 : UInt8) ∉ bs) : '\x00' ∉ text.toList := by
  have hchars : ∀ {offset chars}, decodeFrom offset bs = .ok chars → '\x00' ∉ chars := by
    clear h
    intro offset chars h
    -- The first character takes some of the bytes, and the others are read from the rest of them.
    fun_induction decodeFrom offset bs generalizing chars with
    | case1 =>
      rcases Except.ok.inj h with rfl
      exact List.not_mem_nil
    | case2 offset bs c size rest hnext hlength ih =>
      obtain ⟨hc, hrest⟩ := next_char_ne_nul hnext hzero
      rcases exists_of_map h with ⟨cs, hdecode, rfl⟩
      rw [List.mem_cons, not_or]
      exact ⟨Ne.symm hc, ih hrest hdecode⟩
    | case3 | case4 => exact absurd h (by simp)
  rcases exists_of_map h with ⟨chars, hdecode, rfl⟩
  rw [String.toList_ofList]
  exact hchars hdecode

end Utf8

end Concordance
