import Concordance.Reader

/-!
# Numbers Are Read Back

What is written as a variable-length number is read as that number, whatever
bytes come behind it.

The writer puts the high digits down first and the reader takes them in the same
order, so the value that the reader has after the high digits is the number
without its last digit. The two limits of the reader, on the bits and on the
bytes, are both met by a number of 64 bits: nine high digits are always enough.

No number begins with the byte that closes a list.

## Theorems

* `encodeLeading_length_le`: A number of 64 bits has at most nine high digits.
* `decodeFrom_encodeLeading`: The reader after the high digits.
* `decode_encode`: A number is read back.
* `encode_head`: A number does not begin with the byte that closes a list.
-/

namespace Concordance

namespace Varint

/-- A digit with more to come, as the number it stands for. -/
theorem toNat_digit (n : Nat) : (UInt8.ofNat (n % 128 + 128)).toNat = n % 128 + 128 := by
  rw [UInt8.toNat_ofNat']
  omega

/-- The last digit, as the number it stands for. -/
theorem toNat_lastDigit (n : Nat) : (UInt8.ofNat (n % 128)).toNat = n % 128 := by
  rw [UInt8.toNat_ofNat']
  omega

/-- One more digit is one more byte. -/
theorem encodeLeading_length_succ {n k : Nat} (h : (encodeLeading (n / 128)).length ≤ k) :
    (encodeLeading n).length ≤ k + 1 := by
  rw [encodeLeading]
  by_cases hn : n = 0
  · rw [if_pos hn]
    exact Nat.zero_le _
  · rw [if_neg hn, List.length_append, List.length_singleton]
    omega

/-- A number of 64 bits has at most nine digits before its last one. -/
theorem encodeLeading_length_le {n : Nat} (h : n < UInt64.size) :
    (encodeLeading (n / 128)).length ≤ 9 := by
  have hn : n / 128 / 128 / 128 / 128 / 128 / 128 / 128 / 128 / 128 / 128 = 0 := by
    have hs : UInt64.size = 18446744073709551616 := rfl
    omega
  iterate 9 apply encodeLeading_length_succ
  rw [hn, encodeLeading, if_pos rfl]
  exact Nat.le_refl _

/-- The reader after the high digits has the number that they stand for. -/
theorem decodeFrom_encodeLeading (n used left : Nat) (rest : Bytes) (h : n < UInt64.size)
    (hleft : (encodeLeading n).length ≤ left) :
    decodeFrom 0 used left (encodeLeading n ++ rest)
      = decodeFrom n (used + (encodeLeading n).length) (left - (encodeLeading n).length) rest := by
  fun_induction encodeLeading n generalizing rest with
  | case1 => rfl
  | case2 n hn ih =>
    rw [List.length_append, List.length_singleton] at hleft ⊢
    rw [List.append_assoc, ih _ (by omega) (by omega)]
    -- One byte of the allowance is left for the digit that follows.
    obtain ⟨m, hm⟩ : ∃ m, left - (encodeLeading (n / 128)).length = m + 1 :=
      ⟨left - (encodeLeading (n / 128)).length - 1, by omega⟩
    rw [hm, List.singleton_append, decodeFrom, if_neg (by omega)]
    simp only [toNat_digit]
    rw [if_neg (by rw [UInt8.lt_iff_toNat_lt, toNat_digit]; simp only [UInt8.reduceToNat]; omega)]
    congr 1
    · omega
    · omega

/-- Something is read from what is not empty. -/
theorem decode_of_ne_nil {bytes : Bytes} (h : bytes ≠ []) :
    decode bytes = decodeFrom 0 0 maxLength bytes := by
  cases bytes with
  | nil => exact absurd rfl h
  | cons b rest => rfl

/-- A number is read back, whatever comes behind it. -/
theorem decode_encode {n : Nat} (h : n < UInt64.size) (rest : Bytes) :
    decode (encode n ++ rest) = .ok (n, (encode n).length) := by
  have hlen := encodeLeading_length_le h
  rw [decode_of_ne_nil (by simp [encode]), encode, List.append_assoc,
    decodeFrom_encodeLeading _ _ _ _ (by omega) (by simp only [maxLength]; omega)]
  obtain ⟨m, hm⟩ : ∃ m, maxLength - (encodeLeading (n / 128)).length = m + 1 :=
    ⟨9 - (encodeLeading (n / 128)).length, by simp only [maxLength]; omega⟩
  rw [hm, List.singleton_append, decodeFrom, if_neg (by omega)]
  simp only [toNat_lastDigit]
  rw [if_pos (by rw [UInt8.lt_iff_toNat_lt, toNat_lastDigit]; simp only [UInt8.reduceToNat]; omega)]
  rw [List.length_append, List.length_singleton, Nat.zero_add]
  simp only [Except.ok.injEq, Prod.mk.injEq, and_true]
  omega

/-- The high digits do not begin with a zero. -/
theorem encodeLeading_head (n : Nat) : (encodeLeading n).head? ≠ some 0x80 := by
  fun_induction encodeLeading n with
  | case1 => simp
  | case2 n hn ih =>
    rw [List.head?_append]
    by_cases hd : n / 128 = 0
    · -- The number is a single digit, and not zero.
      rw [hd, encodeLeading, if_pos rfl]
      intro hc
      have hb := congrArg UInt8.toNat (Option.some.inj hc)
      rw [toNat_digit] at hb
      simp only [UInt8.reduceToNat] at hb
      omega
    · -- More digits are in front of the last one, and the first is the same.
      rcases hl : encodeLeading (n / 128) with _ | ⟨b, bs⟩
      · rw [encodeLeading, if_neg hd] at hl
        simp at hl
      · rw [hl] at ih
        exact ih

/-- A number does not begin with the byte that closes a list. -/
theorem encode_head (n : Nat) : ∃ b bs, encode n = b :: bs ∧ b ≠ 0x80 := by
  have hlead := encodeLeading_head (n / 128)
  rcases hl : encodeLeading (n / 128) with _ | ⟨b, bs⟩
  · refine ⟨UInt8.ofNat (n % 128), [], by rw [encode, hl, List.nil_append], ?_⟩
    intro hc
    have hb := congrArg UInt8.toNat hc
    rw [toNat_lastDigit] at hb
    simp only [UInt8.reduceToNat] at hb
    omega
  · refine ⟨b, bs ++ [UInt8.ofNat (n % 128)], by rw [encode, hl, List.cons_append], ?_⟩
    intro hc
    rw [hl, hc] at hlead
    exact hlead rfl

end Varint

end Concordance
