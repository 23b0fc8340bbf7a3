import Concordance.Proofs.Varint
import Mathlib.Data.List.Induction
import Mathlib.Data.Nat.Digits.Defs

/-!
# What Is Read as a Number

Which bytes are read as a number, and as which one.

Bytes begin with a number if there are digits with more to come, then a last digit, ten at
the most in all, and if what they stand for is below 2^64. What digits stand for is the
business of positional notation, and `digitValue` says it without a word about how they are
read. The reader looks for numbers that are too large before each digit, and it looks at what
it has so far and not at what it will have. Both come to the same because a number only grows
on the way (`le_readOn`): if one digit more would be too many for what was read, then the
whole is too large, and if the last digit was not, then the whole is not.

Leading zero digits are read, so a number has more than one form. The writer takes the
shortest. Its length and the smallest power that is beyond a number are the same thing
(`length_encodeLeading_le_iff`, `length_le_iff`), which says that there is no shorter one.

## Main definitions

* `Varint.digitValue`: What bytes stand for in base 128.
* `Varint.Numeral`: Bytes begin with a number.

## Theorems

* `Varint.decodeFrom_eq_ok_iff`: What the reader takes for a number, from any point on.
* `Varint.decode_iff_numeral`: The same from the beginning.
* `Varint.encode_length`: The length of a number.
* `Varint.decode_exact`: What is read as a number, and the shortest form of one.
-/

namespace Concordance

namespace Varint

/-- What bytes stand for in base 128, the highest digit first. -/
def digitValue (bytes : Bytes) : Nat :=
  Nat.ofDigits 128 (bytes.map fun b => b.toNat % 128).reverse

/-- Bytes begin with a number: `used` of them are its digits, and all but the last of these say
    that more are to come. -/
def Numeral (bytes : Bytes) (value used : Nat) : Prop :=
  ∃ leading last behind, bytes = leading ++ last :: behind
    ∧ used = leading.length + 1 ∧ used ≤ maxLength
    ∧ (∀ b ∈ leading, 0x80 ≤ b) ∧ last < 0x80
    ∧ value = digitValue (leading ++ [last]) ∧ value < UInt64.size

/-- The value after more digits. -/
def readOn (value : Nat) (bytes : Bytes) : Nat :=
  bytes.foldl (fun value b => value * 128 + b.toNat % 128) value

theorem readOn_cons (value : Nat) (b : UInt8) (bytes : Bytes) :
    readOn value (b :: bytes) = readOn (value * 128 + b.toNat % 128) bytes :=
  rfl

/-- Another digit moves all others up. -/
theorem digitValue_concat (bytes : Bytes) (b : UInt8) :
    digitValue (bytes ++ [b]) = digitValue bytes * 128 + b.toNat % 128 := by
  rw [digitValue, List.map_append, List.reverse_append, List.map_singleton,
    List.reverse_singleton, List.singleton_append, Nat.ofDigits_cons, digitValue]
  omega

/-- Digits that are read from the left have the value that they stand for. -/
theorem readOn_zero (bytes : Bytes) : readOn 0 bytes = digitValue bytes := by
  induction bytes using List.reverseRecOn with
  | nil => rfl
  | append_singleton bytes b ih =>
    rw [readOn] at ih
    rw [readOn, List.foldl_append, ih, digitValue_concat]
    rfl

/-- A number only grows while it is read. -/
theorem le_readOn (value : Nat) (bytes : Bytes) : value ≤ readOn value bytes := by
  induction bytes generalizing value with
  | nil => exact Nat.le_refl _
  | cons b bytes ih =>
    rw [readOn_cons]
    exact Nat.le_trans (by omega) (ih _)

/-- What the reader takes for a number, with some of it read already. -/
theorem decodeFrom_eq_ok_iff {value used left v n : Nat} {bytes : Bytes} :
    decodeFrom value used left bytes = .ok (v, n)
      ↔ ∃ leading last behind, bytes = leading ++ last :: behind
        ∧ n = used + leading.length + 1 ∧ leading.length < left
        ∧ (∀ b ∈ leading, 0x80 ≤ b) ∧ last < 0x80
        ∧ v = readOn value (leading ++ [last]) ∧ v < UInt64.size := by
  induction left generalizing value used bytes with
  | zero => simp [decodeFrom]
  | succ left ih =>
    rcases bytes with _ | ⟨b, rest⟩
    · simp [decodeFrom]
    rw [decodeFrom]
    by_cases hlarge : UInt64.size ≤ value * 128
    · -- The value is too large with any digit, and digits behind it do not make it less.
      rw [if_pos hlarge]
      refine iff_of_false (by simp) ?_
      rintro ⟨leading, last, behind, hbytes, -, -, -, -, hv, hfits⟩
      obtain ⟨digit, digits, hcons⟩ := List.exists_cons_of_ne_nil
        (List.append_ne_nil_of_right_ne_nil leading (List.cons_ne_nil last []))
      rw [hcons, readOn_cons] at hv
      have hle := le_readOn (value * 128 + digit.toNat % 128) digits
      omega
    · rw [if_neg hlarge]
      -- The largest number is one less than a multiple of the base, so that any digit fits.
      have hdigit : value * 128 + b.toNat % 128 < UInt64.size := by
        have hsize : UInt64.size = 128 * 144115188075855872 := rfl
        omega
      by_cases hlast : b < 0x80
      · -- This is the last digit.
        simp only [if_pos hlast, Except.ok.injEq, Prod.mk.injEq]
        constructor
        · rintro ⟨rfl, rfl⟩
          exact ⟨[], b, rest, rfl, rfl, Nat.succ_pos _, by simp, hlast, rfl, hdigit⟩
        · rintro ⟨leading, last, behind, hbytes, hn, -, hleading, -, hv, -⟩
          rcases leading with _ | ⟨first, leading⟩
          · obtain ⟨rfl, rfl⟩ := List.cons.inj hbytes
            exact ⟨hv.symm, hn.symm⟩
          · obtain ⟨rfl, -⟩ := List.cons.inj hbytes
            exact absurd hlast (UInt8.not_lt.mpr (hleading b List.mem_cons_self))
      · -- More are to come, and the rest is read in the same way.
        simp only [if_neg hlast, ih]
        constructor
        · rintro ⟨leading, last, behind, rfl, rfl, hleft, hleading, hend, hv, hfits⟩
          refine ⟨b :: leading, last, behind, rfl, ?_, ?_, ?_, hend, hv, hfits⟩
          · rw [List.length_cons]
            omega
          · rw [List.length_cons]
            omega
          · exact List.forall_mem_cons.mpr ⟨UInt8.not_lt.mp hlast, hleading⟩
        · rintro ⟨leading, last, behind, hbytes, hn, hleft, hleading, hend, hv, hfits⟩
          rcases leading with _ | ⟨first, leading⟩
          · obtain ⟨rfl, rfl⟩ := List.cons.inj hbytes
            exact absurd hend hlast
          · obtain ⟨rfl, rfl⟩ := List.cons.inj hbytes
            rw [List.length_cons] at hn hleft
            exact ⟨leading, last, behind, rfl, by omega, by omega,
              (List.forall_mem_cons.mp hleading).2, hend, hv, hfits⟩

/-- What is read as a number. -/
theorem decode_iff_numeral {bytes : Bytes} {value used : Nat} :
    decode bytes = .ok (value, used) ↔ Numeral bytes value used := by
  rcases bytes with _ | ⟨b, rest⟩
  · simp [decode, Numeral]
  rw [decode, decodeFrom_eq_ok_iff, Numeral]
  refine exists_congr fun leading => exists_congr fun last => exists_congr fun behind => ?_
  rw [readOn_zero, Nat.zero_add]
  constructor
  · rintro ⟨hbytes, hused, hleft, hrest⟩
    exact ⟨hbytes, hused, by omega, hrest⟩
  · rintro ⟨hbytes, hused, hleft, hrest⟩
    exact ⟨hbytes, hused, by omega, hrest⟩

/-- The high digits of a number are few if the number is below a power of the base. -/
theorem length_encodeLeading_le_iff (n k : Nat) : (encodeLeading n).length ≤ k ↔ n < 128 ^ k := by
  induction k generalizing n with
  | zero =>
    rw [encodeLeading]
    split <;> simp_all
  | succ k ih =>
    rw [encodeLeading, Nat.pow_succ]
    split
    · have hpos : 0 < 128 ^ k := Nat.pow_pos (by decide)
      simp only [List.length_nil]
      omega
    · rw [List.length_append, List.length_singleton, Nat.succ_le_succ_iff, ih,
        Nat.div_lt_iff_lt_mul (by decide)]

/-- So it is with all of its digits. -/
theorem length_encode_le_iff (n k : Nat) : (encode n).length ≤ k + 1 ↔ n < 128 ^ (k + 1) := by
  rw [encode, List.length_append, List.length_singleton, Nat.succ_le_succ_iff,
    length_encodeLeading_le_iff, Nat.div_lt_iff_lt_mul (by decide), Nat.pow_succ]

/-- And with the length that is computed without writing them. -/
theorem length_le_iff (n k : Nat) : length n ≤ k + 1 ↔ n < 128 ^ (k + 1) := by
  have hpow : 128 ^ (k + 1) = 2 ^ (7 * (k + 1)) := by
    rw [Nat.pow_mul]
  rw [length, hpow]
  split
  · rename_i hzero
    rw [hzero]
    exact iff_of_true (Nat.le_add_left 1 k) (Nat.pow_pos (by decide))
  · rename_i hne
    rw [← Nat.log2_lt hne]
    omega

/-- The length of a number is computed right. -/
theorem encode_length (n : Nat) : (encode n).length = length n := by
  have hpos : 1 ≤ (encode n).length := by
    rw [encode, List.length_append]
    exact Nat.le_add_left _ _
  have hpos' : 1 ≤ length n := by
    rw [length]
    split <;> omega
  -- Neither can be more than the other, since they are bounded alike.
  obtain ⟨k, hk⟩ := Nat.exists_eq_add_of_le' hpos
  obtain ⟨k', hk'⟩ := Nat.exists_eq_add_of_le' hpos'
  refine Nat.le_antisymm ?_ ?_
  · rw [hk', length_encode_le_iff, ← length_le_iff, hk']
  · rw [hk, length_le_iff, ← length_encode_le_iff, hk]

/-- A number is less than the power of the base that has as many zeros as it has digits. -/
theorem digitValue_lt (bytes : Bytes) : digitValue bytes < 128 ^ bytes.length := by
  have hdigits : ∀ d ∈ (bytes.map fun b => b.toNat % 128).reverse, d < 128 := by
    intro d hd
    rcases List.mem_map.mp (List.mem_reverse.mp hd) with ⟨b, -, rfl⟩
    exact Nat.mod_lt _ (by decide)
  have hlt := Nat.ofDigits_lt_base_pow_length (by decide : 1 < 128) hdigits
  rwa [List.length_reverse, List.length_map] at hlt

/-- No form of a number is shorter than the length that is computed. -/
theorem length_le_of_numeral {bytes : Bytes} {value used : Nat} (h : Numeral bytes value used) :
    length value ≤ used := by
  rcases h with ⟨leading, last, behind, -, rfl, -, -, -, rfl, -⟩
  rw [length_le_iff]
  have hlt := digitValue_lt (leading ++ [last])
  rwa [List.length_append, List.length_singleton] at hlt

/-- Bytes are read as a number just if they begin with one, and a number that was written is
    read whatever is behind it. Its bytes do not begin with a zero digit, and no others that are
    read as this number are fewer. -/
theorem decode_exact :
    (∀ (bytes : Bytes) (value used : Nat),
      decode bytes = .ok (value, used) ↔ Numeral bytes value used)
    ∧ ∀ value : UInt64,
      (∀ behind, decode (encode value.toNat ++ behind) = .ok (value.toNat, length value.toNat))
      ∧ (encode value.toNat).head? ≠ some 0x80
      ∧ ∀ bytes used, decode bytes = .ok (value.toNat, used) → length value.toNat ≤ used := by
  refine ⟨fun bytes value used => decode_iff_numeral, fun value => ⟨fun behind => ?_, ?_, ?_⟩⟩
  · rw [decode_encode value.toNat_lt, encode_length]
  · rcases encode_head value.toNat with ⟨b, bs, hencode, hne⟩
    rw [hencode]
    exact fun hhead => hne (Option.some.inj hhead)
  · exact fun bytes used h => length_le_of_numeral (decode_iff_numeral.mp h)

/-- A number with a zero digit in front of it, and a byte behind it. -/
theorem decode_exact_of_padded :
    Numeral [0x80, 0x82, 0x2C, 0x07] 300 3 ∧ decode [0x80, 0x82, 0x2C, 0x07] = .ok (300, 3)
      ∧ length 300 ≤ 3 := by
  have hleading : ∀ b ∈ [(0x80 : UInt8), 0x82], 0x80 ≤ b :=
    List.forall_mem_cons.mpr ⟨by decide, List.forall_mem_singleton.mpr (by decide)⟩
  have hnumeral : Numeral [0x80, 0x82, 0x2C, 0x07] 300 3 :=
    ⟨[0x80, 0x82], 0x2C, [0x07], rfl, rfl, by decide, hleading, by decide, by decide, by decide⟩
  have hdecode := (decode_exact.1 _ _ _).mpr hnumeral
  exact ⟨hnumeral, hdecode, (decode_exact.2 300).2.2 _ _ hdecode⟩

end Varint

end Concordance
