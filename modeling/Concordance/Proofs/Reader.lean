import Concordance.Proofs.Utf8
import Concordance.Proofs.Varint

/-!
# Fields Are Read Back

A field that was written is read back by a reader that stands in front of it, and
the reader then stands behind it. What comes behind the field is never looked at.

A text is closed by a NUL, so only a text without one can be read back. This is
`NulFree`, and it is the one condition that the writers of an index put on the
words they are given.

## Main definitions

* `NulFree`: A text that a NUL can close.

## Theorems

* `varint_encode`, `u32_encode`, `text_nulClosed`, `u64_toLittleEndian`: The
  fields.
* `nulFree_of_text`: A text that was read can be closed again.
-/

namespace Concordance

/-- A text that a NUL can close. -/
def NulFree (text : String) : Prop :=
  '\x00' ∉ text.toList

instance (text : String) : Decidable (NulFree text) :=
  inferInstanceAs (Decidable ('\x00' ∉ text.toList))

/-- The bytes of such a text have no zero among them. -/
theorem NulFree.zero_notMem {text : String} (h : NulFree text) : (0 : UInt8) ∉ Utf8.bytes text :=
  fun hz => h (Utf8.zero_mem_bytes hz)

theorem nulClosed_ne_nil (text : String) : nulClosed text ≠ [] := by
  rw [nulClosed]
  exact List.append_ne_nil_of_right_ne_nil _ (List.cons_ne_nil _ _)

/-- The bytes before the first NUL, where that is the one which closes a text. -/
theorem untilNul_append {key : Bytes} (h : (0 : UInt8) ∉ key) (rest : Bytes) :
    untilNul (key ++ 0 :: rest) = .ok key := by
  have hmem : (key ++ 0 :: rest).contains (0 : UInt8) = true := by
    rw [List.contains_iff_mem]
    exact List.mem_append_right _ List.mem_cons_self
  rw [untilNul, if_pos hmem, List.takeWhile_append_of_pos, List.takeWhile_cons_of_neg,
    List.append_nil]
  · simp only [bne_self_eq_false, Bool.false_eq_true, not_false_eq_true]
  · intro b hb
    simp only [bne_iff_ne, ne_eq]
    rintro rfl
    exact h hb

/-- Bytes before a NUL have none among them. -/
theorem zero_notMem_of_untilNul {bytes key : Bytes} (h : untilNul bytes = .ok key) :
    (0 : UInt8) ∉ key := by
  rw [untilNul] at h
  split at h
  · rcases Except.ok.inj h with rfl
    intro hzero
    simpa using List.all_eq_true.mp List.all_takeWhile 0 hzero
  · exact absurd h (by simp)

namespace Reader

/-- A number is read back. -/
theorem varint_encode {n : Nat} (h : n < UInt64.size) (rest : Bytes) (position : Nat) :
    varint ⟨Varint.encode n ++ rest, position⟩
      = (.ok n, ⟨rest, position + (Varint.encode n).length⟩) := by
  simp only [varint, Varint.decode_encode h, forward, List.drop_left]

/-- So is a number of 32 bits. -/
theorem u32_encode (value : UInt32) (rest : Bytes) (position : Nat) :
    u32 ⟨Varint.encode value.toNat ++ rest, position⟩
      = (.ok value, ⟨rest, position + (Varint.encode value.toNat).length⟩) := by
  have hlt : value.toNat < UInt32.size := value.toNat_lt
  have h64 : value.toNat < UInt64.size := Nat.lt_trans hlt (by decide)
  rw [u32, varint_encode h64]
  simp only []
  rw [if_pos hlt, UInt32.ofNat_toNat]

/-- The next byte. -/
theorem u8_cons (b : UInt8) (rest : Bytes) (position : Nat) :
    u8 ⟨b :: rest, position⟩ = (.ok b, ⟨rest, position + 1⟩) :=
  rfl

/-- A text is read back, if a NUL can close it. -/
theorem text_nulClosed {text : String} (h : NulFree text) (rest : Bytes) (position : Nat) :
    Reader.text ⟨nulClosed text ++ rest, position⟩
      = (.ok text, ⟨rest, position + ((Utf8.bytes text).length + 1)⟩) := by
  have hkey : untilNul (nulClosed text ++ rest) = .ok (Utf8.bytes text) := by
    rw [nulClosed, List.append_assoc, List.singleton_append]
    exact untilNul_append h.zero_notMem rest
  have hdrop : (nulClosed text ++ rest).drop ((Utf8.bytes text).length + 1) = rest := by
    rw [show (Utf8.bytes text).length + 1 = (nulClosed text).length by simp [nulClosed]]
    exact List.drop_left
  simp only [Reader.text, terminated, hkey, Utf8.decode_bytes, forward, hdrop]

/-- A text that was read can be closed again. -/
theorem nulFree_of_text {r r' : Reader} {text : String} (h : r.text = (.ok text, r')) :
    NulFree text := by
  rw [Reader.text, terminated] at h
  rcases hkey : untilNul r.rest with e | key
  · simp only [hkey, Prod.mk.injEq, reduceCtorEq, false_and] at h
  · rcases hdecode : Utf8.decode key with fault | word
    · simp only [hkey, hdecode, Prod.mk.injEq, reduceCtorEq, false_and] at h
    · simp only [hkey, hdecode, Prod.mk.injEq, Except.ok.injEq] at h
      rw [← h.1]
      exact Utf8.nul_notMem_of_decode hdecode (zero_notMem_of_untilNul hkey)

end Reader

/-- Eight bytes are enough for a number of 64 bits. -/
theorem littleEndian_toLittleEndian {n : Nat} (h : n < UInt64.size) :
    littleEndian (toLittleEndian 8 n) = n := by
  have hs : UInt64.size = 18446744073709551616 := rfl
  simp only [toLittleEndian, littleEndian, UInt8.toNat_ofNat']
  omega

theorem toLittleEndian_length (width n : Nat) : (toLittleEndian width n).length = width := by
  induction width generalizing n with
  | zero => rfl
  | succ width ih => rw [toLittleEndian, List.length_cons, ih]

/-- Eight bytes are read back as the number that they were made from. -/
theorem Reader.u64_toLittleEndian {n : Nat} (h : n < UInt64.size) (rest : Bytes)
    (position : Nat) :
    Reader.u64 ⟨toLittleEndian 8 n ++ rest, position⟩ = (.ok n, ⟨rest, position + 8⟩) := by
  have htake : (toLittleEndian 8 n ++ rest).take 8 = toLittleEndian 8 n :=
    List.take_left' (toLittleEndian_length 8 n)
  have hdrop : (toLittleEndian 8 n ++ rest).drop 8 = rest :=
    List.drop_left' (toLittleEndian_length 8 n)
  rw [Reader.u64]
  simp only [htake, toLittleEndian_length, if_true, littleEndian_toLittleEndian h, forward, hdrop]

end Concordance
