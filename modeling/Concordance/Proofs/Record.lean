import Concordance.Proofs.Reader
import Concordance.Record

/-!
# Records Are Read Back

The entries of an index that are not words are read as they were written, whatever
comes behind them.

Nothing marks the end of an entry. The last one of a segment is followed by the
entries of the next segment, and so each of these decoders stops by itself, at the
last field that it reads.

## Main definitions

* `Record.Closable`: A record whose texts can be closed.

## Theorems

* `Record.decode_encode`, `MetaName.decode_encode`, `decodeText_nulClosed`: The
  three kinds of entries.
* `Record.closable_of_decode`, `MetaName.nulFree_of_decode`, `nulFree_of_decodeText`:
  What was read can be written again.
-/

namespace Concordance

/-- A record whose texts can be closed. -/
structure Record.Closable (record : Record) : Prop where
  name : NulFree record.name
  title : NulFree record.title

theorem Record.encode_ne_nil (record : Record) : record.encode ≠ [] :=
  List.append_ne_nil_of_right_ne_nil _ (nulClosed_ne_nil _)

theorem MetaName.encode_ne_nil (name : String) (id : UInt32) : encode name id ≠ [] :=
  List.append_ne_nil_of_left_ne_nil (nulClosed_ne_nil _) _

/-- A record is read back. -/
theorem Record.decode_encode {record : Record} (h : record.Closable) (rest : Bytes) :
    Record.decode (record.encode ++ rest) = .ok record := by
  have hsize : record.size.toNat < UInt64.size := record.size.toNat_lt
  simp only [Record.decode, Record.encode, List.append_assoc, Reader.u32_encode,
    Reader.text_nulClosed h.name, Reader.varint_encode hsize, Reader.text_nulClosed h.title,
    UInt64.ofNat_toNat]

/-- A meta name is read back with its id. -/
theorem MetaName.decode_encode {name : String} (h : NulFree name) (id : UInt32) (rest : Bytes) :
    MetaName.decode (MetaName.encode name id ++ rest) = .ok (name, id) := by
  simp only [MetaName.decode, MetaName.encode, List.append_assoc, Reader.text_nulClosed h,
    Reader.u32_encode]

/-- A plain string is read back. -/
theorem decodeText_nulClosed {text : String} (h : NulFree text) (rest : Bytes) :
    decodeText (nulClosed text ++ rest) = .ok text := by
  simp only [decodeText, Reader.text_nulClosed h]

/-- A plain string that was read can be closed again. -/
theorem nulFree_of_decodeText {entry : Bytes} {text : String} (h : decodeText entry = .ok text) :
    NulFree text := by
  rw [decodeText] at h
  split at h
  · rename_i word r hread
    rw [← Except.ok.inj h]
    exact Reader.nulFree_of_text hread
  · exact absurd h (by simp)
  · exact absurd h (by simp)

/-- So can a meta name. -/
theorem MetaName.nulFree_of_decode {entry : Bytes} {name : String × UInt32}
    (h : MetaName.decode entry = .ok name) : NulFree name.1 := by
  rw [MetaName.decode] at h
  rcases hname : Reader.text ⟨entry, 0⟩ with ⟨e | text, r⟩
  · simp only [hname, reduceCtorEq] at h
  rcases hid : r.u32 with ⟨e | id, r'⟩
  · simp only [hname, hid, reduceCtorEq] at h
  simp only [hname, hid, Except.ok.injEq] at h
  rw [← h]
  exact Reader.nulFree_of_text hname

/-- So can the texts of a record. -/
theorem Record.closable_of_decode {entry : Bytes} {record : Record}
    (h : Record.decode entry = .ok record) : record.Closable := by
  rw [Record.decode] at h
  rcases hdirectory : Reader.u32 ⟨entry, 0⟩ with ⟨e | directory, r⟩
  · simp only [hdirectory, reduceCtorEq] at h
  rcases hname : r.text with ⟨e | name, r₁⟩
  · simp only [hdirectory, hname, reduceCtorEq] at h
  rcases hsize : r₁.varint with ⟨e | size, r₂⟩
  · simp only [hdirectory, hname, hsize, reduceCtorEq] at h
  rcases hwords : r₂.u32 with ⟨e | words, r₃⟩
  · simp only [hdirectory, hname, hsize, hwords, reduceCtorEq] at h
  rcases htitle : r₃.text with ⟨e | title, r₄⟩
  · simp only [hdirectory, hname, hsize, hwords, htitle, reduceCtorEq] at h
  simp only [hdirectory, hname, hsize, hwords, htitle, Except.ok.injEq] at h
  rw [← h]
  exact ⟨Reader.nulFree_of_text hname, Reader.nulFree_of_text htitle⟩

end Concordance
