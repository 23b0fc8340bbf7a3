import Concordance.Proofs.Reader.Steady
import Concordance.Proofs.Record

/-!
# Records Say Where They End

A record, a meta name or a plain string is told from its front, and from no part of it.

Each of them is a few fields one after the other. So reading it is steady because reading
the fields is, and what holds of any steady read holds here: a part that could be read would
be read in the same way from the whole, and leave what was cut off (`Reader.Steady.cut`).

## Main definitions

* `Delimited`: Bytes that say where they end.
* `Record.read`, `MetaName.read`: Reading without an end in view.

## Theorems

* `Reader.Steady.cut`: What was cut off is missed.
* `Reader.Steady.delimited`: What is read by a steady read says where it ends.
* `Record.delimited`, `MetaName.delimited`, `decodeText_delimited`: The three kinds of entries.
* `entries_delimited`: All of them.
-/

namespace Concordance

/-- Bytes that are read as a value whatever follows them, while no part of them is. -/
structure Delimited {α : Type} (decode : Bytes → Except Error α) (entry : Bytes) (a : α) :
    Prop where
  whole : ∀ behind, decode (entry ++ behind) = .ok a
  cut : ∀ part behind, entry = part ++ behind → behind ≠ [] →
    ∃ cause, decode part = .error (.corrupt cause)

/-- What was cut off is missed. -/
theorem Reader.Steady.cut {α : Type} {read : Reader → Except Error α × Reader} (h : Steady read)
    {part behind : Bytes} {a : α} {position : Nat}
    (hread : read ⟨part ++ behind, 0⟩ = (.ok a, ⟨[], position⟩)) (hbehind : behind ≠ []) :
    ∃ cause, (read ⟨part, 0⟩).1 = .error (.corrupt cause) := by
  rcases hpart : read ⟨part, 0⟩ with ⟨e | b, r⟩
  · rcases h.corrupt hpart with ⟨cause, rfl⟩
    exact ⟨cause, rfl⟩
  · -- The part would be read from the whole as well, and leave what is behind it.
    have hwhole := (h.followed hpart behind).symm.trans hread
    have hrest := congrArg (fun result => result.2.rest) hwhole
    exact absurd (List.append_eq_nil_iff.mp hrest).2 hbehind

/-- What a steady read takes as a whole says where it ends. -/
theorem Reader.Steady.delimited {α : Type} {read : Reader → Except Error α × Reader}
    (h : Steady read) {decode : Bytes → Except Error α}
    (hdecode : ∀ entry, decode entry = (read ⟨entry, 0⟩).1) {entry : Bytes} {a : α} {position : Nat}
    (hread : read ⟨entry, 0⟩ = (.ok a, ⟨[], position⟩)) : Delimited decode entry a where
  whole behind := by
    rw [hdecode]
    exact congrArg Prod.fst (h.followed hread behind)
  cut part behind hcut hbehind := by
    rw [hcut] at hread
    rw [hdecode]
    exact h.cut hread hbehind

/-- A plain string says where it ends. -/
theorem decodeText_delimited {text : String} (h : NulFree text) :
    Delimited decodeText (nulClosed text) text := by
  refine ⟨decodeText_nulClosed h, fun part behind hcut hbehind => ?_⟩
  have hread := Reader.text_nulClosed h [] 0
  rw [List.append_nil, hcut] at hread
  rcases Reader.steady_text.cut hread hbehind with ⟨cause, hcause⟩
  rcases hpart : Reader.text ⟨part, 0⟩ with ⟨e | word, r⟩
  · rw [hpart] at hcause
    rcases Except.error.inj hcause with rfl
    exact ⟨_, by rw [decodeText, hpart]⟩
  · rw [hpart] at hcause
    exact absurd hcause (by simp)

namespace MetaName

/-- Reads a meta name and its id. -/
def read : Reader → Except Error (String × UInt32) × Reader :=
  Reader.andThen Reader.text fun name => Reader.andThen Reader.u32 fun id r => (.ok (name, id), r)

theorem steady_read : Reader.Steady read :=
  Reader.steady_text.andThen fun _ => Reader.steady_u32.andThen fun _ =>
    Reader.steady_ok _

theorem decode_eq (entry : Bytes) : decode entry = (read ⟨entry, 0⟩).1 := by
  rw [decode, read, Reader.andThen]
  rcases Reader.text ⟨entry, 0⟩ with ⟨e | name, r⟩
  · rfl
  · simp only [Reader.andThen]
    rcases r.u32 with ⟨e | id, r'⟩ <;> rfl

theorem read_encode {name : String} (h : NulFree name) (id : UInt32) :
    ∃ position, read ⟨encode name id, 0⟩ = (.ok (name, id), ⟨[], position⟩) := by
  have hid := fun position => Reader.u32_encode id [] position
  simp only [List.append_nil] at hid
  rw [read, Reader.andThen, encode, Reader.text_nulClosed h]
  simp only [Reader.andThen, hid]
  exact ⟨_, rfl⟩

/-- A meta name with its id says where it ends. -/
theorem delimited {name : String} (h : NulFree name) (id : UInt32) :
    Delimited decode (encode name id) (name, id) :=
  have ⟨_, hread⟩ := read_encode h id
  steady_read.delimited decode_eq hread

end MetaName

namespace Record

/-- Reads a record. -/
def read : Reader → Except Error Record × Reader :=
  Reader.andThen Reader.u32 fun directory => Reader.andThen Reader.text fun name =>
    Reader.andThen Reader.varint fun size => Reader.andThen Reader.u32 fun words =>
      Reader.andThen Reader.text fun title r =>
        (.ok { directory, name, size := UInt64.ofNat size, words, title }, r)

theorem steady_read : Reader.Steady read :=
  Reader.steady_u32.andThen fun _ => Reader.steady_text.andThen fun _ =>
    Reader.steady_varint.andThen fun _ => Reader.steady_u32.andThen fun _ =>
      Reader.steady_text.andThen fun _ => Reader.steady_ok _

theorem decode_eq (entry : Bytes) : decode entry = (read ⟨entry, 0⟩).1 := by
  rw [decode, read, Reader.andThen]
  rcases Reader.u32 ⟨entry, 0⟩ with ⟨e | directory, r⟩
  · rfl
  simp only [Reader.andThen]
  rcases r.text with ⟨e | name, r⟩
  · rfl
  simp only []
  rcases r.varint with ⟨e | size, r⟩
  · rfl
  simp only []
  rcases r.u32 with ⟨e | words, r⟩
  · rfl
  simp only []
  rcases r.text with ⟨e | title, r⟩ <;> rfl

theorem read_encode {record : Record} (h : record.Closable) :
    ∃ position, read ⟨record.encode, 0⟩ = (.ok record, ⟨[], position⟩) := by
  have htitle := fun position => Reader.text_nulClosed h.title [] position
  simp only [List.append_nil] at htitle
  simp only [read, Reader.andThen, encode, List.append_assoc, Reader.u32_encode,
    Reader.text_nulClosed h.name, Reader.varint_encode record.size.toNat_lt, htitle,
    UInt64.ofNat_toNat]
  exact ⟨_, rfl⟩

/-- A record says where it ends. -/
theorem delimited {record : Record} (h : record.Closable) :
    Delimited decode record.encode record :=
  have ⟨_, hread⟩ := read_encode h
  steady_read.delimited decode_eq hread

end Record

/-- Records, meta names and plain strings say where they end. Each of them is read back whatever
    bytes follow it, and no part of one is read as anything. -/
theorem entries_delimited :
    (∀ record : Record, NulFree record.name → NulFree record.title →
        Delimited Record.decode record.encode record)
      ∧ (∀ (name : String) (id : UInt32), NulFree name →
        Delimited MetaName.decode (MetaName.encode name id) (name, id))
      ∧ ∀ text : String, NulFree text → Delimited decodeText (nulClosed text) text :=
  ⟨fun _ hname htitle => Record.delimited ⟨hname, htitle⟩,
    fun _ id hname => MetaName.delimited hname id,
    fun _ htext => decodeText_delimited htext⟩

/-- A record of a large file in a late directory takes two and ten bytes for these numbers, and
    neither of them is read from a part of it. -/
theorem entries_delimited_of_large :
    let record : Record := ⟨300, "cat.txt", 18446744073709551615, 7, "Cats"⟩
    NulFree record.name ∧ NulFree record.title ∧ NulFree "colour"
      ∧ Record.decode (record.encode ++ [0x80, 0x00]) = .ok record
      ∧ (∀ size < record.encode.length,
        ∃ cause, Record.decode (record.encode.take size) = .error (.corrupt cause))
      ∧ MetaName.decode (MetaName.encode "colour" 4294967295 ++ [0x01]) = .ok ("colour", 4294967295)
      ∧ decodeText (nulClosed "colour" ++ [0x63]) = .ok "colour" := by
  have hname : NulFree "cat.txt" := by decide
  have htitle : NulFree "Cats" := by decide
  have hcolour : NulFree "colour" := by decide
  rcases entries_delimited with ⟨hrecord, hmeta, htext⟩
  have hlarge := hrecord ⟨300, "cat.txt", 18446744073709551615, 7, "Cats"⟩ hname htitle
  refine ⟨hname, htitle, hcolour, hlarge.whole _, fun size hsize => ?_,
    (hmeta "colour" 4294967295 hcolour).whole _, (htext "colour" hcolour).whole _⟩
  exact hlarge.cut _ _ (List.take_append_drop size _).symm (by simpa using hsize)

end Concordance
