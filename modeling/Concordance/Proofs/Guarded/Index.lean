import Concordance.Index
import Concordance.Proofs.Guarded.Segment

/-!
# Indexes With Every Step Guarded

Any bytes are opened and read without a fault.

An index is opened by looking at its tables and at nothing else, and whoever opened it may ask for
everything that the tables promise. The promise may be false: places lead anywhere, texts are
not closed, numbers do not end. `Unfailing` says that all of this comes to light as corruption,
and that what could be read is what the readers return that are not guarded.

The one thing asked of the bytes is that they are fewer than there are places. More do not fit in
the memory of a machine that counts places in 64 bits.

## Main definitions

* `Guarded.open?`, `Guarded.segment`: Opening an index, and taking a segment of it.
* `Guarded.decodeAt`: An entry, and what it stands for.
* `Guarded.Unfailing`: Nothing that is asked of an index is a fault.

## Theorems

* `Guarded.inside_of_open?`: What opening makes sure of.
* `Guarded.any_blob_unfailing`: Opening is no fault, and nothing is that is asked afterwards.
-/

namespace Concordance

namespace Guarded

/-- The five tables at the front of an index, each where the one before ends. -/
def tables (blob : Blob) : Except Error (Sections OffsetTable) := do
  let (words, next) ← table blob 0
  let (stopWords, next) ← table blob next
  let (directories, next) ← table blob next
  let (files, next) ← table blob next
  let (metaNames, _) ← table blob next
  .ok ⟨words, stopWords, directories, files, metaNames⟩

/-- Opens the bytes of an index. -/
def open? (blob : Blob) : Except Error Index :=
  (tables blob).map fun tables => ⟨blob, tables⟩

/-- The number of a segment. -/
def numberOf : SegmentName → Nat
  | .words => 0
  | .stopWords => 1
  | .directories => 2
  | .files => 3
  | .metaNames => 4

/-- One of the five segments, by its number. -/
def segment (index : Index) (kind : SegmentName) : Except Error Segment :=
  match index.tables.toList[numberOf kind]? with
  | some table => .ok ⟨index.blob, table⟩
  | none => .error .fault

/-- What entry `i` of a segment stands for. -/
def decodeAt {α : Type} (decode : Bytes → Except Error α) (index : Index) (kind : SegmentName)
    (i : Nat) : Except Error α := do
  let segment ← segment index kind
  let entry ← get segment i
  decode entry

/-- The path of a document: its directory, and its name behind it. -/
def pathOf (index : Index) (record : Record) : Except Error String :=
  (decodeAt plainText index .directories record.directory.toNat).map fun directory =>
    Path.join directory record.name

/-- The id of a meta name, if any document used it. -/
def nameId (index : Index) (name : String) : Except Error (Option UInt32) := do
  let names ← segment index .metaNames
  match ← find names (Utf8.bytes name) with
  | none => .ok none
  | some i =>
    let names ← segment index .metaNames
    let entry ← get names i
    let (_, id) ← front metaName entry
    .ok (some id)

/-- Whatever is asked of an index comes to a value or to corruption. No guard is hit on the way,
    and what it comes to is what the readers return that have none. -/
structure Unfailing (index : Index) : Prop where
  get : ∀ kind i, Safe (segment index kind >>= (get · i)) ((index.segment kind).get i)
  key : ∀ kind i, Safe (segment index kind >>= (key · i)) ((index.segment kind).key i)
  find : ∀ kind key, Safe (segment index kind >>= (find · key)) ((index.segment kind).find key)
  rangeOf : ∀ kind key,
    Safe (segment index kind >>= (rangeOf · key)) ((index.segment kind).rangeOf key)
  leadRange : ∀ kind lead,
    Safe (segment index kind >>= (leadRange · lead)) ((index.segment kind).leadRange lead)
  isSorted : ∀ kind, Safe (segment index kind >>= isSorted) (index.segment kind).isSorted
  /-- An iteration is told how many entries are left, and each entry it takes is a result. -/
  walk : ∀ kind sides,
    Safe (segment index kind >>= fun segment => walk segment segment.ends sides)
        (.ok ((index.segment kind).walk (index.segment kind).ends sides))
      ∧ ∀ step ∈ (index.segment kind).walk (index.segment kind).ends sides,
        ∀ entry, step.2 = some entry → Safe entry entry
  storedWord : ∀ i, Safe (decodeAt parse index .words i) (index.storedWord i)
  /-- Going through the postings of a word, each is a result. -/
  stream : ∀ i stored, index.storedWord i = .ok stored →
    List.Forall₂ Safe (stream ⟨stored.body, 0⟩) stored.stream
  postings : ∀ i, Safe (decodeAt parse index .words i >>= postings)
    (index.storedWord i >>= StoredWord.postings)
  document : ∀ id, Safe (decodeAt (front record) index .files id.toNat) (index.document id)
  directory : ∀ id, Safe (decodeAt plainText index .directories id.toNat) (index.directory id)
  pathOf : ∀ record, Safe (pathOf index record) (index.pathOf record)
  nameId : ∀ name, Safe (nameId index name) (index.nameId name)

/-- The tables are read without a fault, wherever the one before says that the next begins. -/
theorem safe_tables {blob : Blob} (hsize : blob.size < UInt64.size) :
    Safe (tables blob) (readTables blob) := by
  unfold tables readTables
  refine (safe_table hsize 0).bind fun ⟨words, next⟩ _ => ?_
  refine (safe_table hsize next).bind fun ⟨stopWords, next⟩ _ => ?_
  refine (safe_table hsize next).bind fun ⟨directories, next⟩ _ => ?_
  refine (safe_table hsize next).bind fun ⟨files, next⟩ _ => ?_
  exact (safe_table hsize next).bind fun ⟨metaNames, _⟩ _ => .value _

/-- Opening is no fault. -/
theorem safe_open? {blob : Blob} (hsize : blob.size < UInt64.size) :
    Safe (open? blob) (Index.open? blob) :=
  (safe_tables hsize).map _

/-- Every segment has a table. -/
theorem segment_eq (index : Index) (kind : SegmentName) :
    segment index kind = .ok (index.segment kind) := by
  cases kind <;> rfl

/-- What opening makes sure of. -/
theorem inside_of_open? {blob : Blob} (hsize : blob.size < UInt64.size) {index : Index}
    (h : Index.open? blob = .ok index) (kind : SegmentName) : Inside (index.segment kind) := by
  rcases exists_of_map h with ⟨tables, htables, rfl⟩
  exact ⟨hsize, readTables_inside htables kind⟩

section Opened

variable {index : Index} (hinside : ∀ kind, Inside (index.segment kind))
include hinside

/-- An entry is not larger than its blob. -/
theorem length_of_get {kind : SegmentName} {i : Nat} {entry : Bytes}
    (h : (index.segment kind).get i = .ok entry) : entry.length < UInt64.size :=
  Nat.lt_of_le_of_lt (Segment.length_of_get h) (hinside kind).size

/-- An entry is read and decoded without a fault, if its decoder has none. -/
theorem safe_decodeAt {α : Type} {decode decode' : Bytes → Except Error α}
    (hdecode : ∀ {entry : Bytes}, entry.length < UInt64.size → Safe (decode entry) (decode' entry))
    (kind : SegmentName) (i : Nat) :
    Safe (decodeAt decode index kind i) ((index.segment kind).get i >>= decode') := by
  unfold decodeAt
  rw [segment_eq]
  exact ((hinside kind).get i).bind fun entry hentry =>
    hdecode (length_of_get hinside hentry)

theorem safe_storedWord (i : Nat) : Safe (decodeAt parse index .words i) (index.storedWord i) :=
  safe_decodeAt hinside safe_parse .words i

/-- Behind a word there is no more than its entry. -/
theorem length_of_storedWord {i : Nat} {stored : StoredWord} (h : index.storedWord i = .ok stored) :
    stored.body.length < UInt64.size := by
  rcases exists_of_bind h with ⟨entry, hentry, hparse⟩
  have hlength := length_of_get hinside hentry
  exact Nat.lt_of_le_of_lt (length_of_parse hlength hparse) hlength

theorem safe_nameId (name : String) : Safe (nameId index name) (index.nameId name) := by
  unfold nameId Index.nameId
  rw [segment_eq]
  refine ((hinside .metaNames).find _).bind fun place _ => ?_
  rcases place with _ | i
  · exact .value none
  · exact ((hinside .metaNames).get i).bind fun entry hentry =>
      (safe_metaName (length_of_get hinside hentry)).bind fun _ _ => .value _

/-- Nothing that is asked of an index is a fault, if its tables are there. -/
theorem unfailing : Unfailing index where
  get kind i := by
    rw [segment_eq]
    exact (hinside kind).get i
  key kind i := by
    rw [segment_eq]
    exact (hinside kind).key i
  find kind key := by
    rw [segment_eq]
    exact (hinside kind).find key
  rangeOf kind key := by
    rw [segment_eq]
    exact (hinside kind).rangeOf key
  leadRange kind lead := by
    rw [segment_eq]
    exact (hinside kind).leadRange lead
  isSorted kind := by
    rw [segment_eq]
    exact (hinside kind).isSorted
  -- A walk begins with both ends of the table, which are in order.
  walk kind sides := by
    obtain ⟨hwalk, hentries⟩ := (hinside kind).walk (ordered_ends _) sides
    refine ⟨?_, hentries⟩
    rw [segment_eq]
    change Safe (walk (index.segment kind) _ sides) _
    rw [hwalk]
    exact .value _
  storedWord := safe_storedWord hinside
  stream i stored h := by
    have hstream := safe_stream (length_of_storedWord hinside h) (Nat.zero_le _)
    rwa [List.drop_zero] at hstream
  postings i := (safe_storedWord hinside i).bind fun stored h =>
    safe_postings (length_of_storedWord hinside h)
  document id := safe_decodeAt hinside safe_record .files id.toNat
  directory id := safe_decodeAt hinside safe_plainText .directories id.toNat
  pathOf record := (safe_decodeAt hinside safe_plainText .directories record.directory.toNat).map _
  nameId := safe_nameId hinside

end Opened

/-- Any bytes are opened, and read once they are open, without a fault. -/
theorem any_blob_unfailing {blob : Blob} (hsize : blob.size < UInt64.size) :
    Safe (open? blob) (Index.open? blob)
      ∧ ∀ index, Index.open? blob = .ok index → Unfailing index :=
  ⟨safe_open? hsize, fun _ hopen => unfailing (inside_of_open? hsize hopen)⟩

/-- An index in which most is wrong: the postings of its second word end in the middle of a
    number, and its stop word is said to be far behind its end. -/
theorem any_blob_unfailing_damaged :
    let blob : Blob := (toLittleEndian 8 2 ++ toLittleEndian 8 64 ++ toLittleEndian 8 66
      ++ toLittleEndian 8 1 ++ toLittleEndian 8 999 ++ List.replicate 24 0
      ++ [97, 0, 98, 0, 0x81]).toArray
    blob.size < UInt64.size ∧ Safe (open? blob) (Index.open? blob)
      ∧ ∃ index, Index.open? blob = .ok index ∧ Unfailing index
        ∧ index.storedWord 1 = .ok ⟨"b", [0x81]⟩
        ∧ (index.storedWord 1 >>= StoredWord.postings) = .error (.corrupt .incompleteVarint)
        ∧ (index.segment .stopWords).get 0 = .error (.corrupt (.entryOutside 0 999)) := by
  intro blob
  have hsize : blob.size < UInt64.size := by decide
  obtain ⟨hopens, hreads⟩ := any_blob_unfailing hsize
  let index : Index := ⟨blob, ⟨⟨2, 8⟩, ⟨1, 32⟩, ⟨0, 48⟩, ⟨0, 56⟩, ⟨0, 64⟩⟩⟩
  have htables : readTables blob = .ok index.tables := eq_ok_of_toOption (by decide +kernel)
  have hopen : Index.open? blob = .ok index := by
    rw [Index.open?, htables]
    rfl
  -- The last byte says that another one follows, and there is none.
  have hword : index.storedWord 1 = .ok ⟨"b", [0x81]⟩ := eq_ok_of_toOption (by decide +kernel)
  have hcut : Posting.decode ⟨[0x81], 0⟩ = (.error (.corrupt .incompleteVarint), ⟨[0x81], 0⟩) := rfl
  refine ⟨hsize, hopens, index, hopen, hreads index hopen, hword, ?_, by decide +kernel⟩
  rw [hword]
  exact congrArg collect (Posting.readAll_of_error hcut)

end Guarded

end Concordance
