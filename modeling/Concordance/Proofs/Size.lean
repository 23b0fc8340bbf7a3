import Concordance.Proofs.Volume

/-!
# How Large an Index Is

An index is no larger than its entries ask for.

Places in an index have 64 bits, so it has to be known of an index that its size has no
more. The size depends on the ranks of postings, since a small number takes fewer bytes,
but a bound on it need not: any number of 64 bits takes ten bytes at most. So how large an
index can get is told by its words, positions and texts alone, before anything is ranked.

## Main definitions

* `Posting.sizeBound`, `Volume.sizeBound`: More bytes than it ever takes.

## Theorems

* `Posting.length_encode_le`: The bytes of a posting.
* `Volume.length_bytes_le`, `Volume.length_bytes_lt`: The bytes of an index.
-/

namespace Concordance

/-- A number of 64 bits takes ten bytes at most. -/
theorem Varint.length_encode_le {n : Nat} (h : n < UInt64.size) : (encode n).length ≤ 10 := by
  have hleading := encodeLeading_length_le h
  rw [encode, List.length_append, List.length_singleton]
  omega

theorem Varint.length_encode_toNat_le (n : UInt32) : (encode n.toNat).length ≤ 10 :=
  length_encode_le (Nat.lt_trans n.toNat_lt (by decide))

namespace Posting

/-- More bytes than a posting takes. -/
def sizeBound (posting : Posting) : Nat :=
  35 + 10 * (posting.metaIds.length + posting.positions.length)

theorem length_encodeList_le (marker : UInt8) (values : List UInt32) :
    (encodeList marker values).length ≤ 2 + 10 * values.length := by
  have hvalues : (values.flatMap fun value => Varint.encode value.toNat).length
      ≤ 10 * values.length := by
    induction values with
    | nil => exact Nat.le_refl _
    | cons value values ih =>
      have hvalue := Varint.length_encode_toNat_le value
      rw [List.flatMap_cons, List.length_append, List.length_cons]
      omega
  rw [encodeList]
  split
  · exact Nat.zero_le _
  · rw [List.length_append, List.length_cons, List.length_singleton]
    omega

theorem length_distances (previous : UInt32) (positions : List UInt32) :
    (distances previous positions).length = positions.length := by
  induction positions generalizing previous with
  | nil => rfl
  | cons position positions ih => rw [distances, List.length_cons, ih, List.length_cons]

theorem length_encode_le (posting : Posting) (last : Bool) :
    (posting.encode last).length ≤ posting.sizeBound := by
  have hdocument := Varint.length_encode_toNat_le posting.document
  have hoccurrences := Varint.length_encode_toNat_le posting.occurrences
  have hrank := Varint.length_encode_toNat_le posting.rank
  have hnames := length_encodeList_le Marker.metaIds posting.metaIds
  have hpositions := length_encodeList_le Marker.positions (distances 0 posting.positions)
  rw [length_distances] at hpositions
  rw [Posting.encode, sizeBound]
  simp only [List.length_append, List.length_singleton]
  omega

end Posting

/-- The postings of a word take as many bytes as they do one by one. -/
theorem StoredWord.length_encodePostings_le (postings : List Posting) :
    (encodePostings postings).length ≤ total Posting.sizeBound postings := by
  fun_induction encodePostings postings with
  | case1 => exact Nat.le_refl _
  | case2 posting => exact posting.length_encode_le true
  | case3 posting next rest ih =>
    have hfirst := posting.length_encode_le false
    rw [List.length_append, total_cons]
    omega

/-- The entries of a segment, and the places for them. -/
def Sections.size (entries : List Bytes) : Nat :=
  8 + total (fun entry => 8 + entry.length) entries

theorem length_indexBytes (sections : Sections (List Bytes)) :
    (indexBytes sections).length = total Sections.size sections.toList := by
  -- A segment is its table and its entries, which stand apart in the file.
  have hsize : ∀ entries : List Bytes, Sections.size entries
      = OffsetTable.byteLength entries.length + entries.flatten.length := by
    intro entries
    rw [Sections.size, OffsetTable.byteLength]
    induction entries with
    | nil => rfl
    | cons entry entries ih =>
      rw [total_cons, List.length_cons, List.flatten_cons, List.length_append]
      omega
  simp only [indexBytes, List.length_append, Sections.header_length, Sections.tablesLength,
    Sections.toList, total_cons, total_nil, hsize, List.flatten_cons, List.flatten_nil,
    List.flatten_append, List.length_nil]
  omega

namespace Volume

/-- More bytes than a word takes, with the place of its entry. -/
def wordBound (e : Bytes × List Posting) : Nat :=
  9 + e.1.length + total Posting.sizeBound e.2

/-- More bytes than an index takes. -/
def sizeBound (volume : Volume) : Nat :=
  8 + total wordBound volume.words + total Sections.size [volume.sections.stopWords,
    volume.sections.directories, volume.sections.files, volume.sections.metaNames]

/-- An index is no larger than its entries ask for. -/
theorem length_bytes_le (volume : Volume) : volume.bytes.length ≤ volume.sizeBound := by
  -- Only the entries of words are not as long as they look.
  have hwords : total (fun entry => 8 + entry.length) volume.words.entries
      ≤ total wordBound volume.words := by
    rw [WordMap.entries]
    induction volume.words with
    | nil => exact Nat.le_refl _
    | cons e words ih =>
      have hpostings := StoredWord.length_encodePostings_le e.2
      rw [List.map_cons, total_cons, total_cons, List.length_append, List.length_cons, wordBound]
      omega
  rw [bytes, length_indexBytes, sizeBound, Sections.toList, total_cons, Sections.size]
  show 8 + total _ volume.words.entries + _ ≤ _
  omega

/-- So it can be seen before it is ranked that an index is small enough. -/
theorem length_bytes_lt {volume : Volume} (h : volume.sizeBound < UInt64.size) :
    volume.bytes.length < UInt64.size :=
  Nat.lt_of_le_of_lt volume.length_bytes_le h

end Volume

end Concordance
