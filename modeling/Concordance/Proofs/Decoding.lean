import Concordance.Proofs.Layout.Cut
import Concordance.Proofs.Merge
import Concordance.Proofs.Volume

/-!
# The Words of an Index

All words of an index with their postings, once every entry has been decoded.

Nothing that runs decodes a whole index. It is what lookups and queries are compared
with, because it is a list of values, and has no bytes, no places and no errors in it. If
an index decodes at all, a single entry decodes to the element of this list at its place.
If it does not, the same may still be so of each entry that can be read.

## Main definitions

* `Index.decodeWord`, `Index.decodeWords`: One word of an index, and all of them.
* `Index.Reads`: The words of an index, as far as it can be read.

## Theorems

* `Index.decodeWords_of_holds`: The words of an index are those of the map that it holds.
* `Index.decodeWord_of_decodeWords`: Every word can be had by itself.
-/

namespace Concordance

namespace StoredWord

/-- A stored word with its postings. -/
def decode (stored : StoredWord) : Except Error WordPostings :=
  stored.postings.map fun postings => ⟨stored.word, postings⟩

theorem decode_eq_ok_iff {stored : StoredWord} {entry : WordPostings} :
    stored.decode = .ok entry
      ↔ stored.word = entry.word ∧ stored.postings = .ok entry.postings := by
  rcases entry with ⟨word, postings⟩
  rw [decode]
  rcases stored.postings with e | postings'
  · simp [Except.map]
  · simp [Except.map]

/-- Stored words decode to the map that they were stored as. -/
theorem collect_decode {stored : List StoredWord} {words : WordMap} (h : StoredAs stored words) :
    ∃ decoded, collect (stored.map decode) = .ok decoded ∧ WordPostings.table decoded = words := by
  induction stored generalizing words with
  | nil =>
    rw [StoredAs.nil_iff.mp h]
    exact ⟨[], rfl, rfl⟩
  | cons first stored ih =>
    rcases StoredAs.cons_iff.mp h with ⟨postings, rest, rfl, hstream, hrest⟩
    rcases ih hrest with ⟨decoded, hdecoded, rfl⟩
    have hfirst : first.decode = .ok ⟨first.word, postings⟩ := by
      rw [decode, StoredWord.postings, hstream, collect_map_ok]
      rfl
    refine ⟨⟨first.word, postings⟩ :: decoded, ?_, rfl⟩
    rw [List.map_cons, hfirst, collect, hdecoded]
    rfl

end StoredWord

namespace Segment

variable {segment : Segment} {α : Type} {decode : Bytes → Except Error α} {as : List α}

/-- If all entries can be read, one thing is read for each of them. -/
theorem length_of_collect_entries (h : collect (segment.entries.map (· >>= decode)) = .ok as) :
    as.length = segment.size := by
  rw [entries, List.map_map] at h
  exact (exists_of_collect h).1.trans List.length_range

/-- Each of them can be read by itself. -/
theorem get_of_collect_entries (h : collect (segment.entries.map (· >>= decode)) = .ok as) {i : Nat}
    (hi : i < as.length) : segment.get i >>= decode = .ok as[i] := by
  have hlt : i < segment.size := length_of_collect_entries h ▸ hi
  have hget := congrArg (·[i]?) (collect_eq_ok h)
  simp only [entries, List.getElem?_map, List.getElem?_range hlt, List.getElem?_eq_getElem hi,
    Option.map_some, Option.some.injEq] at hget
  exact hget

/-- What is read is read from one of the entries. -/
theorem exists_of_collect_entries (h : collect (segment.entries.map (· >>= decode)) = .ok as) :
    ∀ a ∈ as, ∃ entry, decode entry = .ok a := by
  intro a ha
  rcases (exists_of_collect h).2 a ha with ⟨read, -, hread⟩
  rcases exists_of_bind hread with ⟨entry, -, hentry⟩
  exact ⟨entry, hentry⟩

end Segment

namespace Index

variable {index : Index}

/-- Word `i` of an index with its postings. -/
def decodeWord (index : Index) (i : Nat) : Except Error WordPostings :=
  index.storedWord i >>= StoredWord.decode

/-- The words of an index with their postings. -/
def decodeWords (index : Index) : Except Error (List WordPostings) :=
  collect ((List.range index.words.size).map index.decodeWord)

/-- The words of an index are those of the map that it holds. -/
theorem decodeWords_of_holds {words : WordMap} (h : index.words.Holds words) :
    ∃ decoded, index.decodeWords = .ok decoded ∧ WordPostings.table decoded = words := by
  rcases h with ⟨stored, hparse, hstored⟩
  -- Going by place and going by entry are the same.
  have hdecode : (List.range index.words.size).map index.decodeWord
      = stored.map StoredWord.decode := by
    calc (List.range index.words.size).map index.decodeWord
        = (index.words.entries.map (· >>= StoredWord.parse)).map (· >>= StoredWord.decode) := by
          rw [Segment.entries, List.map_map, List.map_map]
          rfl
      _ = stored.map StoredWord.decode := by
          rw [hparse, List.map_map]
          rfl
  rw [decodeWords, hdecode]
  exact StoredWord.collect_decode hstored

theorem length_of_decodeWords {words : List WordPostings} (h : index.decodeWords = .ok words) :
    words.length = index.words.size := by
  have hlength := congrArg List.length (collect_eq_ok h)
  rw [List.length_map, List.length_map, List.length_range] at hlength
  exact hlength.symm

/-- Every word can be had by itself. -/
theorem decodeWord_of_decodeWords {words : List WordPostings} (h : index.decodeWords = .ok words)
    {i : Nat} (hi : i < words.length) : index.decodeWord i = .ok words[i] := by
  have hget := congrArg (·[i]?) (collect_eq_ok h)
  have hi' : i < index.words.size := length_of_decodeWords h ▸ hi
  simp only [List.getElem?_map, List.getElem?_range hi', List.getElem?_eq_getElem hi,
    Option.map_some, Option.some.injEq] at hget
  exact hget

/-- So can its entry. -/
theorem storedWord_of_decodeWords {words : List WordPostings} (h : index.decodeWords = .ok words)
    {i : Nat} (hi : i < words.length) :
    ∃ stored, index.storedWord i = .ok stored ∧ stored.word = words[i].word
      ∧ stored.postings = .ok words[i].postings := by
  have hword := decodeWord_of_decodeWords h hi
  rw [decodeWord] at hword
  rcases hstored : index.storedWord i with e | stored
  · rw [hstored] at hword
    exact absurd hword (by simp [bind, Except.bind])
  · rw [hstored] at hword
    exact ⟨stored, rfl, StoredWord.decode_eq_ok_iff.mp hword⟩

section Lists

variable {volume : Volume}

/-- A document is found by its id. -/
theorem Lists.document (h : index.Lists volume) {id : UInt32}
    (hid : id.toNat < volume.files.length) : index.document id = .ok volume.files[id.toNat] :=
  Segment.get_of_collect_entries h.files hid

/-- So is a directory. -/
theorem Lists.directory (h : index.Lists volume) {id : UInt32}
    (hid : id.toNat < volume.directories.length) :
    index.directory id = .ok volume.directories[id.toNat] :=
  Segment.get_of_collect_entries h.directories hid

/-- And the path of a document is made of both. -/
theorem Lists.pathOf (h : index.Lists volume) {record : Record}
    (hid : record.directory.toNat < volume.directories.length) :
    index.pathOf record
      = .ok (Path.join volume.directories[record.directory.toNat] record.name) := by
  rw [Index.pathOf, h.directory hid]
  rfl

end Lists

/-- Words with their postings, as an index has them as far as it can be read. What is read is tidy,
    whatever else may be in the index. -/
structure Reads (index : Index) (words : List WordPostings) : Prop where
  length : words.length = index.words.size
  postings : ∀ i (hi : i < words.length) stored postings, index.storedWord i = .ok stored →
    stored.postings = .ok postings → postings = words[i].postings ∧ TidyPostings postings

/-- Nothing else can be read of an index that decodes. -/
theorem reads_of_decodeWords {words : List WordPostings} (h : index.decodeWords = .ok words)
    (htidy : ∀ entry ∈ words, TidyPostings entry.postings) : index.Reads words := by
  refine ⟨length_of_decodeWords h, fun i hi stored postings hstored hpostings => ?_⟩
  rcases storedWord_of_decodeWords h hi with ⟨stored', hstored', -, hpostings'⟩
  rcases Except.ok.inj (hstored.symm.trans hstored') with rfl
  rcases Except.ok.inj (hpostings.symm.trans hpostings') with rfl
  exact ⟨rfl, htidy _ (List.getElem_mem hi)⟩

end Index

end Concordance
