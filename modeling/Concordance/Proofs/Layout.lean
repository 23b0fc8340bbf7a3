import Concordance.Indexing.WordMap
import Concordance.Proofs.Reader

/-!
# Entries Are Found

A segment finds its entries where its table says they are.

A table and the entries that it leads to may lie anywhere in a blob, and other
tables and entries may lie between them. So the two are described apart, `TableAt`
and `EntriesAt`, each by what comes before and behind. A run is the smallest case,
with one table and its entries right behind it.

The last entry of a segment has no place of a next one to end at. It is read with
everything that lies behind it, and `followedBy` says so.

## Main definitions

* `TableAt`, `EntriesAt`: A table, and entries, somewhere in some bytes.
* `followedBy`: Entries, the last one with what lies behind it.

## Theorems

* `OffsetTable.parse_tableAt`: A table is read back.
* `map_followedBy`: Entries are read by a reader that stops by itself.
* `Segment.entries_eq`, `Segment.exists_get`: All entries of a segment, and one of them.
* `Run.segment_encode`: A run is read back.
-/

namespace Concordance

namespace Blob

/-- What there is between two places. -/
theorem toList_extract_append (front middle behind : Bytes) :
    ((front ++ middle ++ behind).toArray.extract front.length
      (front.length + middle.length)).toList = middle := by
  rw [Array.toList_extract, List.toList_toArray, List.extract_eq_take_drop, List.append_assoc,
    List.drop_left, Nat.add_sub_cancel_left, List.take_left]

/-- The same as a slice, which has to be there. -/
theorem slice_append (front middle behind : Bytes) :
    Blob.slice (front ++ middle ++ behind).toArray front.length
      (front.length + middle.length) = .ok middle := by
  rw [slice, if_pos, toList_extract_append]
  refine ⟨Nat.le_add_right _ _, ?_⟩
  simp only [List.size_toArray, List.length_append]
  omega

end Blob

/-- A table of these places begins somewhere in some bytes. -/
def TableAt (bytes : Bytes) (start : Nat) (offsets : List Nat) : Prop :=
  ∃ front behind, bytes = front ++ OffsetTable.encode offsets ++ behind ∧ front.length = start

/-- These entries follow each other from somewhere in some bytes on, and something
    lies behind the last. -/
def EntriesAt (bytes : Bytes) (start : Nat) (entries : List Bytes) (behind : Bytes) : Prop :=
  ∃ front, bytes = front ++ entries.flatten ++ behind ∧ front.length = start

/-- Entries, the last one with what lies behind it. -/
def followedBy (behind : Bytes) : List Bytes → List Bytes
  | [] => []
  | [entry] => [entry ++ behind]
  | entry :: next :: rest => entry :: followedBy behind (next :: rest)

@[simp]
theorem followedBy_length (behind : Bytes) (entries : List Bytes) :
    (followedBy behind entries).length = entries.length := by
  fun_induction followedBy behind entries with
  | case1 => rfl
  | case2 => rfl
  | case3 entry next rest ih => exact congrArg (· + 1) ih

@[simp]
theorem followedBy_nil (entries : List Bytes) : followedBy [] entries = entries := by
  fun_induction followedBy [] entries with
  | case1 => rfl
  | case2 entry => rw [List.append_nil]
  | case3 entry next rest ih => rw [ih]

/-- What can be read whatever lies behind it is read from all entries. -/
theorem map_followedBy {α β : Type} (encode : α → Bytes) (decode : Bytes → Except Error β)
    (value : α → β) {as : List α} (h : ∀ a ∈ as, ∀ rest, decode (encode a ++ rest) = .ok (value a))
    (behind : Bytes) :
    (followedBy behind (as.map encode)).map decode = as.map fun a => .ok (value a) := by
  induction as with
  | nil => rfl
  | cons a as ih =>
    have ha := h a List.mem_cons_self
    rcases as with _ | ⟨b, as⟩
    · -- The last entry is the one with the rest of the file behind it.
      simp only [List.map_cons, List.map_nil, followedBy, ha]
    · have hnil := ha []
      rw [List.append_nil] at hnil
      have hrest := ih fun a hmem => h a (List.mem_cons_of_mem _ hmem)
      simp only [List.map_cons, followedBy] at hrest ⊢
      rw [hnil, hrest]

theorem getElem_followedBy_last {behind : Bytes} {entries : List Bytes} {i : Nat}
    (h : i < entries.length) (hlast : ¬ i + 1 < entries.length)
    (hi : i < (followedBy behind entries).length) :
    (followedBy behind entries)[i] = entries[i] ++ behind := by
  fun_induction followedBy behind entries generalizing i with
  | case1 => exact absurd h (Nat.not_lt_zero i)
  | case2 entry =>
    have hzero : i = 0 := by simpa using h
    subst hzero
    rfl
  | case3 entry next rest ih =>
    cases i with
    | zero => exact absurd (by simp) hlast
    | succ i => exact ih (by simpa using h) (by simpa using hlast) (Nat.lt_of_succ_lt_succ hi)

theorem getElem_followedBy {behind : Bytes} {entries : List Bytes} {i : Nat}
    (h : i + 1 < entries.length) (hi : i < (followedBy behind entries).length) :
    (followedBy behind entries)[i] = entries[i] := by
  fun_induction followedBy behind entries generalizing i with
  | case1 => exact absurd h (Nat.not_lt_zero _)
  | case2 => exact absurd h (by simp)
  | case3 entry next rest ih =>
    cases i with
    | zero => rfl
    | succ i => exact ih (by simpa using h) (Nat.lt_of_succ_lt_succ hi)

/-- Each entry is there, with something behind it or nothing. -/
theorem exists_getElem_followedBy {behind : Bytes} {entries : List Bytes} {i : Nat}
    (h : i < entries.length) (hi : i < (followedBy behind entries).length) :
    ∃ rest, (followedBy behind entries)[i] = entries[i] ++ rest := by
  by_cases hlast : i + 1 < entries.length
  · exact ⟨[], by rw [getElem_followedBy hlast, List.append_nil]⟩
  · exact ⟨behind, getElem_followedBy_last h hlast hi⟩

namespace WordMap

@[simp]
theorem offsetsFrom_length (start : Nat) (entries : List Bytes) :
    (offsetsFrom start entries).length = entries.length := by
  induction entries generalizing start with
  | nil => rfl
  | cons entry rest ih => rw [offsetsFrom, List.length_cons, ih, List.length_cons]

/-- An entry begins where those before it end. -/
theorem getElem_offsetsFrom (start : Nat) (entries : List Bytes) (i : Nat)
    (h : i < (offsetsFrom start entries).length) :
    (offsetsFrom start entries)[i] = start + (entries.take i).flatten.length := by
  induction entries generalizing start i with
  | nil => exact absurd h (Nat.not_lt_zero i)
  | cons entry rest ih =>
    cases i with
    | zero => rfl
    | succ i =>
      simp only [offsetsFrom, List.getElem_cons_succ, List.take_succ_cons, List.flatten_cons,
        List.length_append]
      rw [ih, Nat.add_assoc]

end WordMap

namespace OffsetTable

/-- A table of so many places takes so many bytes. -/
theorem encode_length (offsets : List Nat) :
    (encode offsets).length = byteLength offsets.length := by
  have hplaces : (offsets.flatMap (toLittleEndian 8)).length = 8 * offsets.length := by
    induction offsets with
    | nil => rfl
    | cons offset rest ih =>
      rw [List.flatMap_cons, List.length_append, toLittleEndian_length, ih, List.length_cons]
      omega
  rw [encode, List.length_append, toLittleEndian_length, hplaces, byteLength]
  omega

/-- The place of one entry, as it is written. -/
theorem encode_split {offsets : List Nat} {i : Nat} (h : i < offsets.length) :
    ∃ before behind, encode offsets = before ++ toLittleEndian 8 offsets[i] ++ behind
      ∧ before.length = 8 + 8 * i := by
  have hcut : offsets.take i ++ offsets[i] :: offsets.drop (i + 1) = offsets := by
    rw [List.getElem_cons_drop, List.take_append_drop]
  refine ⟨toLittleEndian 8 offsets.length ++ (offsets.take i).flatMap (toLittleEndian 8),
    (offsets.drop (i + 1)).flatMap (toLittleEndian 8), ?_, ?_⟩
  · have hplaces := congrArg (List.flatMap (toLittleEndian 8)) hcut
    rw [List.flatMap_append, List.flatMap_cons] at hplaces
    simp only [encode, List.append_assoc, hplaces]
  · have htake := encode_length (offsets.take i)
    rw [encode, List.length_append, toLittleEndian_length, List.length_take_of_le (Nat.le_of_lt h)]
      at htake
    rw [List.length_append, toLittleEndian_length, htake, byteLength]
    omega

section Parse

variable {bytes : Bytes} {start : Nat} {offsets : List Nat}

/-- A table is read back, if the bytes are as many as places can tell apart. -/
theorem parse_tableAt (hsize : bytes.length < UInt64.size) (h : TableAt bytes start offsets) :
    parse bytes.toArray start
      = .ok (⟨offsets.length, start + 8⟩, start + byteLength offsets.length) := by
  rcases h with ⟨front, behind, hbytes, hfront⟩
  have hlen := congrArg List.length hbytes
  rw [List.length_append, List.length_append, encode_length, byteLength, hfront] at hlen
  -- The first eight bytes of the table are the count.
  have hcount : (Blob.window bytes.toArray start 8) = toLittleEndian 8 offsets.length := by
    have hext := Blob.toList_extract_append front (toLittleEndian 8 offsets.length)
      (offsets.flatMap (toLittleEndian 8) ++ behind)
    rw [toLittleEndian_length, hfront] at hext
    rw [Blob.window, hbytes, encode]
    simpa only [List.append_assoc] using hext
  have hread : Reader.u64 ⟨toLittleEndian 8 offsets.length, 0⟩
      = (.ok offsets.length, ⟨[], 8⟩) := by
    have hu := Reader.u64_toLittleEndian (n := offsets.length) (by omega) [] 0
    simpa only [List.append_nil] using hu
  have hinside : start + 8 + 8 * offsets.length ≤ bytes.toArray.size := by
    rw [List.size_toArray]
    omega
  simp only [parse, hcount, hread, checked]
  rw [if_pos (show start + 8 < UInt64.size by omega)]
  simp only []
  rw [if_neg (by omega), if_pos hinside, byteLength,
    show start + 8 + 8 * offsets.length = start + 8 * (offsets.length + 1) by omega]

/-- A place is read back, if it lies inside. -/
theorem offset_tableAt (hsize : bytes.length < UInt64.size) (h : TableAt bytes start offsets)
    {i : Nat} (hi : i < offsets.length) (hin : offsets[i] < bytes.length) :
    offset ⟨offsets.length, start + 8⟩ bytes.toArray i = .ok offsets[i] := by
  rcases h with ⟨front, behind, hbytes, hfront⟩
  have hlen := congrArg List.length hbytes
  rw [List.length_append, List.length_append, encode_length, byteLength, hfront] at hlen
  rcases encode_split hi with ⟨before, after, hencode, hbefore⟩
  -- The places before this one, and the count, are eight bytes each.
  have hfield : Blob.window bytes.toArray (start + 8 + 8 * i) 8
      = toLittleEndian 8 offsets[i] := by
    have hext := Blob.toList_extract_append (front ++ before) (toLittleEndian 8 offsets[i])
      (after ++ behind)
    rw [toLittleEndian_length, List.length_append, hfront, hbefore, ← Nat.add_assoc] at hext
    rw [Blob.window, hbytes, hencode]
    simpa only [List.append_assoc] using hext
  have hread : Reader.u64 ⟨toLittleEndian 8 offsets[i], 0⟩ = (.ok offsets[i], ⟨[], 8⟩) := by
    have hu := Reader.u64_toLittleEndian (n := offsets[i]) (by omega) [] 0
    simpa only [List.append_nil] using hu
  rw [offset, if_neg (by simpa using hi), checked, if_pos (by simp only; omega)]
  simp only [Blob.behind, List.size_toArray]
  rw [if_pos (by omega)]
  simp only [hfield, hread]
  rw [if_pos hin]

end Parse

end OffsetTable

/-- One of some entries, with the others in front of it and behind. -/
theorem EntriesAt.split {bytes behind : Bytes} {start : Nat} {entries : List Bytes}
    (h : EntriesAt bytes start entries behind) {i : Nat} (hi : i < entries.length) :
    ∃ front, bytes = front ++ entries[i] ++ ((entries.drop (i + 1)).flatten ++ behind)
      ∧ front.length = start + (entries.take i).flatten.length := by
  rcases h with ⟨front, hbytes, hfront⟩
  have hcut : entries.take i ++ entries[i] :: entries.drop (i + 1) = entries := by
    rw [List.getElem_cons_drop, List.take_append_drop]
  have hflat := congrArg List.flatten hcut
  rw [List.flatten_append, List.flatten_cons] at hflat
  refine ⟨front ++ (entries.take i).flatten, ?_, by rw [List.length_append, hfront]⟩
  rw [hbytes, ← hflat]
  simp only [List.append_assoc]

namespace Segment

section Entries

variable {bytes behind : Bytes} {place start : Nat} {entries : List Bytes}
  (hsize : bytes.length < UInt64.size)
  (htable : TableAt bytes place (WordMap.offsetsFrom start entries))
  (hentries : EntriesAt bytes start entries behind) (hne : [] ∉ entries)

include hsize htable hentries hne

/-- The place of an entry is behind the entries before it. -/
theorem offset_eq {i : Nat} (hi : i < entries.length) :
    OffsetTable.offset ⟨entries.length, place + 8⟩ bytes.toArray i
      = .ok (start + (entries.take i).flatten.length) := by
  have hi' : i < (WordMap.offsetsFrom start entries).length := by
    rw [WordMap.offsetsFrom_length]
    exact hi
  have hplace := WordMap.getElem_offsetsFrom start entries i hi'
  have hin : (WordMap.offsetsFrom start entries)[i] < bytes.length := by
    rcases hentries.split hi with ⟨front, hbytes, hfront⟩
    -- An entry with bytes in it begins before the end of the file.
    have hpos : entries[i].length ≠ 0 := fun hz =>
      hne (List.length_eq_zero_iff.mp hz ▸ List.getElem_mem hi)
    rw [hplace, hbytes, List.length_append, List.length_append, hfront]
    omega
  have hoffset := OffsetTable.offset_tableAt hsize htable hi' hin
  rw [WordMap.offsetsFrom_length, hplace] at hoffset
  exact hoffset

/-- An entry that another one follows ends where that one begins. -/
theorem get_eq {i : Nat} (hi : i + 1 < entries.length) :
    get ⟨bytes.toArray, ⟨entries.length, place + 8⟩⟩ i = .ok entries[i] := by
  have hi' := Nat.lt_of_succ_lt hi
  rcases hentries.split hi' with ⟨front, hbytes, hfront⟩
  have hstop : start + (entries.take (i + 1)).flatten.length
      = front.length + entries[i].length := by
    rw [List.take_succ_eq_append_getElem hi', List.flatten_append, List.length_append,
      List.flatten_cons, List.flatten_nil, List.append_nil, hfront, Nat.add_assoc]
  have hslice := Blob.slice_append front entries[i] ((entries.drop (i + 1)).flatten ++ behind)
  rw [← hbytes] at hslice
  simp only [get, offset_eq hsize htable hentries hne hi', bind, Except.bind, if_pos hi,
    offset_eq hsize htable hentries hne hi, hstop, ← hfront]
  rw [if_neg (by omega), hslice]

/-- The last entry has everything that lies behind it. -/
theorem get_last_eq {i : Nat} (hi : i < entries.length) (hlast : ¬ i + 1 < entries.length) :
    get ⟨bytes.toArray, ⟨entries.length, place + 8⟩⟩ i = .ok (entries[i] ++ behind) := by
  rcases hentries.split hi with ⟨front, hbytes, hfront⟩
  rw [List.drop_eq_nil_of_le (by omega), List.flatten_nil, List.nil_append,
    List.append_assoc] at hbytes
  have hstop : bytes.toArray.size = front.length + (entries[i] ++ behind).length := by
    rw [List.size_toArray, hbytes, List.length_append]
  have hslice := Blob.slice_append front (entries[i] ++ behind) []
  rw [List.append_nil, ← hbytes] at hslice
  simp only [get, offset_eq hsize htable hentries hne hi, bind, Except.bind, if_neg hlast,
    hstop, ← hfront]
  rw [if_neg (by omega), hslice]

/-- All entries of a segment. -/
theorem entries_eq :
    Segment.entries ⟨bytes.toArray, ⟨entries.length, place + 8⟩⟩
      = (followedBy behind entries).map .ok := by
  refine List.ext_getElem ?_ fun i hi hi' => ?_
  · rw [Segment.entries, List.length_map, List.length_range, List.length_map, followedBy_length]
    rfl
  · rw [List.length_map, followedBy_length] at hi'
    simp only [Segment.entries, List.getElem_map, List.getElem_range]
    by_cases hlast : i + 1 < entries.length
    · rw [get_eq hsize htable hentries hne hlast, getElem_followedBy hlast]
    · rw [get_last_eq hsize htable hentries hne hi' hlast, getElem_followedBy_last hi' hlast]

end Entries

end Segment

/-- An entry of a segment whose entries are known. -/
theorem Segment.exists_get {segment : Segment} {behind : Bytes} {entries : List Bytes}
    (h : segment.entries = (followedBy behind entries).map .ok) {i : Nat}
    (hi : i < entries.length) :
    ∃ rest, segment.get i = .ok (entries[i] ++ rest) := by
  have hlength := congrArg List.length h
  rw [Segment.entries, List.length_map, List.length_range, List.length_map,
    followedBy_length] at hlength
  have hi' : i < (followedBy behind entries).length := by rwa [followedBy_length]
  have hget := congrArg (·[i]?) h
  simp only [Segment.entries, List.getElem?_map, List.getElem?_range (hlength ▸ hi),
    List.getElem?_eq_getElem hi', Option.map_some, Option.some.injEq] at hget
  rcases exists_getElem_followedBy hi hi' with ⟨rest, hrest⟩
  exact ⟨rest, by rw [hget, hrest]⟩

/-- A run is read back: its entries are those of the map it was made from. -/
theorem Run.segment_encode {words : WordMap} (hsize : words.encode.length < UInt64.size) :
    ∃ segment, Run.segment words.encode = .ok segment
      ∧ segment.entries = words.entries.map .ok := by
  have hlen : words.entries.length = words.length := List.length_map _
  have hne : [] ∉ words.entries := by
    intro hmem
    rcases List.mem_map.mp hmem with ⟨⟨key, postings⟩, -, heq⟩
    exact absurd heq (List.append_ne_nil_of_right_ne_nil _ (List.cons_ne_nil _ _))
  -- A run is one segment: its table stands at the front and the entries right behind.
  have htable : TableAt words.encode 0
      (WordMap.offsetsFrom (OffsetTable.byteLength words.length) words.entries) :=
    ⟨[], words.entries.flatten, rfl, rfl⟩
  have hentries : EntriesAt words.encode (OffsetTable.byteLength words.length) words.entries
      [] := by
    refine ⟨_, (List.append_nil _).symm, ?_⟩
    rw [OffsetTable.encode_length, WordMap.offsetsFrom_length, hlen]
  have hparse := OffsetTable.parse_tableAt hsize htable
  rw [WordMap.offsetsFrom_length] at hparse
  refine ⟨⟨words.encode.toArray, ⟨words.entries.length, 0 + 8⟩⟩, ?_, ?_⟩
  · simp only [Run.segment, hparse]
    rfl
  · rw [Segment.entries_eq hsize htable hentries hne, followedBy_nil]

end Concordance
