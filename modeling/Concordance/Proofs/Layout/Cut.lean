import Concordance.Proofs.Layout.Writer

/-!
# Files That Were Cut Off

The header of a file that was cut off is that of the whole file, or it is corrupt.

A table lies in front of the entries that it leads to, and reading it checks that all of it
is there. So if the tables of a part can be read, they are those of the whole, and the cut is
somewhere behind them. Their places are still those of the whole file. One that lies behind
the cut is refused, and the last entry of a segment ends at the cut if it begins before it.

## Theorems

* `OffsetTable.parse_append`, `readTables_append`: Tables of a part are those of the whole.
* `OffsetTable.parse_corrupt`, `Index.open?_corrupt`: Tables that can not be read are corrupt.
* `OffsetTable.offset_cut`: A place in a file that was cut off.
* `Segment.get_cut`: The last entry of a segment in a file that was cut off.
-/

namespace Concordance

namespace Blob

variable {part : Bytes} {start length : Nat}

/-- A stretch of bytes in front of a cut. -/
theorem window_append (h : start + length ≤ part.length) (behind : Bytes) :
    window (part ++ behind).toArray start length = window part.toArray start length := by
  simp only [window, Array.toList_extract, List.extract_eq_take_drop, Nat.add_sub_cancel_left]
  rw [List.drop_append_of_le_length (by omega),
    List.take_append_of_le_length (by rw [List.length_drop]; omega)]

theorem window_length (blob : Blob) (start length : Nat) :
    (window blob start length).length = min length (blob.size - start) := by
  simp only [window, Array.toList_extract, List.extract_eq_take_drop, List.length_take,
    List.length_drop, Array.length_toList, Nat.add_sub_cancel_left]

end Blob

/-- Eight bytes that could be read are there. -/
theorem Reader.le_of_u64 {blob : Blob} {start position n : Nat} {r : Reader}
    (h : u64 ⟨blob.window start 8, position⟩ = (.ok n, r)) : start + 8 ≤ blob.size := by
  rw [u64] at h
  split at h
  · rename_i hlength
    rw [List.length_take, Blob.window_length] at hlength
    omega
  · exact absurd h (by simp)

theorem Reader.u64_corrupt {r r' : Reader} {e : Error} (h : u64 r = (.error e, r')) :
    ∃ cause, e = .corrupt cause := by
  rw [u64] at h
  split at h
  · exact absurd h (by simp)
  · exact ⟨_, (Except.error.inj (Prod.mk.inj h).1).symm⟩

namespace OffsetTable

/-- A table is a number, and as many places behind it as it says. -/
theorem parse_eq_bind (blob : Blob) (start : Nat) :
    parse blob start
      = ((Reader.u64 ⟨blob.window start 8, 0⟩).1 >>= fun count => checked (start + 8) >>=
          fun firstPlace =>
            if UInt64.size ≤ 8 * count then .error (.corrupt (.tableOverflow count))
            else if firstPlace + 8 * count ≤ blob.size then
              .ok (⟨count, firstPlace⟩, firstPlace + 8 * count)
            else .error (.corrupt (.tableOutside count blob.size))) := by
  rw [parse]
  rcases Reader.u64 ⟨blob.window start 8, 0⟩ with ⟨e | count, r⟩
  · rfl
  · dsimp only
    rcases hplace : checked (start + 8) with e | firstPlace <;> rfl

/-- A table that could be read is there. -/
theorem le_of_parse {blob : Blob} {start next : Nat} {table : OffsetTable}
    (h : parse blob start = .ok (table, next)) :
    table.firstPlace + 8 * table.count = next ∧ next ≤ blob.size := by
  rw [parse_eq_bind] at h
  rcases exists_of_bind h with ⟨count, -, h⟩
  rcases exists_of_bind h with ⟨firstPlace, -, h⟩
  split at h
  · exact absurd h (by simp)
  · split at h
    · simp only [Except.ok.injEq, Prod.mk.injEq] at h
      rcases h with ⟨rfl, rfl⟩
      exact ⟨rfl, by assumption⟩
    · exact absurd h (by simp)

/-- A table that could be read is read as well where more bytes follow. -/
theorem parse_append {part : Bytes} {start next : Nat} {table : OffsetTable}
    (h : parse part.toArray start = .ok (table, next)) (behind : Bytes) :
    parse (part ++ behind).toArray start = .ok (table, next) := by
  rw [parse] at h ⊢
  rcases hcount : Reader.u64 ⟨Blob.window part.toArray start 8, 0⟩ with ⟨e | count, r⟩
  · simp only [hcount, reduceCtorEq] at h
  -- The number of entries was read, so that its bytes are in the part.
  have hinside := Reader.le_of_u64 hcount
  rw [List.size_toArray] at hinside
  rcases hplace : checked (start + 8) with e | firstPlace
  · simp only [hcount, hplace, reduceCtorEq] at h
  simp only [Blob.window_append hinside, hcount, hplace, List.size_toArray,
    List.length_append] at h ⊢
  split at h
  · exact absurd h (by simp)
  · rename_i hsmall
    rw [if_neg hsmall]
    split at h
    · rename_i hroom
      rw [if_pos (Nat.le_trans hroom (Nat.le_add_right _ _))]
      exact h
    · exact absurd h (by simp)

/-- A place is the number that is written at its own place, and it is looked at before it is
    used. -/
theorem offset_eq_bind (table : OffsetTable) (blob : Blob) (i : Nat) :
    table.offset blob i
      = if table.count ≤ i then .error (.corrupt (.entryOutOfRange i table.count))
        else checked (table.firstPlace + 8 * i) >>= fun place => blob.behind place 8 >>=
          fun field => (Reader.u64 ⟨field, 0⟩).1 >>= fun raw =>
            if raw < blob.size then .ok raw else .error (.corrupt (.entryOutside i raw)) := by
  rw [offset]
  by_cases hi : table.count ≤ i
  · rw [if_pos hi, if_pos hi]
  · rw [if_neg hi, if_neg hi]
    rcases checked (table.firstPlace + 8 * i) with e | place
    · rfl
    · dsimp only [bind, Except.bind]
      rcases blob.behind place 8 with e | field
      · rfl
      · dsimp only
        rcases Reader.u64 ⟨field, 0⟩ with ⟨e | raw, r⟩ <;> rfl

/-- The place of an entry is inside the blob. -/
theorem lt_of_offset {table : OffsetTable} {blob : Blob} {i place : Nat}
    (h : table.offset blob i = .ok place) : place < blob.size := by
  rw [offset_eq_bind] at h
  split at h
  · exact absurd h (by simp)
  · rcases exists_of_bind h with ⟨field, -, h⟩
    rcases exists_of_bind h with ⟨bytes, -, h⟩
    rcases exists_of_bind h with ⟨raw, -, h⟩
    split at h
    · rcases Except.ok.inj h with rfl
      assumption
    · exact absurd h (by simp)

/-- And there is such an entry. -/
theorem lt_count_of_offset {table : OffsetTable} {blob : Blob} {i place : Nat}
    (h : table.offset blob i = .ok place) : i < table.count := by
  rw [offset_eq_bind] at h
  split at h
  · exact absurd h (by simp)
  · rename_i hi
    exact Nat.lt_of_not_le hi

/-- A table that can not be read is corrupt, if the bytes are as many as places can tell
    apart. -/
theorem parse_corrupt {blob : Blob} (hsize : blob.size < UInt64.size) {start : Nat} {e : Error}
    (h : parse blob start = .error e) : ∃ cause, e = .corrupt cause := by
  rw [parse] at h
  rcases hcount : Reader.u64 ⟨blob.window start 8, 0⟩ with ⟨e' | count, r⟩
  · simp only [hcount, Except.error.injEq] at h
    rcases h with rfl
    exact Reader.u64_corrupt hcount
  · have hinside := Reader.le_of_u64 hcount
    simp only [hcount, checked, if_pos (Nat.lt_of_le_of_lt hinside hsize)] at h
    split at h
    · exact ⟨_, (Except.error.inj h).symm⟩
    · split at h
      · exact absurd h (by simp)
      · exact ⟨_, (Except.error.inj h).symm⟩

/-- In a file that was cut off behind its table, an entry has its place if that is not cut
    off as well. -/
theorem offset_cut {part behind : Bytes} {table : OffsetTable} {i place : Nat}
    (htable : table.firstPlace + 8 * table.count ≤ part.length)
    (h : table.offset (part ++ behind).toArray i = .ok place) :
    table.offset part.toArray i
      = if place < part.length then .ok place else .error (.corrupt (.entryOutside i place)) := by
  rw [offset] at h ⊢
  split at h
  · exact absurd h (by simp)
  rename_i hi
  rw [if_neg hi]
  rcases hplace : checked (table.firstPlace + 8 * i) with e | field
  · simp only [hplace, reduceCtorEq] at h
  have hfield : field = table.firstPlace + 8 * i := by
    rw [checked] at hplace
    split at hplace
    · exact (Except.ok.inj hplace).symm
    · exact absurd hplace (by simp)
  -- The place itself is written in front of the cut.
  have hinside : field + 8 ≤ part.length := by omega
  have hbehind : ∀ bytes : Bytes, part.length ≤ bytes.length →
      Blob.behind bytes.toArray field 8 = .ok (Blob.window bytes.toArray field 8) := by
    intro bytes hlength
    rw [Blob.behind, if_pos (by rw [List.size_toArray]; omega)]
  simp only [hplace, hbehind _ (Nat.le_refl _), hbehind (part ++ behind) (by simp),
    Blob.window_append hinside] at h ⊢
  rcases hraw : Reader.u64 ⟨Blob.window part.toArray field 8, 0⟩ with ⟨e | raw, r⟩
  · simp only [hraw, reduceCtorEq] at h
  simp only [hraw, List.size_toArray] at h ⊢
  split at h
  · rcases Except.ok.inj h with rfl
    rfl
  · exact absurd h (by simp)

end OffsetTable

/-- An entry that can be read is one of those that there are. -/
theorem Segment.lt_of_get {segment : Segment} {i : Nat} {entry : Bytes}
    (h : segment.get i = .ok entry) : i < segment.size := by
  rcases exists_of_bind h with ⟨place, hplace, -⟩
  exact OffsetTable.lt_count_of_offset hplace

/-- Tables that could be read are read as well where more bytes follow. -/
theorem readTables_append {part : Bytes} {tables : Sections OffsetTable}
    (h : readTables part.toArray = .ok tables) (behind : Bytes) :
    readTables (part ++ behind).toArray = .ok tables := by
  rw [readTables] at h ⊢
  rcases exists_of_bind h with ⟨⟨words, next⟩, hwords, h⟩
  rcases exists_of_bind h with ⟨⟨stopWords, next₁⟩, hstopWords, h⟩
  rcases exists_of_bind h with ⟨⟨directories, next₂⟩, hdirectories, h⟩
  rcases exists_of_bind h with ⟨⟨files, next₃⟩, hfiles, h⟩
  rcases exists_of_bind h with ⟨⟨metaNames, next₄⟩, hmetaNames, h⟩
  simp only [OffsetTable.parse_append hwords, OffsetTable.parse_append hstopWords,
    OffsetTable.parse_append hdirectories, OffsetTable.parse_append hfiles,
    OffsetTable.parse_append hmetaNames, bind, Except.bind]
  exact h

/-- Tables that can not be read are corrupt. -/
theorem readTables_corrupt {blob : Blob} (hsize : blob.size < UInt64.size) {e : Error}
    (h : readTables blob = .error e) : ∃ cause, e = .corrupt cause := by
  rw [readTables] at h
  rcases error_of_bind h with h | ⟨⟨words, next⟩, -, h⟩
  · exact OffsetTable.parse_corrupt hsize h
  rcases error_of_bind h with h | ⟨⟨stopWords, next₁⟩, -, h⟩
  · exact OffsetTable.parse_corrupt hsize h
  rcases error_of_bind h with h | ⟨⟨directories, next₂⟩, -, h⟩
  · exact OffsetTable.parse_corrupt hsize h
  rcases error_of_bind h with h | ⟨⟨files, next₃⟩, -, h⟩
  · exact OffsetTable.parse_corrupt hsize h
  rcases error_of_bind h with h | ⟨⟨metaNames, next₄⟩, -, h⟩
  · exact OffsetTable.parse_corrupt hsize h
  · exact absurd h (by simp)

/-- Tables that could be read are there. -/
theorem readTables_inside {blob : Blob} {tables : Sections OffsetTable}
    (h : readTables blob = .ok tables) (kind : SegmentName) :
    (tables.get kind).firstPlace + 8 * (tables.get kind).count ≤ blob.size := by
  have hinside : ∀ {start next : Nat} {table : OffsetTable},
      OffsetTable.parse blob start = .ok (table, next) →
        table.firstPlace + 8 * table.count ≤ blob.size := by
    intro start next table hparse
    rcases OffsetTable.le_of_parse hparse with ⟨rfl, hle⟩
    exact hle
  -- The five tables are read one behind the other, and each of them is checked.
  rw [readTables] at h
  rcases exists_of_bind h with ⟨⟨words, next⟩, hwords, h⟩
  rcases exists_of_bind h with ⟨⟨stopWords, next₁⟩, hstopWords, h⟩
  rcases exists_of_bind h with ⟨⟨directories, next₂⟩, hdirectories, h⟩
  rcases exists_of_bind h with ⟨⟨files, next₃⟩, hfiles, h⟩
  rcases exists_of_bind h with ⟨⟨metaNames, next₄⟩, hmetaNames, h⟩
  rcases Except.ok.inj h with rfl
  cases kind with
  | words => exact hinside hwords
  | stopWords => exact hinside hstopWords
  | directories => exact hinside hdirectories
  | files => exact hinside hfiles
  | metaNames => exact hinside hmetaNames

namespace Index

/-- Bytes that can not be opened are corrupt. -/
theorem open?_corrupt {blob : Blob} (hsize : blob.size < UInt64.size) {e : Error}
    (h : open? blob = .error e) : ∃ cause, e = .corrupt cause := by
  rw [open?] at h
  exact readTables_corrupt hsize (error_of_map h)

/-- If a part of a file can be opened, it has the tables of the whole, and all of them. -/
theorem open?_cut {sections : Sections (List Bytes)}
    (hsize : (indexBytes sections).length < UInt64.size) {part behind : Bytes}
    (hcut : indexBytes sections = part ++ behind) {index : Index}
    (h : open? part.toArray = .ok index) :
    index = ⟨part.toArray, sections.tables⟩
      ∧ ∀ kind, (sections.table kind).firstPlace + 8 * (sections.table kind).count
        ≤ part.length := by
  rcases exists_of_map h with ⟨tables, htables, rfl⟩
  have hwhole := open?_eq hsize
  rw [hcut, open?, readTables_append htables behind] at hwhole
  rcases (congrArg Index.tables (Except.ok.inj hwhole) : tables = sections.tables) with rfl
  refine ⟨rfl, fun kind => ?_⟩
  have hinside := readTables_inside htables kind
  rwa [Sections.tables_get, List.size_toArray] at hinside

end Index

/-- An entry goes from its place to the place of the next one, or to the end of the blob. -/
theorem Segment.get_eq_bind (segment : Segment) (i : Nat) :
    segment.get i
      = (segment.table.offset segment.blob i >>= fun start =>
          (if i + 1 < segment.table.count then segment.table.offset segment.blob (i + 1)
            else .ok segment.blob.size) >>= fun stop =>
          if stop < start then .error (.corrupt (.entryBackwards i start stop))
          else segment.blob.slice start stop) := by
  rw [get]
  split <;> rfl

/-- An entry is not larger than its blob. -/
theorem Segment.length_of_get {segment : Segment} {i : Nat} {entry : Bytes}
    (h : segment.get i = .ok entry) : entry.length ≤ segment.blob.size := by
  rw [get_eq_bind] at h
  rcases exists_of_bind h with ⟨start, -, h⟩
  rcases exists_of_bind h with ⟨stop, -, h⟩
  split at h
  · exact absurd h (by simp)
  · rw [Blob.slice] at h
    split at h
    · rw [← Except.ok.inj h, Array.length_toList, Array.size_extract]
      omega
    · exact absurd h (by simp)

/-- In a file that was cut off behind its table, the last entry of a segment ends at the
    cut, unless it is behind it. -/
theorem Segment.get_cut {part behind : Bytes} {table : OffsetTable} {i place : Nat}
    (htable : table.firstPlace + 8 * table.count ≤ part.length) (hlast : ¬ i + 1 < table.count)
    (h : table.offset (part ++ behind).toArray i = .ok place) :
    get ⟨part.toArray, table⟩ i
      = if place < part.length then .ok (part.drop place)
        else .error (.corrupt (.entryOutside i place)) := by
  rw [get]
  simp only [OffsetTable.offset_cut htable h, if_neg hlast]
  split
  · rename_i hplace
    have hslice := Blob.slice_append (part.take place) (part.drop place) []
    rw [List.append_nil, List.take_append_drop, List.length_take_of_le (Nat.le_of_lt hplace),
      List.length_drop, Nat.add_sub_cancel' (Nat.le_of_lt hplace)] at hslice
    simp only [bind, Except.bind, List.size_toArray, if_neg (Nat.not_lt.mpr (Nat.le_of_lt hplace)),
      hslice]
  · rfl

end Concordance
