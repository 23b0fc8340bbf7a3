import Concordance.Proofs.Indexing.Log
import Concordance.Proofs.Merge.Anything
import Concordance.Proofs.Posting.Halving
import Concordance.Proofs.Posting.Lists

/-!
# The Names of Any Posting

The ids of a posting are in order and there are no others, wherever the posting is from.

A posting is read from bytes that anyone may have written, or it is begun by the first word of a
document. Then words are noted in it, and later parts of its document are put behind it, which
may be from bytes or from words again. `Posting.Made` goes along with all of this and remembers
which ids were stored or recorded. It does not ask for anything: the bytes may have the ids in
any order and more than once, and parts may be put together in any way.

A filter is a search by halving, which finds nothing where ids are not in order. So the order is
not only a matter of form, and all that puts ids into a posting relies on it that the last one
has kept it. This is what `Posting.Made.ids_exact` is about. The rest is to see that the program
makes all of its postings in this way, and that it takes note of an id with the right one: an id
that was recorded for a word and a document is there with this word and this document.

## Main definitions

* `Posting.Made`: How postings come about, and the ids that were stored or recorded.
* `Naming`: Postings among which one has an id for a document.

## Theorems

* `Posting.ids_of_readList`: A list of ids is sorted with those that were there.
* `Posting.extend_eq_foldl_insertFound`, `Posting.note_eq_insertFound`: Ids are put in where the
  search for them has ended.
* `Posting.Made.ids_exact`: The ids of a posting are those that were stored or recorded.
* `Posting.made_of_readAll`, `Log.made_of_mem_words`, `Merge.made_of_sources`: All postings are
  made in this way.
* `Log.naming_words_iff`, `Merge.naming_take_iff`: No id is lost, and none gets to another document.
-/

namespace Concordance

namespace Posting

/-- A list of ids that was read is sorted with those that were there, each of them once. -/
theorem ids_of_readList {set ids : List UInt32} {r r' : Reader} (hset : set.Pairwise (· < ·))
    (h : readList metaStep set r = (.ok ids, r')) :
    ∃ values, Row r.rest values r'.rest
      ∧ ids = IdSet.normalize (set ++ values.map UInt32.ofNat) := by
  rcases exists_row_of_readList h with ⟨values, hrow, hfold⟩
  rw [foldlM_metaStep_eq, Except.ok.injEq] at hfold
  exact ⟨values, hrow, by rw [← hfold, IdSet.normalize_append hset]⟩

/-- Ids that are put in where the search for them has ended are put into the set. -/
theorem foldl_insertFound_eq {set : List UInt32} (h : set.Pairwise (· < ·)) (ids : List UInt32) :
    ids.foldl (fun set id => IdSet.insertFound id set) set = IdSet.union set ids := by
  induction ids generalizing set with
  | nil => rfl
  | cons id ids ih =>
    rw [List.foldl_cons, IdSet.insertFound_eq h, ih (IdSet.insert_ascending h), IdSet.union,
      IdSet.union, List.foldl_cons]

/-- The ids of a later part are put in one by one. -/
theorem extend_eq_foldl_insertFound {posting : Posting} (h : posting.NamesAscend)
    (later : Posting) :
    posting.extend later =
      { posting with
        occurrences := addCounts posting.occurrences later.occurrences
        metaIds := later.metaIds.foldl (fun set id => IdSet.insertFound id set) posting.metaIds
        positions := posting.positions ++ later.positions } := by
  rw [foldl_insertFound_eq h, Posting.extend]

/-- And so is the id that a word is noted with. -/
theorem note_eq_insertFound {posting : Posting} (h : posting.NamesAscend) (position : UInt32)
    (metaId : Option UInt32) :
    WordMap.note position metaId posting =
      { posting with
        occurrences := addCounts posting.occurrences 1
        metaIds := metaId.elim posting.metaIds fun id => IdSet.insertFound id posting.metaIds
        positions := posting.positions ++ [position] } := by
  rcases metaId with _ | id
  · rfl
  · rw [Option.elim_some, IdSet.insertFound_eq h, WordMap.note]

/-- How postings come about, each with the ids that were stored in it or recorded for it. -/
inductive Made : Posting → (UInt32 → Prop) → Prop
  /-- One that can be read from bytes, whatever they are. -/
  | decoded {r r' : Reader} {posting : Posting} {more : Bool}
    (read : decode r = (.ok (posting, more), r')) : Made posting (Stores r.rest)
  /-- One that is begun for a document. -/
  | begun (document : UInt32) : Made { document } fun _ => False
  /-- One that a word is noted in. -/
  | noted {posting : Posting} {ids : UInt32 → Prop} (made : Made posting ids) (position : UInt32)
    (metaId : Option UInt32) :
    Made (WordMap.note position metaId posting) fun id => ids id ∨ metaId = some id
  /-- One that a later part is put behind. -/
  | extended {posting later : Posting} {ids laterIds : UInt32 → Prop} (made : Made posting ids)
    (madeLater : Made later laterIds) : Made (posting.extend later) fun id => ids id ∨ laterIds id
  /-- One that was given its rank. -/
  | ranked {posting : Posting} {ids : UInt32 → Prop} (made : Made posting ids) (rank : UInt32) :
    Made { posting with rank } ids

/-- Every way to make a posting keeps its ids in order. -/
theorem Made.namesAscend {posting : Posting} {ids : UInt32 → Prop} (h : Made posting ids) :
    posting.NamesAscend := by
  induction h with
  | decoded read => exact namesAscend_of_decode read
  | begun document => exact List.Pairwise.nil
  | noted made position metaId ih =>
    rcases metaId with _ | id
    · exact ih
    · exact IdSet.insert_ascending ih
  | extended made madeLater ih ihLater => exact ih.extend _
  | ranked made rank ih => exact ih

/-- And it loses none and adds none. -/
theorem Made.mem_metaIds_iff {posting : Posting} {ids : UInt32 → Prop} (h : Made posting ids)
    (id : UInt32) : id ∈ posting.metaIds ↔ ids id := by
  induction h with
  | decoded read => exact mem_metaIds_iff_stores read
  | begun document => exact iff_of_false List.not_mem_nil fun h => h
  | @noted posting ids made position metaId ih =>
    rcases metaId with _ | new
    · show id ∈ posting.metaIds ↔ _
      rw [ih]
      exact ⟨Or.inl, fun h => h.resolve_right (by simp)⟩
    · show id ∈ IdSet.insert new posting.metaIds ↔ _
      rw [IdSet.mem_insert, ih, or_comm, eq_comm (a := id), ← Option.some.injEq]
  | @extended posting later ids laterIds made madeLater ih ihLater =>
    show id ∈ IdSet.union posting.metaIds later.metaIds ↔ _
    rw [IdSet.mem_union, ih, ihLater]
  | ranked made rank ih => exact ih

/-- The ids of a posting are in order, and they are those that were stored in it or recorded for
    it. These are the ones that a filter lets pass, and a search finds. The next id can be put
    where the search for it has ended, and any others can be sorted with them. -/
theorem Made.ids_exact {posting : Posting} {ids : UInt32 → Prop} (h : Made posting ids) :
    posting.metaIds.Pairwise (· < ·)
      ∧ (∀ id, id ∈ posting.metaIds ↔ ids id)
      ∧ (∀ filter, posting.passes filter = true ↔ ∀ id ∈ filter, ids id)
      ∧ (∀ id, (IdSet.search posting.metaIds id).isOk = posting.passes (some id))
      ∧ (∀ id, IdSet.insertFound id posting.metaIds = IdSet.insert id posting.metaIds)
      ∧ ∀ others, IdSet.normalize (posting.metaIds ++ others)
          = IdSet.union posting.metaIds others := by
  have hascend : posting.metaIds.Pairwise (· < ·) := h.namesAscend
  refine ⟨hascend, h.mem_metaIds_iff, fun filter => ?_, fun id => ?_,
    fun id => IdSet.insertFound_eq hascend, IdSet.normalize_append hascend⟩
  · rcases filter with _ | id
    · exact iff_of_true rfl fun id hid => absurd hid (by simp)
    · rw [passes, List.contains_iff_mem, h.mem_metaIds_iff]
      exact ⟨fun hid other hother => Option.some.inj hother ▸ hid, fun hall => hall id rfl⟩
  · rw [Bool.eq_iff_iff, IdSet.search_isOk_iff hascend, passes, List.contains_iff_mem]

/-- Bytes with three lists of ids, which are in no order, there more than once, and in one case
    too large; and behind them a word of a document that one of these ids is recorded for
    again. -/
theorem Made.ids_exact_of_disorder :
    let bytes : Bytes := [7, 2, 0, 0x82, 9, 3, 9, 0x90, 0x80, 0x80, 0x80, 0x05, 0x80,
      0x84, 8, 0x80, 0x82, 3, 1, 0x80, 0x83, 4, 0x80, 0x82, 0x80, 0x80]
    let stored : Posting :=
      { document := 7, occurrences := 2, metaIds := [1, 3, 5, 9], positions := [4] }
    let recorded := WordMap.note 6 (some 9) (WordMap.note 5 (some 4) { document := 7 })
    let ids : UInt32 → Prop := fun id => Stores bytes id ∨ (False ∨ some 4 = some id)
      ∨ some 9 = some id
    decode ⟨bytes, 0⟩ = (.ok (stored, false), ⟨[], 26⟩)
      ∧ (stored.extend recorded).metaIds = [1, 3, 4, 5, 9]
      ∧ (stored.extend recorded).metaIds.Pairwise (· < ·)
      ∧ (∀ id, id ∈ (stored.extend recorded).metaIds ↔ ids id)
      ∧ (∀ filter, (stored.extend recorded).passes filter = true ↔ ∀ id ∈ filter, ids id)
      ∧ (∀ id, (IdSet.search (stored.extend recorded).metaIds id).isOk
          = (stored.extend recorded).passes (some id))
      ∧ (∀ id, IdSet.insertFound id (stored.extend recorded).metaIds
          = IdSet.insert id (stored.extend recorded).metaIds)
      ∧ ∀ others, IdSet.normalize ((stored.extend recorded).metaIds ++ others)
          = IdSet.union (stored.extend recorded).metaIds others := by
  intro bytes stored recorded ids
  have hread : decode ⟨bytes, 0⟩ = (.ok (stored, false), ⟨[], 26⟩) := by decide +kernel
  -- The stored part comes first, and what was noted later is put behind it.
  refine ⟨hread, by decide, Made.ids_exact ?_⟩
  exact .extended (.decoded hread) (.noted (.noted (.begun 7) 5 (some 4)) 6 (some 9))

/-- All postings that can be read from bytes are made by reading. -/
theorem made_of_readAll {r : Reader} {p : Posting} (h : .ok p ∈ readAll r) :
    ∃ ids, Made p ids := by
  fun_induction readAll r with
  | case1 => exact absurd (List.mem_singleton.mp h) (by simp)
  | case2 r posting r' hdecode hlt ih =>
    rcases List.mem_cons.mp h with heq | h
    · rw [Except.ok.inj heq]
      exact ⟨_, .decoded hdecode⟩
    · exact ih h
  | case3 r posting more r' hdecode =>
    rw [Except.ok.inj (List.mem_singleton.mp h)]
    exact ⟨_, .decoded hdecode⟩

/-- One word of a document is noted in a posting that was begun for it. -/
theorem made_single (document position : UInt32) (metaId : Option UInt32) :
    ∃ ids, Made (single document position metaId) ids := by
  have hsingle : single document position metaId = WordMap.note position metaId { document } := by
    cases metaId <;> rfl
  rw [hsingle]
  exact ⟨_, .noted (.begun document) position metaId⟩

theorem made_attach {postings : List Posting} {posting : Posting}
    (hall : ∀ p ∈ postings, ∃ ids, Made p ids) (hnew : ∃ ids, Made posting ids) :
    ∀ p ∈ attach postings posting, ∃ ids, Made p ids := by
  refine forall_attach hall hnew fun p hp _ => ?_
  rcases hall p hp with ⟨ids, hmade⟩
  rcases hnew with ⟨laterIds, hmadeLater⟩
  exact ⟨_, .extended hmade hmadeLater⟩

theorem made_foldl_attach {before postings : List Posting}
    (hbefore : ∀ p ∈ before, ∃ ids, Made p ids) (hall : ∀ p ∈ postings, ∃ ids, Made p ids) :
    ∀ p ∈ postings.foldl attach before, ∃ ids, Made p ids := by
  induction postings generalizing before with
  | nil => exact hbefore
  | cons posting postings ih =>
    exact ih (made_attach hbefore (hall posting List.mem_cons_self))
      fun p hp => hall p (List.mem_cons_of_mem _ hp)

end Posting

/-- Among some postings is one that has an id for a document. -/
def Naming (postings : List Posting) (document id : UInt32) : Prop :=
  ∃ p ∈ postings, p.document = document ∧ id ∈ p.metaIds

theorem not_naming_nil {document id : UInt32} : ¬ Naming [] document id := by
  rintro ⟨p, hp, -⟩
  exact absurd hp List.not_mem_nil

/-- A posting that is put behind others brings its ids to its document. -/
theorem naming_attach_iff {postings : List Posting} {posting : Posting} {document id : UInt32} :
    Naming (attach postings posting) document id
      ↔ Naming postings document id ∨ posting.document = document ∧ id ∈ posting.metaIds := by
  rcases nil_or_concat postings with rfl | ⟨before, last, rfl⟩
  · simp only [Naming, attach, List.mem_singleton, exists_eq_left, List.not_mem_nil, false_and,
      exists_false, false_or]
  · rw [attach_concat]
    split
    · rename_i hsame
      simp only [Naming, List.mem_append, List.mem_singleton, or_and_right, exists_or,
        exists_eq_left, Posting.extend, IdSet.mem_union, and_or_left, hsame, or_assoc]
    · simp only [Naming, List.mem_append, List.mem_cons, List.not_mem_nil, or_false, or_and_right,
        exists_or, exists_eq_left, or_assoc]

theorem naming_foldl_attach_iff {before postings : List Posting} {document id : UInt32} :
    Naming (postings.foldl attach before) document id
      ↔ Naming before document id ∨ Naming postings document id := by
  induction postings generalizing before with
  | nil => simp only [Naming, List.foldl_nil, List.not_mem_nil, false_and, exists_false, or_false]
  | cons posting postings ih =>
    rw [List.foldl_cons, ih, naming_attach_iff, or_assoc]
    simp only [Naming, List.mem_cons, or_and_right, exists_or, exists_eq_left]

namespace Log

/-- What was recorded is made by noting it. -/
theorem made_of_mem_words {log : Log} {e : Bytes × List Posting} (h : e ∈ words log) :
    ∀ p ∈ e.2, ∃ ids, Posting.Made p ids := by
  rw [← WordMap.postingsOf_of_mem (words_proper log).ascend h, postingsOf_words]
  refine Posting.made_foldl_attach (fun p hp => absurd hp List.not_mem_nil) fun p hp => ?_
  rcases List.mem_map.mp hp with ⟨occurrence, -, rfl⟩
  exact Posting.made_single ..

/-- An id is with a word and a document if it was recorded for them, in whatever order the
    documents were. -/
theorem naming_words_iff {log : Log} {key : Bytes} {document id : UInt32} :
    Naming ((words log).postingsOf key) document id ↔ ∃ occurrence ∈ log,
      occurrence.key = key ∧ occurrence.document = document ∧ occurrence.metaId = some id := by
  rw [postingsOf_words, fuse, naming_foldl_attach_iff, or_iff_right not_naming_nil]
  constructor
  · rintro ⟨p, hp, hdocument, hid⟩
    rcases List.mem_map.mp hp with ⟨occurrence, hocc, rfl⟩
    rcases List.mem_filter.mp hocc with ⟨hmem, hkey⟩
    exact ⟨occurrence, hmem, of_decide_eq_true hkey, hdocument, Option.mem_toList.mp hid⟩
  · rintro ⟨occurrence, hmem, hkey, hdocument, hid⟩
    exact ⟨occurrence.posting, List.mem_map_of_mem (List.mem_filter.mpr ⟨hmem, by simp [hkey]⟩),
      hdocument, Option.mem_toList.mpr hid⟩

end Log

namespace Merge

/-- A posting that can be put behind others is attached to them. -/
theorem attach_of_append {read read' : List Posting} {posting : Posting}
    (h : append read posting = .ok read') : read'.reverse = attach read.reverse posting := by
  rw [append.eq_def] at h
  split at h
  · rw [← Except.ok.inj h]
    rfl
  · rename_i last before
    rw [List.reverse_cons, attach_concat]
    split at h
    · rename_i hsame
      rw [if_pos hsame, ← Except.ok.inj h, List.reverse_cons]
    · rename_i hother
      split at h
      · exact absurd h (by simp)
      · rw [if_neg hother, ← Except.ok.inj h, List.reverse_cons, List.reverse_cons,
          List.append_assoc, List.singleton_append]

/-- And so are those of an entry, all of which can be read then. -/
theorem foldl_attach_of_appendAll {read read' : List Posting} {stream : List (Except Error Posting)}
    (h : appendAll read stream = .ok read') :
    ∃ postings : List Posting, stream = postings.map .ok
      ∧ read'.reverse = postings.foldl attach read.reverse := by
  fun_induction appendAll read stream with
  | case1 read => exact ⟨[], rfl, by rw [← Except.ok.inj h, List.foldl_nil]⟩
  | case2 | case3 => exact absurd h (by simp)
  | case4 read posting rest longer happend ih =>
    rcases ih h with ⟨postings, rfl, hread⟩
    refine ⟨posting :: postings, rfl, ?_⟩
    rw [hread, attach_of_append happend, List.foldl_cons]

/-- The postings of a word are those of the entries that stand at it, one behind the other. -/
theorem foldl_attach_of_take {word : String} {read read' : List Posting}
    {cursors cursors' : List Cursor} (h : take word read cursors = .ok (read', cursors')) :
    ∃ postings : List Posting, read'.reverse = postings.foldl attach read.reverse
      ∧ ∀ p, p ∈ postings ↔ ∃ cursor ∈ cursors, cursor.entry.word = word
        ∧ .ok p ∈ cursor.entry.stream := by
  fun_induction take word read cursors generalizing read' cursors' with
  | case1 read =>
    simp only [Except.ok.injEq, Prod.mk.injEq] at h
    exact ⟨[], by rw [← h.1, List.foldl_nil], by simp⟩
  | case2 | case3 | case4 | case6 => exact absurd h (by simp)
  -- A cursor at the word gives what is in its stream, and one at another word gives nothing.
  | case5 read cursor rest hword longer happend next hforward all others htake ih =>
    simp only [Except.ok.injEq, Prod.mk.injEq] at h
    rcases ih htake with ⟨postings, hall, hmem⟩
    rcases foldl_attach_of_appendAll happend with ⟨own, hown, hlonger⟩
    refine ⟨own ++ postings, ?_, fun p => ?_⟩
    · rw [← h.1, hall, hlonger, List.foldl_append]
    · simp only [List.mem_append, hmem, List.mem_cons, or_and_right, exists_or, exists_eq_left,
        hword, hown, true_and, List.mem_map, Except.ok.injEq, exists_eq_right]
  | case7 read cursor rest hword all others htake ih =>
    simp only [Except.ok.injEq, Prod.mk.injEq] at h
    rcases ih htake with ⟨postings, hall, hmem⟩
    refine ⟨postings, by rw [← h.1, hall], fun p => ?_⟩
    simp only [hmem, List.mem_cons, or_and_right, exists_or, exists_eq_left, hword, false_and,
      false_or]

/-- A merged word has an id for a document if some entry of the word has it. -/
theorem naming_take_iff {word : String} {read : List Posting} {cursors cursors' : List Cursor}
    (h : take word [] cursors = .ok (read, cursors')) {document id : UInt32} :
    Naming read.reverse document id ↔ ∃ cursor ∈ cursors, cursor.entry.word = word
      ∧ ∃ p, .ok p ∈ cursor.entry.stream ∧ p.document = document ∧ id ∈ p.metaIds := by
  rcases foldl_attach_of_take h with ⟨postings, hread, hmem⟩
  rw [hread, List.reverse_nil, naming_foldl_attach_iff, or_iff_right not_naming_nil]
  constructor
  · rintro ⟨p, hp, hid⟩
    rcases (hmem p).mp hp with ⟨cursor, hcursor, hword, hstream⟩
    exact ⟨cursor, hcursor, hword, p, hstream, hid⟩
  · rintro ⟨cursor, hcursor, hword, p, hstream, hid⟩
    exact ⟨p, (hmem p).mpr ⟨cursor, hcursor, hword, hstream⟩, hid⟩

/-- All postings of merged words are read and put together. -/
theorem made_of_all {cursors : List Cursor} {merged : List WordPostings}
    (h : all cursors = .ok merged) :
    ∀ word ∈ merged, ∀ p ∈ word.postings, ∃ ids, Posting.Made p ids := by
  fun_induction all cursors generalizing merged with
  | case1 =>
    rw [← Except.ok.inj h]
    exact fun word hword => absurd hword List.not_mem_nil
  | case2 | case3 => exact absurd h (by simp)
  | case4 cursors entry hsmallest read cursors' htake hweight rest hrest ih =>
    rw [← Except.ok.inj h]
    intro word hword
    rcases List.mem_cons.mp hword with rfl | hword
    · -- Whatever cursor a posting is from, it was read from the bytes of an entry.
      rcases foldl_attach_of_take htake with ⟨postings, hread, hmem⟩
      simp only [hread, List.reverse_nil]
      refine Posting.made_foldl_attach (fun p hp => absurd hp List.not_mem_nil) fun p hp => ?_
      rcases (hmem p).mp hp with ⟨cursor, -, -, hstream⟩
      exact Posting.made_of_readAll hstream
    · exact ih hrest word hword

/-- So are those of an index that is written, whatever it is made from. -/
theorem made_of_sources {segments : List Segment} {merged : List WordPostings}
    (h : sources segments = .ok merged) :
    ∀ word ∈ merged, ∀ p ∈ word.postings, ∃ ids, Posting.Made p ids := by
  rcases exists_of_sources h with ⟨cursors, -, hall⟩
  exact made_of_all hall

end Merge

end Concordance
