import Concordance.Indexing.Publication
import Concordance.Proofs.Guarded.Cursor
import Concordance.Proofs.Indexing.Calls

/-!
# Writing With Every Step Guarded

A second account of what writes word entries, in which each entry is looked at first.

An entry can be written of any word and any postings, and some of them can not be read back. A
word with a NUL ends too early, no postings leave no byte that closes them, and a distance to a
position that does not come behind the one before is a number that wrapped around. The writer is
not to be blamed: what it is given has to be `Encodable`. Here it looks, and what should not have
been asked of it is `Error.fault`.

Words are written out while documents are read, in the middle of a text if need be, and so every
step on the way there is written down again. As in reading, a guarded step that comes to what the
plain one comes to has hit no guard.

## Main definitions

* `Encodable`: A word and postings that can be written as an entry.
* `Guarded.distances`, `Guarded.encodeEntry`: Writing an entry.
* `Guarded.pushWords`, `Guarded.encodeMap`: The words of an index, and those of a run.
* `Guarded.takeAll`: What calls leave.

## Theorems

* `Guarded.encodeEntry_eq`: No guard is hit where an entry can be written.
* `Guarded.pushWords_eq`, `Guarded.encodeMap_eq`: Nor where all of them can be.
-/

namespace Concordance

/-- What the writer of an entry relies on: the word can be closed by a NUL, there are postings,
    their documents ascend, and in each of them ids ascend and positions do not descend. -/
structure Encodable (key : Bytes) (postings : List Posting) : Prop where
  nulFree : (0 : UInt8) ∉ key
  nonempty : postings ≠ []
  documents : postings.Pairwise fun p q => p.document < q.document
  metaIds : ∀ p ∈ postings, p.metaIds.Pairwise (· < ·)
  positions : ∀ p ∈ postings, p.positions.Pairwise (· ≤ ·)

instance (key : Bytes) (postings : List Posting) : Decidable (Encodable key postings) :=
  decidable_of_iff ((0 : UInt8) ∉ key ∧ postings ≠ []
      ∧ postings.Pairwise (fun p q => p.document < q.document)
      ∧ (∀ p ∈ postings, p.metaIds.Pairwise (· < ·))
      ∧ ∀ p ∈ postings, p.positions.Pairwise (· ≤ ·))
    ⟨fun ⟨h₁, h₂, h₃, h₄, h₅⟩ => ⟨h₁, h₂, h₃, h₄, h₅⟩,
      fun h => ⟨h.nulFree, h.nonempty, h.documents, h.metaIds, h.positions⟩⟩

namespace Guarded

/-- The distances between positions, none of which may be less than the one before. -/
def distances (previous : UInt32) : List UInt32 → Except Error (List UInt32)
  | [] => .ok []
  | position :: rest =>
    if previous ≤ position then (distances position rest).map ((position - previous) :: ·)
    else .error .fault

/-- The bytes of a posting. -/
def encodePosting (posting : Posting) (last : Bool) : Except Error Bytes := do
  let gaps ← distances 0 posting.positions
  return Varint.encode posting.document.toNat ++ Varint.encode posting.occurrences.toNat
    ++ Varint.encode posting.rank.toNat
    ++ Posting.encodeList Marker.metaIds posting.metaIds
    ++ Posting.encodeList Marker.positions gaps
    ++ [if last then Marker.stop else Marker.continues]

/-- The bytes of the postings of a word. -/
def encodePostings : List Posting → Except Error Bytes
  | [] => .ok []
  | [posting] => encodePosting posting true
  | posting :: next :: rest => do
    let first ← encodePosting posting false
    let others ← encodePostings (next :: rest)
    return first ++ others

/-- The bytes of a word, given by its own bytes, with its postings. -/
def encodeEntry (key : Bytes) (postings : List Posting) : Except Error Bytes :=
  if Encodable key postings then (encodePostings postings).map fun body => key ++ 0 :: body
  else .error .fault

/-- The entry of a merged word. -/
def entry (files : List Record) (merged : WordPostings) : Except Error Bytes := do
  let postings ← merged.ranked files
  encodeEntry (Utf8.bytes merged.word) postings

/-- Puts down the entries of merged words that stay, from entry `i` on. -/
def pushWords (contents : Contents) (writer : Writer) (i : Nat) :
    List WordPostings → Except Error Writer
  | [] => .ok writer
  | merged :: rest =>
    if contents.isTooCommon merged then pushWords contents writer i rest
    else
      match entry contents.files merged with
      | .error e => .error e
      | .ok bytes =>
        match writer.push .words i bytes with
        | .error e => .error e
        | .ok writer => pushWords contents writer (i + 1) rest

/-- The bytes of a run. -/
def encodeMap (words : WordMap) : Except Error Bytes := do
  let entries ← collect (words.map fun (key, postings) => encodeEntry key postings)
  return OffsetTable.encode
      (WordMap.offsetsFrom (OffsetTable.byteLength words.length) entries)
    ++ entries.flatten

/-- Writes the words in memory out as a run. -/
def flush (session : Session) : Except Error Session := do
  let run ← encodeMap session.words
  return { session with runs := session.runs ++ [run], words := [], sinceFlush := 0 }

/-- Records an occurrence of a word, and flushes if that was one too many. -/
def recordWord (session : Session) (word : String) (document position : UInt32)
    (metaId : Option UInt32) : Except Error Session :=
  let session :=
    { session with
      words := session.words.record (Utf8.bytes word) document position metaId
      sinceFlush := session.sinceFlush + 1 }
  if session.options.runSize ≤ session.sinceFlush then flush session else .ok session

/-- Takes in the next word of the document being read. -/
def readWord (session : Session) (draft : Draft) (raw : String) (metaId : Option UInt32) :
    Except Error (Session × Draft) :=
  let next :=
    { draft with
      position := addCounts draft.position 1
      words := addCounts draft.words 1 }
  match session.accept (Word.prepare raw) with
  | none => .ok (session, next)
  | some stem => (recordWord session stem draft.document draft.position metaId).map fun session =>
    (session, next)

/-- Takes in several words. -/
def readWords (session : Session) (draft : Draft) (metaId : Option UInt32) :
    List String → Except Error (Session × Draft)
  | [] => .ok (session, draft)
  | raw :: raws => do
    let (session, draft) ← readWord session draft raw metaId
    readWords session draft metaId raws

/-- Takes in a part of a document. Only words are ever written out. -/
def applyPart (session : Session) (draft : Draft) : Part → Except Error (Session × Draft)
  | .text text metaId => readWords session draft metaId (Word.candidates (Text.fold text))
  | .word raw metaId => readWord session draft raw metaId
  | part => .ok (session.applyPart draft part)

/-- What a call leaves, if it can be made. -/
def take (stage : Stage) (call : Call) : Except Error (Option Stage) :=
  match stage.draft, call with
  | some draft, .part part => (applyPart stage.session draft part).map fun (session, draft) =>
    some { session, draft }
  | _, _ => .ok (stage.take call)

/-- What several calls leave. -/
def takeAll (stage : Stage) : List Call → Except Error (Option Stage)
  | [] => .ok (some stage)
  | call :: calls =>
    match take stage call with
    | .error e => .error e
    | .ok none => .ok none
    | .ok (some next) => takeAll next calls

/-- No distance wraps around where positions do not descend. -/
theorem distances_eq {previous : UInt32} {positions : List UInt32}
    (h : (previous :: positions).Pairwise (· ≤ ·)) :
    distances previous positions = .ok (Posting.distances previous positions) := by
  induction positions generalizing previous with
  | nil => rfl
  | cons position rest ih =>
    have ⟨hfirst, hrest⟩ := List.pairwise_cons.mp h
    rw [distances, if_pos (hfirst position List.mem_cons_self), ih hrest]
    rfl

theorem encodePosting_eq {posting : Posting} (h : posting.positions.Pairwise (· ≤ ·))
    (last : Bool) : encodePosting posting last = .ok (posting.encode last) := by
  have hgaps := @distances_eq 0 posting.positions
    (List.pairwise_cons.mpr ⟨fun _ _ => UInt32.zero_le, h⟩)
  rw [encodePosting, hgaps]
  rfl

theorem encodePostings_eq {postings : List Posting}
    (h : ∀ p ∈ postings, p.positions.Pairwise (· ≤ ·)) :
    encodePostings postings = .ok (StoredWord.encodePostings postings) := by
  fun_induction encodePostings postings with
  | case1 => rfl
  | case2 posting => exact encodePosting_eq (h posting List.mem_cons_self) true
  | case3 posting next rest ih =>
    rw [encodePosting_eq (h posting List.mem_cons_self),
      ih fun p hp => h p (List.mem_cons_of_mem _ hp)]
    rfl

/-- No guard is hit where an entry can be written. -/
theorem encodeEntry_eq {key : Bytes} {postings : List Posting} (h : Encodable key postings) :
    encodeEntry key postings = .ok (key ++ 0 :: StoredWord.encodePostings postings) := by
  rw [encodeEntry, if_pos h, encodePostings_eq h.positions]
  rfl

/-- Nor is one for a merged word. -/
theorem entry_eq {files : List Record} {merged : WordPostings} {postings : List Posting}
    (hranked : merged.ranked files = .ok postings)
    (h : Encodable (Utf8.bytes merged.word) postings) :
    entry files merged = merged.entry files := by
  rw [entry, WordPostings.entry, hranked]
  show encodeEntry _ _ = .ok _
  rw [encodeEntry_eq h, StoredWord.encode, nulClosed, List.append_assoc, List.singleton_append]

/-- Nor is one where all that stay are put down. -/
theorem pushWords_eq {contents : Contents} {merged : List WordPostings}
    (h : ∀ word ∈ merged, contents.isTooCommon word = false →
      entry contents.files word = word.entry contents.files) (writer : Writer) (i : Nat) :
    pushWords contents writer i merged = contents.pushWords writer i merged := by
  induction merged generalizing writer i with
  | nil => rfl
  | cons word rest ih =>
    have hrest := ih fun other hother => h other (List.mem_cons_of_mem _ hother)
    rw [pushWords, Contents.pushWords]
    by_cases hcommon : contents.isTooCommon word = true
    · rw [if_pos hcommon, if_pos hcommon]
      exact hrest writer i
    · -- A word that stays is put down the same, so that both go on with the same writer.
      rw [if_neg hcommon, if_neg hcommon,
        h word List.mem_cons_self (Bool.eq_false_iff.mpr hcommon)]
      rcases word.entry contents.files with e | bytes
      · rfl
      · rcases hpush : writer.push .words i bytes with e | writer
        · simp only [hpush]
        · simp only [hpush]
          exact hrest writer (i + 1)

/-- Nor is one for a whole run. -/
theorem encodeMap_eq {words : WordMap} (h : ∀ e ∈ words, Encodable e.1 e.2) :
    encodeMap words = .ok words.encode := by
  have hentries : collect (words.map fun (key, postings) => encodeEntry key postings)
      = .ok words.entries := by
    rw [WordMap.entries]
    induction words with
    | nil => rfl
    | cons e words ih =>
      have hfirst := encodeEntry_eq (h e List.mem_cons_self)
      rcases e with ⟨key, postings⟩
      simp only [List.map_cons, hfirst, collect, ih fun e he => h e (List.mem_cons_of_mem _ he)]
      rfl
  rw [encodeMap, hentries]
  rfl

end Guarded

end Concordance
