import Concordance.Indexing.Session
import Concordance.Proofs.Indexing.Log

/-!
# What a Session Does

A session that is asked to do several things records a log, and registers
directories, documents and meta names.

The two have nothing to do with each other. What is recorded depends on the
candidate words of the documents and on which of them are accepted, and what is
registered depends on neither. So one equation describes a whole session
(`run_eq`): all of the log is recorded, and all that was registered is put into the
result. Everything that a session keeps or changes can be read off it.

A position is the number of candidates before it, as far as a count goes. Documents
are numbered as they come, which is why there must not be more of them than there
are numbers.

## Main definitions

* `Candidate`: A word as it was found, accepted or not.
* `corpus`: The candidates of all documents.
* `Log.ofCorpus`: What is recorded of some documents.
* `Session.recordAll`, `Session.registered`: The two halves of a session's work.

## Theorems

* `Log.ofCorpus_orderly`: Occurrences are recorded in order.
* `Session.run_eq`, `Session.run_keeps`: The state of a session after all it was
  asked to do.
* `Session.run_registers`: What is registered, however many documents there are.
-/

namespace Concordance

/-- A word as it was found, with the meta name that it was found under. -/
structure Candidate where
  raw : String
  metaId : Option UInt32
deriving DecidableEq, Repr

/-- A number of words as it is counted, up to the largest count. -/
def clip (n : Nat) : UInt32 :=
  UInt32.ofNat (min n (UInt32.size - 1))

theorem toNat_clip (n : Nat) : (clip n).toNat = min n (UInt32.size - 1) := by
  rw [clip, UInt32.toNat_ofNat', Nat.mod_eq_of_lt]
  exact Nat.lt_of_le_of_lt (Nat.min_le_right ..) (by decide)

/-- Counting one more word. -/
theorem addCounts_clip (n : Nat) : addCounts (clip n) 1 = clip (n + 1) := by
  rw [← UInt32.toNat_inj, toNat_addCounts, toNat_clip, toNat_clip]
  simp only [UInt32.reduceToNat]
  omega

namespace Log

/-- What is recorded of the candidates of a document, from candidate `start` on. -/
def ofDocument (accept : String → Option String) (document : UInt32) (start : Nat)
    (candidates : List Candidate) : Log :=
  (candidates.zipIdx start).filterMap fun (candidate, i) =>
    (accept (Word.prepare candidate.raw)).map fun stem =>
      ⟨stem, document, clip i, candidate.metaId⟩

/-- What is recorded of some documents, given their candidates. The first of them
    has the id `start`. -/
def ofCorpus (accept : String → Option String) (start : Nat)
    (corpus : List (List Candidate)) : Log :=
  (corpus.zipIdx start).flatMap fun (candidates, i) =>
    ofDocument accept (UInt32.ofNat i) 0 candidates

theorem ofDocument_append (accept : String → Option String) (document : UInt32) (start : Nat)
    (candidates more : List Candidate) :
    ofDocument accept document start (candidates ++ more)
      = ofDocument accept document start candidates
        ++ ofDocument accept document (start + candidates.length) more := by
  rw [ofDocument, List.zipIdx_append, List.filterMap_append, ← ofDocument, ← ofDocument]

theorem ofCorpus_cons (accept : String → Option String) (start : Nat)
    (candidates : List Candidate) (corpus : List (List Candidate)) :
    ofCorpus accept start (candidates :: corpus)
      = ofDocument accept (UInt32.ofNat start) 0 candidates ++ ofCorpus accept (start + 1) corpus :=
  rfl

theorem ofCorpus_append (accept : String → Option String) (start : Nat)
    (corpus more : List (List Candidate)) :
    ofCorpus accept start (corpus ++ more)
      = ofCorpus accept start corpus ++ ofCorpus accept (start + corpus.length) more := by
  rw [ofCorpus, List.zipIdx_append, List.flatMap_append, ← ofCorpus, ← ofCorpus]

/-- What is recorded of a document: one of its candidates, at its place. -/
theorem mem_ofDocument {accept : String → Option String} {document : UInt32} {start : Nat}
    {candidates : List Candidate} {occurrence : Occurrence} :
    occurrence ∈ ofDocument accept document start candidates
      ↔ ∃ i candidate stem, candidates[i]? = some candidate
        ∧ accept (Word.prepare candidate.raw) = some stem
        ∧ occurrence = ⟨stem, document, clip (start + i), candidate.metaId⟩ := by
  rw [ofDocument, List.mem_filterMap]
  constructor
  · rintro ⟨⟨candidate, j⟩, hmem, hsome⟩
    rw [List.mem_zipIdx_iff_le_and_getElem?_sub] at hmem
    rcases Option.map_eq_some_iff.mp hsome with ⟨stem, haccept, heq⟩
    -- Places are counted from the start on.
    refine ⟨j - start, candidate, stem, hmem.2, haccept, ?_⟩
    rw [Nat.add_sub_cancel' hmem.1, heq]
  · rintro ⟨i, candidate, stem, hget, haccept, rfl⟩
    refine ⟨(candidate, start + i), ?_, ?_⟩
    · rw [List.mem_zipIdx_iff_le_and_getElem?_sub]
      exact ⟨Nat.le_add_right .., by rw [Nat.add_sub_cancel_left]; exact hget⟩
    · simp only [haccept, Option.map_some]

/-- What is recorded of some documents: a candidate of one of them. -/
theorem mem_ofCorpus {accept : String → Option String} {start : Nat}
    {corpus : List (List Candidate)} {occurrence : Occurrence} :
    occurrence ∈ ofCorpus accept start corpus
      ↔ ∃ i candidates, corpus[i]? = some candidates
        ∧ occurrence ∈ ofDocument accept (UInt32.ofNat (start + i)) 0 candidates := by
  rw [ofCorpus, List.mem_flatMap]
  constructor
  · rintro ⟨⟨candidates, j⟩, hmem, hocc⟩
    rw [List.mem_zipIdx_iff_le_and_getElem?_sub] at hmem
    refine ⟨j - start, candidates, hmem.2, ?_⟩
    rw [Nat.add_sub_cancel' hmem.1]
    exact hocc
  · rintro ⟨i, candidates, hget, hocc⟩
    refine ⟨(candidates, start + i), ?_, hocc⟩
    rw [List.mem_zipIdx_iff_le_and_getElem?_sub]
    exact ⟨Nat.le_add_right .., by rw [Nat.add_sub_cancel_left]; exact hget⟩

/-- The documents of what is recorded are numbered from `start` on. -/
theorem document_of_mem_ofCorpus {accept : String → Option String} {start : Nat}
    {corpus : List (List Candidate)} (h : start + corpus.length ≤ UInt32.size)
    {occurrence : Occurrence} (hmem : occurrence ∈ ofCorpus accept start corpus) :
    start ≤ occurrence.document.toNat ∧ occurrence.document.toNat < start + corpus.length := by
  rcases mem_ofCorpus.mp hmem with ⟨i, candidates, hi, hocc⟩
  rcases mem_ofDocument.mp hocc with ⟨_, _, _, -, -, rfl⟩
  rcases List.getElem?_eq_some_iff.mp hi with ⟨hlt, -⟩
  simp only [UInt32.toNat_ofNat']
  have hs : UInt32.size = 4294967296 := rfl
  omega

/-- The occurrences of a document come by position. -/
theorem ofDocument_precedes (accept : String → Option String) (document : UInt32) (start : Nat)
    (candidates : List Candidate) :
    (ofDocument accept document start candidates).Pairwise fun a b =>
      a.posting.Precedes b.posting := by
  induction candidates generalizing start with
  | nil => exact List.Pairwise.nil
  | cons candidate candidates ih =>
    have hsplit := ofDocument_append accept document start [candidate] candidates
    rw [List.singleton_append, List.length_singleton] at hsplit
    rw [hsplit]
    refine List.pairwise_append.mpr ⟨?_, ih _, ?_⟩
    · rw [ofDocument, List.zipIdx_cons, List.zipIdx_nil]
      rcases haccept : accept (Word.prepare candidate.raw) with _ | stem
      · simp [haccept]
      · simp [haccept]
    · intro a ha b hb
      rcases mem_ofDocument.mp ha with ⟨i, _, _, hi, -, rfl⟩
      rcases mem_ofDocument.mp hb with ⟨j, _, _, -, -, rfl⟩
      -- The first candidate is alone in the front part.
      have hzero : i = 0 := by
        rcases List.getElem?_eq_some_iff.mp hi with ⟨hlt, -⟩
        simpa using hlt
      refine Or.inr ⟨rfl, fun x hx y hy => ?_⟩
      rw [List.mem_singleton.mp hx, List.mem_singleton.mp hy, UInt32.le_iff_toNat_le, toNat_clip,
        toNat_clip]
      omega

/-- The occurrences of documents come by document, as far as there are numbers. -/
theorem ofCorpus_orderly {accept : String → Option String}
    (hnul : ∀ word stem, accept word = some stem → NulFree stem) {start : Nat}
    {corpus : List (List Candidate)} (h : start + corpus.length ≤ UInt32.size) :
    (ofCorpus accept start corpus).Orderly := by
  refine ⟨fun occurrence hmem => ?_, ?_⟩
  · rcases mem_ofCorpus.mp hmem with ⟨_, _, _, hocc⟩
    rcases mem_ofDocument.mp hocc with ⟨_, _, _, -, haccept, rfl⟩
    exact hnul _ _ haccept
  · induction corpus generalizing start with
    | nil => exact List.Pairwise.nil
    | cons candidates corpus ih =>
      rw [List.length_cons] at h
      rw [ofCorpus_cons]
      refine List.pairwise_append.mpr ⟨ofDocument_precedes .., ih (by omega), ?_⟩
      intro a ha b hb
      rcases mem_ofDocument.mp ha with ⟨_, _, _, -, -, rfl⟩
      rcases mem_ofCorpus.mp hb with ⟨j, _, hj, hocc⟩
      rcases mem_ofDocument.mp hocc with ⟨_, _, _, -, -, rfl⟩
      rcases List.getElem?_eq_some_iff.mp hj with ⟨hlt, -⟩
      -- Documents are numbered one by one, and the numbers do not wrap around.
      refine Or.inl ?_
      show UInt32.ofNat start < UInt32.ofNat (start + 1 + j)
      rw [UInt32.lt_iff_toNat_lt, UInt32.toNat_ofNat', UInt32.toNat_ofNat']
      have hs : UInt32.size = 4294967296 := rfl
      omega

end Log

namespace Part

/-- The candidates in a part of a document. -/
def candidates : Part → List Candidate
  | .text content metaId => (Word.candidates (Text.fold content)).map (⟨·, metaId⟩)
  | .word raw metaId => [⟨raw, metaId⟩]
  | .title _ => []
  | .metaName _ => []

/-- The title of a document behind a part. -/
def retitled (title : String) : Part → String
  | .title other => other
  | _ => title

/-- The meta names that a part asks for. -/
def names : Part → List String
  | .metaName name => [name]
  | _ => []

end Part

namespace Operation

/-- The candidates of a document, if one is read. -/
def candidates? : Operation → Option (List Candidate)
  | .file _ _ _ _ parts => some (parts.flatMap Part.candidates)
  | _ => none

/-- The record of a document, if one is read. -/
def record? : Operation → Option Record
  | .file place name size title parts => some {
      directory := place, name, size
      words := clip (parts.flatMap Part.candidates).length
      title := parts.foldl Part.retitled (title.getD name) }
  | _ => none

/-- The directory that is asked for, if one is. -/
def path? : Operation → Option String
  | .directory place => some place
  | _ => none

/-- The meta names that are asked for. -/
def names : Operation → List String
  | .metaName name => [name]
  | .file _ _ _ _ parts => parts.flatMap Part.names
  | _ => []

end Operation

/-- The candidates of all documents that are read. -/
def corpus (operations : List Operation) : List (List Candidate) :=
  operations.filterMap Operation.candidates?

/-- The records of all documents that are read. -/
def records (operations : List Operation) : List Record :=
  operations.filterMap Operation.record?

/-- The record of a document has the number of its candidates. -/
theorem words_records (operations : List Operation) :
    (records operations).map Record.words
      = (corpus operations).map fun candidates => clip candidates.length := by
  induction operations with
  | nil => rfl
  | cons op operations ih =>
    cases op with
    | directory path => exact ih
    | metaName name => exact ih
    | file directory name size title parts => exact congrArg (_ :: ·) ih

theorem length_corpus (operations : List Operation) :
    (corpus operations).length = (records operations).length := by
  have hlength := congrArg List.length (words_records operations)
  rw [List.length_map, List.length_map] at hlength
  exact hlength.symm

/-- Directories with one more, if it is not among them. -/
def addDirectory (directories : List String) (path : String) : List String :=
  match directories.idxOf? path with
  | some _ => directories
  | none => directories ++ [path]

/-- Meta names with one more, if its folded form is not among them. -/
def addName (metaNames : List (String × UInt32)) (name : String) : List (String × UInt32) :=
  match metaNames.lookup (Text.fold name) with
  | some _ => metaNames
  | none => metaNames ++ [(Text.fold name, UInt32.ofNat metaNames.length)]

namespace Session

/-- A word is accepted if it passes the check and neither it nor its stem is a stop
    word. -/
theorem accept_eq_some_iff {session : Session} {word stem : String} :
    session.accept word = some stem ↔ Word.check session.options.sizes word = none
      ∧ session.stopWords.contains word = false ∧ session.stopWords.contains stem = false
      ∧ stem = session.stemmer word := by
  rw [accept]
  rcases hcheck : Word.check session.options.sizes word with _ | rejection
  · rcases hword : session.stopWords.contains word with _ | _
    · simp only [Option.isSome_none, Bool.false_eq_true, if_false]
      by_cases hstem : session.stemmer word ≠ word
          ∧ session.stopWords.contains (session.stemmer word) = true
      · rw [if_pos hstem]
        refine ⟨fun h => absurd h (by simp), ?_⟩
        rintro ⟨-, -, hcontains, rfl⟩
        rw [hstem.2] at hcontains
        exact absurd hcontains (by simp)
      · rw [if_neg hstem]
        constructor
        · intro h
          have heq := Option.some.inj h
          refine ⟨trivial, trivial, ?_, heq.symm⟩
          rw [← heq]
          -- The stem is only looked up where it is another word. Else the word was.
          by_cases hsame : session.stemmer word = word
          · rw [hsame]
            exact hword
          · exact Bool.eq_false_iff.mpr fun hcontains => hstem ⟨hsame, hcontains⟩
        · rintro ⟨-, -, -, rfl⟩
          rfl
    · simp
  · simp

/-- A session with one more occurrence in memory. -/
def noted (session : Session) (occurrence : Occurrence) : Session :=
  { session with
    words := Log.add session.words occurrence
    sinceFlush := session.sinceFlush + 1 }

/-- A session with one more occurrence recorded. -/
def recordOne (session : Session) (occurrence : Occurrence) : Session :=
  session.record occurrence.word occurrence.document occurrence.position occurrence.metaId

/-- A session with several more occurrences recorded. -/
def recordAll (session : Session) (log : Log) : Session :=
  log.foldl recordOne session

/-- A session in which these are registered. -/
def registered (session : Session) (files : List Record) (directories : List String)
    (metaNames : List (String × UInt32)) : Session :=
  { session with files, directories, metaNames }

section Record

variable (session : Session)

/-- What recording does: the map takes the occurrence in, and is written out if
    that was one too many. -/
theorem recordOne_eq (occurrence : Occurrence) :
    session.recordOne occurrence
      = if session.options.runSize ≤ session.sinceFlush + 1 then (session.noted occurrence).flush
        else session.noted occurrence :=
  rfl

theorem recordAll_append (log more : Log) :
    session.recordAll (log ++ more) = (session.recordAll log).recordAll more :=
  List.foldl_append

/-- Recording leaves what decides about words. -/
theorem accept_recordOne (occurrence : Occurrence) :
    (session.recordOne occurrence).accept = session.accept := by
  rw [recordOne_eq]
  split <;> rfl

theorem accept_recordAll (log : Log) : (session.recordAll log).accept = session.accept := by
  induction log generalizing session with
  | nil => rfl
  | cons occurrence log ih => exact (ih _).trans (session.accept_recordOne occurrence)

variable (files : List Record) (directories : List String) (metaNames : List (String × UInt32))

/-- What is registered has no part in recording. -/
theorem recordOne_registered (occurrence : Occurrence) :
    (session.registered files directories metaNames).recordOne occurrence
      = (session.recordOne occurrence).registered files directories metaNames := by
  by_cases h : session.options.runSize ≤ session.sinceFlush + 1
  · calc (session.registered files directories metaNames).recordOne occurrence
        = ((session.registered files directories metaNames).noted occurrence).flush := if_pos h
      _ = (session.noted occurrence).flush.registered files directories metaNames := rfl
      _ = (session.recordOne occurrence).registered files directories metaNames := by
        rw [recordOne_eq, if_pos h]
  · calc (session.registered files directories metaNames).recordOne occurrence
        = (session.registered files directories metaNames).noted occurrence := if_neg h
      _ = (session.noted occurrence).registered files directories metaNames := rfl
      _ = (session.recordOne occurrence).registered files directories metaNames := by
        rw [recordOne_eq, if_neg h]

theorem recordAll_registered (log : Log) :
    (session.registered files directories metaNames).recordAll log
      = (session.recordAll log).registered files directories metaNames := by
  induction log generalizing session with
  | nil => rfl
  | cons occurrence log ih =>
    rw [recordAll, List.foldl_cons, recordOne_registered]
    exact ih _

end Record

end Session

/-- A document being read, so many candidates into it. -/
def Draft.at (document : UInt32) (count : Nat) : Draft :=
  ⟨document, clip count, clip count⟩

namespace Session

variable (session : Session) (document : UInt32) (count : Nat)

/-- The next word of a document is recorded if it is accepted. -/
theorem readWord_eq (raw : String) (metaId : Option UInt32) :
    session.readWord (Draft.at document count) raw metaId
      = (session.recordAll (Log.ofDocument session.accept document count [⟨raw, metaId⟩]),
          Draft.at document (count + 1)) := by
  rw [readWord]
  simp only [Draft.at, addCounts_clip, Log.ofDocument, List.zipIdx_cons, List.zipIdx_nil,
    List.filterMap_cons, List.filterMap_nil]
  rcases session.accept (Word.prepare raw) with _ | stem
  · rfl
  · rfl

/-- So are the next words. -/
theorem readWords_eq (raws : List String) (metaId : Option UInt32) :
    session.readWords (Draft.at document count) raws metaId
      = (session.recordAll (Log.ofDocument session.accept document count
            (raws.map (⟨·, metaId⟩))),
          Draft.at document (count + raws.length)) := by
  induction raws generalizing session count with
  | nil => rfl
  | cons raw raws ih =>
    have hsplit := Log.ofDocument_append session.accept document count [⟨raw, metaId⟩]
      (raws.map (⟨·, metaId⟩))
    rw [readWords, List.foldl_cons, ← readWords, readWord_eq, ih, accept_recordAll,
      ← recordAll_append]
    rw [List.singleton_append, List.length_singleton] at hsplit
    rw [List.map_cons, hsplit, List.length_cons, Nat.add_assoc, Nat.add_comm 1]

variable (files : List Record) (directories : List String) (metaNames : List (String × UInt32))

/-- The next part of a document: its candidates are recorded, and what it asks for
    is registered. -/
theorem applyPart_eq (part : Part) :
    (session.registered files directories metaNames).applyPart (Draft.at document count) part
      = ((session.recordAll
            (Log.ofDocument session.accept document count part.candidates)).registered
            (files.modify document.toNat fun record =>
              { record with title := part.retitled record.title })
            directories (part.names.foldl addName metaNames),
          Draft.at document (count + part.candidates.length)) := by
  have hkeep : ∀ fs : List Record, fs.modify document.toNat (fun record =>
      { record with title := record.title }) = fs := fun fs => List.modify_id _ fs
  -- Each part does one thing, and so leaves the other two as they are.
  cases part with
  | text text metaId =>
    rw [applyPart, readText, readWords_eq, recordAll_registered]
    simp only [Part.candidates, Part.retitled, Part.names, List.foldl_nil, List.length_map, hkeep]
    rfl
  | word raw metaId =>
    rw [applyPart, readWord_eq, recordAll_registered]
    simp only [Part.candidates, Part.retitled, Part.names, List.foldl_nil, hkeep]
    rfl
  | title title => rfl
  | metaName name =>
    simp only [applyPart, internName, registered, Part.candidates, Part.retitled, Part.names,
      List.foldl_cons, List.foldl_nil, hkeep, addName]
    rcases metaNames.lookup (Text.fold name) with _ | id
    · rfl
    · rfl

/-- Several parts. -/
theorem foldl_applyPart_eq (parts : List Part) :
    parts.foldl (fun (session, draft) part => session.applyPart draft part)
        (session.registered files directories metaNames, Draft.at document count)
      = ((session.recordAll (Log.ofDocument session.accept document count
            (parts.flatMap Part.candidates))).registered
            (files.modify document.toNat fun record =>
              { record with title := parts.foldl Part.retitled record.title })
            directories ((parts.flatMap Part.names).foldl addName metaNames),
          Draft.at document (count + (parts.flatMap Part.candidates).length)) := by
  induction parts generalizing session count files metaNames with
  | nil =>
    have hkeep : files.modify document.toNat (fun record =>
      { record with title := record.title }) = files := List.modify_id _ files
    simp only [List.foldl_nil, List.flatMap_nil, hkeep]
    rfl
  | cons part parts ih =>
    rw [List.foldl_cons]
    simp only [applyPart_eq, ih, accept_recordAll]
    -- What the first part does and what the others do is put one behind the other.
    rw [← recordAll_append, List.modify_modify_eq, List.flatMap_cons, List.flatMap_cons,
      Log.ofDocument_append, List.foldl_append, List.length_append, Nat.add_assoc]
    rfl

/-- The last of some things is changed. -/
theorem modify_concat {α : Type} (as : List α) (a : α) (f : α → α) :
    (as ++ [a]).modify as.length f = as ++ [f a] := by
  induction as with
  | nil => rfl
  | cons b as ih => exact congrArg (b :: ·) ih

/-- Beginning, reading and ending a document are three steps of one computation. -/
theorem addDocument_steps (directory : UInt32) (name : String) (size : UInt64)
    (title : Option String) (parts : List Part) :
    session.addDocument directory name size title parts
      = endDocument
        (parts.foldl (fun (session, draft) part => session.applyPart draft part)
          (session.registered
            (session.files ++ [{ directory, name, size, title := title.getD name }])
            session.directories session.metaNames,
          Draft.at (UInt32.ofNat session.files.length) 0)).1
        (parts.foldl (fun (session, draft) part => session.applyPart draft part)
          (session.registered
            (session.files ++ [{ directory, name, size, title := title.getD name }])
            session.directories session.metaNames,
          Draft.at (UInt32.ofNat session.files.length) 0)).2 :=
  rfl

/-- A whole document, if there is a number for it. -/
theorem addDocument_eq (directory : UInt32) (name : String) (size : UInt64)
    (title : Option String) (parts : List Part) (h : session.files.length < UInt32.size) :
    session.addDocument directory name size title parts
      = (session.recordAll (Log.ofDocument session.accept (UInt32.ofNat session.files.length) 0
            (parts.flatMap Part.candidates))).registered
          (session.files ++ records [.file directory name size title parts])
          session.directories ((parts.flatMap Part.names).foldl addName session.metaNames) := by
  have hid : (UInt32.ofNat session.files.length).toNat = session.files.length := by
    rw [UInt32.toNat_ofNat', Nat.mod_eq_of_lt h]
  -- The record is there before the first part, with no words in it.
  have hparts := foldl_applyPart_eq session (UInt32.ofNat session.files.length) 0
    (session.files ++ [{ directory, name, size, title := title.getD name }])
    session.directories session.metaNames parts
  rw [hid, modify_concat, Nat.zero_add] at hparts
  rw [addDocument_steps, hparts, endDocument]
  simp only [Draft.at, hid, registered, modify_concat]
  rfl

theorem internDirectory_eq (path : String) :
    (session.internDirectory path).1
      = session.registered session.files (addDirectory session.directories path)
          session.metaNames := by
  rw [internDirectory, addDirectory]
  rcases session.directories.idxOf? path with _ | i
  · rfl
  · rfl

theorem internName_eq (name : String) :
    (session.internName name).1
      = session.registered session.files session.directories (addName session.metaNames name) := by
  rw [internName, addName]
  rcases session.metaNames.lookup (Text.fold name) with _ | id
  · rfl
  · rfl

/-- One thing that a session is asked to do. -/
theorem apply_eq (op : Operation)
    (h : session.files.length + (records [op]).length ≤ UInt32.size) :
    session.apply op
      = (session.recordAll
            (Log.ofCorpus session.accept session.files.length (corpus [op]))).registered
          (session.files ++ records [op])
          (([op].filterMap Operation.path?).foldl addDirectory session.directories)
          (op.names.foldl addName session.metaNames) := by
  cases op with
  | directory path =>
    rw [apply, internDirectory_eq, records, List.filterMap_cons, List.filterMap_nil]
    simp only [Operation.record?, List.append_nil]
    rfl
  | metaName name =>
    rw [apply, internName_eq, records, List.filterMap_cons, List.filterMap_nil]
    simp only [Operation.record?, List.append_nil]
    rfl
  | file directory name size title parts =>
    have hroom : session.files.length < UInt32.size := Nat.lt_of_succ_le h
    rw [apply, addDocument_eq _ _ _ _ _ _ hroom]
    -- The corpus has one document, which is given the next number.
    have hlog : Log.ofCorpus session.accept session.files.length
        (corpus [.file directory name size title parts])
        = Log.ofDocument session.accept (UInt32.ofNat session.files.length) 0
          (parts.flatMap Part.candidates) := List.append_nil _
    rw [hlog]
    rfl

/-- A session after all it was asked to do. -/
theorem run_eq (operations : List Operation)
    (h : session.files.length + (records operations).length ≤ UInt32.size) :
    session.run operations
      = (session.recordAll
            (Log.ofCorpus session.accept session.files.length (corpus operations))).registered
          (session.files ++ records operations)
          ((operations.filterMap Operation.path?).foldl addDirectory session.directories)
          ((operations.flatMap Operation.names).foldl addName session.metaNames) := by
  induction operations generalizing session with
  | nil =>
    simp only [records, List.filterMap_nil, List.append_nil, List.foldl_nil, List.flatMap_nil]
    rfl
  | cons op operations ih =>
    have hrecords : records (op :: operations) = records [op] ++ records operations :=
      List.filterMap_append (l := [op])
    have hcorpus : corpus (op :: operations) = corpus [op] ++ corpus operations :=
      List.filterMap_append (l := [op])
    have hpaths : (op :: operations).filterMap Operation.path?
        = [op].filterMap Operation.path? ++ operations.filterMap Operation.path? :=
      List.filterMap_append (l := [op])
    rw [hrecords, List.length_append] at h
    -- The first operation changes what the others find: one more document, or a name.
    have hop := session.apply_eq op (by omega)
    have hfiles : (session.apply op).files = session.files ++ records [op] := by
      rw [hop]
      rfl
    have haccept : (session.apply op).accept = session.accept := by
      rw [hop]
      exact session.accept_recordAll _
    have hrest := ih (session.apply op) (by rw [hfiles, List.length_append]; omega)
    rw [run, List.foldl_cons, ← run, hrest, hfiles, haccept, hop, recordAll_registered, hrecords,
      hcorpus, hpaths, Log.ofCorpus_append, recordAll_append, length_corpus, List.foldl_append,
      List.flatMap_cons, List.foldl_append, List.append_assoc, List.length_append]
    rfl

/-- Recording changes what is in memory and in the runs. -/
theorem recordAll_keeps (log : Log) : ∃ words sinceFlush runs,
    session.recordAll log = { session with words, sinceFlush, runs } := by
  induction log generalizing session with
  | nil => exact ⟨session.words, session.sinceFlush, session.runs, rfl⟩
  | cons occurrence log ih =>
    rcases ih (session.recordOne occurrence) with ⟨words, sinceFlush, runs, hrest⟩
    refine ⟨words, sinceFlush, runs, hrest.trans ?_⟩
    rw [recordOne_eq]
    split <;> rfl

/-- What a session is asked to do leaves its rules and what it adds to, and only adds
    to what is registered. -/
theorem run_keeps (operations : List Operation)
    (h : session.files.length + (records operations).length ≤ UInt32.size) :
    ∃ words sinceFlush runs, session.run operations = { session with
      words, sinceFlush, runs
      files := session.files ++ records operations
      directories := (operations.filterMap Operation.path?).foldl addDirectory session.directories
      metaNames := (operations.flatMap Operation.names).foldl addName session.metaNames } := by
  obtain ⟨words, sinceFlush, runs, hrecord⟩ := session.recordAll_keeps
    (Log.ofCorpus session.accept session.files.length (corpus operations))
  refine ⟨words, sinceFlush, runs, ?_⟩
  rw [run_eq session operations h, hrecord]
  rfl

/-- What a document leaves, whether or not there is a number for it. -/
theorem addDocument_registers (directory : UInt32) (name : String) (size : UInt64)
    (title : Option String) (parts : List Part) : ∃ words sinceFlush runs files,
    session.addDocument directory name size title parts = { session with
      words, sinceFlush, runs, files
      metaNames := (parts.flatMap Part.names).foldl addName session.metaNames } := by
  obtain ⟨words, sinceFlush, runs, hrecord⟩ := session.recordAll_keeps
    (Log.ofDocument session.accept (UInt32.ofNat session.files.length) 0
      (parts.flatMap Part.candidates))
  have hparts := foldl_applyPart_eq session (UInt32.ofNat session.files.length) 0
    (session.files ++ [{ directory, name, size, title := title.getD name }])
    session.directories session.metaNames parts
  rw [hrecord] at hparts
  refine ⟨words, sinceFlush, runs, (session.addDocument directory name size title parts).files, ?_⟩
  rw [addDocument_steps, hparts]
  rfl

/-- What a session is asked to do only adds to what is registered, however many documents it
    has. -/
theorem run_registers (operations : List Operation) : ∃ words sinceFlush runs files,
    session.run operations = { session with
      words, sinceFlush, runs, files
      directories := (operations.filterMap Operation.path?).foldl addDirectory session.directories
      metaNames := (operations.flatMap Operation.names).foldl addName session.metaNames } := by
  induction operations generalizing session with
  | nil => exact ⟨session.words, session.sinceFlush, session.runs, session.files, rfl⟩
  | cons op operations ih =>
    have hop : ∃ words sinceFlush runs files, session.apply op = { session with
        words, sinceFlush, runs, files
        directories := ([op].filterMap Operation.path?).foldl addDirectory session.directories
        metaNames := op.names.foldl addName session.metaNames } := by
      cases op with
      | directory path =>
        exact ⟨session.words, session.sinceFlush, session.runs, session.files,
          session.internDirectory_eq path⟩
      | metaName name =>
        exact ⟨session.words, session.sinceFlush, session.runs, session.files,
          session.internName_eq name⟩
      | file directory name size title parts =>
        exact session.addDocument_registers directory name size title parts
    -- The other operations register behind this one.
    rcases hop with ⟨_, _, _, _, hop⟩
    rcases ih (session.apply op) with ⟨words, sinceFlush, runs, files, hrest⟩
    have hpaths : (op :: operations).filterMap Operation.path?
        = [op].filterMap Operation.path? ++ operations.filterMap Operation.path? :=
      List.filterMap_append (l := [op])
    refine ⟨words, sinceFlush, runs, files, ?_⟩
    rw [run, List.foldl_cons, ← run, hrest, hop, hpaths, List.foldl_append, List.flatMap_cons,
      List.foldl_append]

/-- It has one more document for each record. -/
theorem length_files_run (operations : List Operation)
    (h : session.files.length + (records operations).length ≤ UInt32.size) :
    (session.run operations).files.length
      = session.files.length + (records operations).length := by
  rcases session.run_keeps operations h with ⟨words, sinceFlush, runs, hkeeps⟩
  rw [hkeeps, List.length_append]

end Session

end Concordance
