import Concordance.Indexing.Walk
import Concordance.Proofs.Indexing.Atomicity
import Concordance.Proofs.Indexing.Calls
import Concordance.Proofs.Indexing.Published

/-!
# Every Recorded Word Is Accounted For

How many runs a session has written, and how many words it still has in memory.

A session has no count of all the words that it has recorded. It counts the words since the last
run, puts them into a map, and has a list of runs, and these three are changed in different
places. They belong together all the same. A run is written as soon as there are enough words for
one, and so there are as many in every run, and fewer in memory (`Session.Accounts`). The number of
words is then the number of runs and a rest, as in a division.

What a session is asked to do comes down to recording one accepted word after the other and to
registering things, which has no part in this (`Session.Records`). The words that are rejected and
the stop words are not recorded, and so they do not count.

A count of occurrences stops at the largest number. As long as none has got there, the occurrences
in the map are the words since the last run. They need not be looked at before that: counts only
grow until the map is written out, so that if they are exact now they always were.

## Main definitions

* `WordMap.occurrences`, `WordMap.Exact`: What a map holds, and that nothing in it was cut short.
* `Session.Accounts`: A session that has recorded so many words.
* `Session.accepted`: How many of some candidates are recorded.
* `Session.Records`: A session before and after it has recorded so many words.
* `Stage.Reached`: A session that was begun, and what it was asked to do.

## Theorems

* `WordMap.occurrences_record`: One more occurrence.
* `Session.Accounts.recordOne`: What a word leaves, written out or not.
* `Session.Accounts.sources_of_finish`: How many sources an index is merged of.
* `Stage.Takes.records`: What a call records.
* `Stage.Reached.runs_accounted`: Runs, memory and sources of any session.
-/

namespace Concordance

namespace WordMap

/-- The occurrences that some postings count. -/
def counted (postings : List Posting) : Nat :=
  total (fun posting => posting.occurrences.toNat) postings

@[simp]
theorem counted_nil : counted [] = 0 :=
  rfl

@[simp]
theorem counted_cons (posting : Posting) (postings : List Posting) :
    counted (posting :: postings) = posting.occurrences.toNat + counted postings :=
  rfl

/-- The occurrences that a map holds. -/
def occurrences (words : WordMap) : Nat :=
  total (fun entry => counted entry.2) words

@[simp]
theorem occurrences_nil : occurrences [] = 0 :=
  rfl

@[simp]
theorem occurrences_cons (entry : Bytes × List Posting) (words : WordMap) :
    occurrences (entry :: words) = counted entry.2 + occurrences words :=
  rfl

/-- No count of some postings has come to the largest one, at which it would have stopped. -/
def CountsExact (postings : List Posting) : Prop :=
  ∀ posting ∈ postings, posting.occurrences.toNat < UInt32.size - 1

instance (postings : List Posting) : Decidable (CountsExact postings) :=
  inferInstanceAs (Decidable (∀ posting ∈ postings, _))

/-- No count of a map has. -/
def Exact (words : WordMap) : Prop :=
  ∀ entry ∈ words, CountsExact entry.2

instance (words : WordMap) : Decidable (Exact words) :=
  inferInstanceAs (Decidable (∀ entry ∈ words, _))

variable {key : Bytes} {document position : UInt32} {metaId : Option UInt32}

/-- A count that has not stopped is one more than it was. -/
theorem occurrences_note {posting : Posting}
    (h : (note position metaId posting).occurrences.toNat < UInt32.size - 1) :
    (note position metaId posting).occurrences.toNat = posting.occurrences.toNat + 1 := by
  have hcount : (note position metaId posting).occurrences.toNat
      = min (posting.occurrences.toNat + 1) (UInt32.size - 1) :=
    toNat_addCounts posting.occurrences 1
  omega

/-- One more occurrence of a word is counted by one of its postings. If no count has stopped
    then, none had before. -/
theorem counted_noteIn {postings : List Posting}
    (h : CountsExact (noteIn document position metaId postings)) :
    CountsExact postings ∧ counted (noteIn document position metaId postings)
      = counted postings + 1 := by
  fun_induction noteIn document position metaId postings with
  | case1 =>
    have hnote := occurrences_note (h _ List.mem_cons_self)
    refine ⟨fun posting hposting => absurd hposting List.not_mem_nil, ?_⟩
    rw [counted_cons, hnote]
    rfl
  | case2 posting hsame =>
    have hnote := occurrences_note (h _ List.mem_cons_self)
    have hless := h _ List.mem_cons_self
    refine ⟨List.forall_mem_singleton.mpr (by omega), ?_⟩
    simp only [counted_cons, counted_nil]
    omega
  | case3 posting hother =>
    -- The last posting is of another document, so that a new one is begun.
    obtain ⟨hfirst, hrest⟩ := List.forall_mem_cons.mp h
    have hnote := occurrences_note (hrest _ List.mem_cons_self)
    refine ⟨List.forall_mem_singleton.mpr hfirst, ?_⟩
    simp only [counted_cons, counted_nil, hnote]
    rfl
  | case4 posting next rest ih =>
    obtain ⟨hfirst, hrest⟩ := List.forall_mem_cons.mp h
    obtain ⟨hexact, hcounted⟩ := ih hrest
    refine ⟨List.forall_mem_cons.mpr ⟨hfirst, hexact⟩, ?_⟩
    simp only [counted_cons] at hcounted ⊢
    omega

/-- So it is for a map. -/
theorem occurrences_record {words : WordMap}
    (h : Exact (words.record key document position metaId)) :
    words.Exact ∧ (words.record key document position metaId).occurrences
      = words.occurrences + 1 := by
  fun_induction WordMap.record key document position metaId words with
  | case1 =>
    obtain ⟨-, hcounted⟩ := counted_noteIn (h _ List.mem_cons_self)
    refine ⟨fun entry hentry => absurd hentry List.not_mem_nil, ?_⟩
    rw [occurrences_cons, hcounted]
    rfl
  | case2 postings rest =>
    obtain ⟨hfirst, hrest⟩ := List.forall_mem_cons.mp h
    obtain ⟨hexact, hcounted⟩ := counted_noteIn hfirst
    refine ⟨List.forall_mem_cons.mpr ⟨hexact, hrest⟩, ?_⟩
    simp only [occurrences_cons]
    omega
  | case3 other postings rest hne hlt =>
    -- The word is new, and has one occurrence.
    obtain ⟨hfirst, hrest⟩ := List.forall_mem_cons.mp h
    obtain ⟨-, hcounted⟩ := counted_noteIn hfirst
    refine ⟨hrest, ?_⟩
    rw [counted_nil] at hcounted
    simp only [occurrences_cons]
    omega
  | case4 other postings rest hne hlt ih =>
    obtain ⟨hfirst, hrest⟩ := List.forall_mem_cons.mp h
    obtain ⟨hexact, hcounted⟩ := ih hrest
    refine ⟨List.forall_mem_cons.mpr ⟨hfirst, hexact⟩, ?_⟩
    simp only [occurrences_cons]
    omega

/-- A map with an occurrence in it is not empty. -/
theorem record_ne_nil (words : WordMap) : words.record key document position metaId ≠ [] := by
  cases words with
  | nil => exact List.cons_ne_nil _ _
  | cons entry rest =>
    rw [WordMap.record]
    split
    · exact List.cons_ne_nil _ _
    · split
      · exact List.cons_ne_nil _ _
      · exact List.cons_ne_nil _ _

end WordMap

/-- The candidates that a call brings. -/
def Call.candidates : Call → List Candidate
  | .part inner => inner.candidates
  | _ => []

namespace Walk

/-- The candidates in a file, of which the text is read. -/
def Finding.candidates : Finding → List Candidate
  | .file _ content => (Part.text (Utf8.decodeLossy content) none).candidates
  | .skipped _ => []

/-- What is come upon at a path. -/
def findingsAt (options : WalkOptions) (disk : Disk) (path : String) :
    Except Error (List Finding) :=
  match disk.node false path with
  | .error cause => .error (.cannotOpen path cause)
  | .ok (.file content) => .ok [.file path content]
  | .ok _ =>
    match disk.list path with
    | .error _ => .ok [.skipped path]
    | .ok entries => .ok (visit options [(path, entries)])

end Walk

/-- This is what a session takes in. -/
theorem Session.addTree_eq (session : Session) (disk : Disk) (path : String)
    (options : WalkOptions) :
    session.addTree disk path options
      = (Walk.findingsAt options disk path).map (session.addFindings {}) := by
  rw [addTree, Walk.findingsAt]
  rcases disk.node false path with cause | node
  · rfl
  · cases node with
    | file content => rfl
    | link target | directory inner =>
      rcases disk.list path with cause | entries
      · rfl
      · rfl

namespace Session

/-- A session that has recorded so many words. Its runs have as many each as it may hold in
    memory, and what is in memory are the others. -/
structure Accounts (session : Session) (recorded : Nat) : Prop where
  runs : session.runs.length * session.options.runSize + session.sinceFlush = recorded
  room : session.sinceFlush < session.options.runSize
  isEmpty : session.words = [] ↔ session.sinceFlush = 0
  held : session.words.Exact → session.words.occurrences = session.sinceFlush

/-- A run has room for at least one word. -/
theorem runSize_pos {disk : Disk} {options : IndexingOptions} {stopWords : StopWords}
    {session : Session} (h : start? disk options stopWords = .ok session) :
    0 < options.runSize := by
  rw [start?] at h
  rcases exists_of_bind h with ⟨⟨⟩, hvalid, -⟩
  rw [IndexingOptions.validate] at hvalid
  by_cases hzero : options.runSize = 0
  · rw [if_pos hzero] at hvalid
    exact absurd hvalid (by simp)
  · exact Nat.pos_of_ne_zero hzero

/-- A session that adds to an index is started like any other. -/
theorem exists_start_of_extend? {disk : Disk} {path : String} {options : IndexingOptions}
    {session : Session} (h : extend? disk path options = .ok session) :
    ∃ started, start? disk options .empty = .ok started := by
  rcases hfile : disk.openFile path with cause | bytes
  · rw [extend?, hfile] at h
    exact absurd h (by simp)
  · rw [extend?, hfile] at h
    rcases exists_of_bind h with ⟨index, -, h⟩
    rcases exists_of_bind h with ⟨started, hstarted, -⟩
    exact ⟨started, hstarted⟩

/-- A session without words and runs has recorded nothing. -/
theorem Accounts.start {session : Session} (hpos : 0 < session.options.runSize)
    (hwords : session.words = []) (hsince : session.sinceFlush = 0) (hruns : session.runs = []) :
    session.Accounts 0 := by
  refine ⟨?_, hsince ▸ hpos, iff_of_true hwords hsince, fun _ => ?_⟩
  · rw [hruns, hsince, List.length_nil, Nat.zero_mul]
  · rw [hwords, hsince, WordMap.occurrences_nil]

/-- How many of some candidates are recorded. -/
def accepted (session : Session) (candidates : List Candidate) : Nat :=
  candidates.countP fun candidate => (session.accept (Word.prepare candidate.raw)).isSome

theorem accepted_append (session : Session) (front behind : List Candidate) :
    session.accepted (front ++ behind) = session.accepted front + session.accepted behind :=
  List.countP_append

/-- A session before and after it has recorded so many words, and registered whatever it has. -/
def Records (session : Session) (recorded : Nat) (after : Session) : Prop :=
  ∃ log : Log, ∃ files directories metaNames, log.length = recorded
    ∧ after = (session.recordAll log).registered files directories metaNames

namespace Accounts

variable {session : Session} {recorded : Nat}

/-- A word more. Either there is room for another one behind it, or it was the last one of a
    run. -/
theorem recordOne (h : session.Accounts recorded) (occurrence : Occurrence) :
    (session.recordOne occurrence).Accounts (recorded + 1) := by
  have hruns := h.runs
  have hroom := h.room
  rw [recordOne_eq]
  by_cases hfull : session.options.runSize ≤ session.sinceFlush + 1
  · -- There was room for one word only, so that the run is as long as it may be.
    rw [if_pos hfull]
    have hlength : (session.noted occurrence).flush.runs.length = session.runs.length + 1 :=
      List.length_append
    have hsize : (session.noted occurrence).flush.options.runSize = session.options.runSize := rfl
    have hnone : (session.noted occurrence).flush.sinceFlush = 0 := rfl
    refine ⟨?_, ?_, iff_of_true rfl rfl, fun _ => rfl⟩
    · rw [hlength, hsize, hnone, Nat.add_mul]
      omega
    · omega
  · -- The word stays in memory, where there is room for one less.
    rw [if_neg hfull]
    refine ⟨?_, Nat.lt_of_not_le hfull, ?_, fun hexact => ?_⟩
    · show session.runs.length * session.options.runSize + (session.sinceFlush + 1) = recorded + 1
      omega
    · exact iff_of_false (WordMap.record_ne_nil _) (Nat.succ_ne_zero _)
    · -- The counts were exact before this word, so that the map held all the others.
      obtain ⟨hbefore, hone⟩ := WordMap.occurrences_record hexact
      exact hone.trans (congrArg (· + 1) (h.held hbefore))

/-- Several words more. -/
theorem recordAll (h : session.Accounts recorded) (log : Log) :
    (session.recordAll log).Accounts (recorded + log.length) := by
  induction log generalizing session recorded with
  | nil => exact h
  | cons occurrence log ih =>
    have hrest := ih (h.recordOne occurrence)
    rw [Nat.add_assoc, Nat.add_comm 1] at hrest
    exact hrest

/-- Registering something does not count. -/
theorem records {after : Session} {more : Nat} (h : session.Accounts recorded)
    (hafter : session.Records more after) : after.Accounts (recorded + more) := by
  obtain ⟨log, files, directories, metaNames, rfl, rfl⟩ := hafter
  have hall := h.recordAll log
  exact ⟨hall.runs, hall.room, hall.isEmpty, hall.held⟩

/-- The runs and the rest are what comes out of a division. -/
theorem div_mod (h : session.Accounts recorded) :
    session.runs.length = recorded / session.options.runSize
      ∧ session.sinceFlush = recorded % session.options.runSize := by
  have hpos : 0 < session.options.runSize := Nat.lt_of_le_of_lt (Nat.zero_le _) h.room
  have hsum : session.sinceFlush + session.options.runSize * session.runs.length = recorded := by
    rw [← h.runs, Nat.mul_comm, Nat.add_comm]
  have ⟨hdiv, hmod⟩ := (Nat.div_mod_unique hpos).mpr ⟨hsum, h.room⟩
  exact ⟨hdiv.symm, hmod.symm⟩

/-- When the session ends there is one more run if anything is left in memory, and so there are
    as many as it takes to hold all words. -/
theorem length_closed (h : session.Accounts recorded) : session.closed.runs.length
    = (recorded + session.options.runSize - 1) / session.options.runSize := by
  have hruns := h.runs
  have hroom := h.room
  by_cases hnone : session.words = []
  · -- All words are in runs, and rounding up changes nothing.
    have hempty : session.sinceFlush = 0 := h.isEmpty.mp hnone
    rw [closed, if_pos (List.isEmpty_iff.mpr hnone)]
    refine (Nat.div_eq_of_lt_le ?_ ?_).symm
    · omega
    · rw [Nat.add_mul]
      omega
  · -- The last run is not full, but it is not empty either.
    have hsome : session.sinceFlush ≠ 0 := fun hempty => hnone (h.isEmpty.mpr hempty)
    have hlength : session.flush.runs.length = session.runs.length + 1 := List.length_append
    rw [closed, if_neg fun hempty => hnone (List.isEmpty_iff.mp hempty), hlength]
    refine (Nat.div_eq_of_lt_le ?_ ?_).symm
    · rw [Nat.add_mul]
      omega
    · rw [Nat.add_mul, Nat.add_mul]
      omega

/-- The sources of the index are these runs, and what it is added to. -/
theorem sources_of_finish {disk after : Disk} {path : String} {summary : PublicationSummary}
    (h : session.Accounts recorded) (hfinish : session.finish disk path = (.ok summary, after)) :
    summary.sources = (recorded + session.options.runSize - 1) / session.options.runSize
      + session.base.isSome.toNat := by
  rcases hsources : session.closed.sources with e | segments
  · rw [finish, ← closed, hsources] at hfinish
    exact absurd hfinish (by simp)
  rw [finish_eq hsources] at hfinish
  rcases Contents.exists_of_publish hfinish with ⟨survey, bytes, -, -, -, rfl⟩
  -- Every run was read back as a segment.
  rcases exists_of_map hsources with ⟨runs, hcollect, rfl⟩
  have hlength := (exists_of_collect hcollect).1
  rcases session.closed_eq with ⟨_, _, hclosed⟩
  have hbase : session.closed.base = session.base := by rw [hclosed]
  rw [h.length_closed] at hlength
  show (_ ++ runs).length = _
  rw [List.length_append, hlength, hbase, Nat.add_comm]
  rcases session.base with _ | index
  · rfl
  · rfl

end Accounts

namespace Records

variable {session between after : Session} {recorded more : Nat}

/-- Registering something records nothing. -/
theorem registered (session : Session) (files : List Record) (directories : List String)
    (metaNames : List (String × UInt32)) :
    session.Records 0 (session.registered files directories metaNames) :=
  ⟨[], files, directories, metaNames, rfl, rfl⟩

/-- What decides about words is left alone, and so is what is added to. -/
theorem keeps (h : session.Records recorded after) :
    after.accept = session.accept ∧ after.options = session.options
      ∧ after.base = session.base := by
  obtain ⟨log, files, directories, metaNames, -, rfl⟩ := h
  rcases session.recordAll_keeps log with ⟨words, sinceFlush, runs, hkeeps⟩
  rw [hkeeps]
  exact ⟨rfl, rfl, rfl⟩

/-- Words are recorded, and then others. -/
theorem trans (h : session.Records recorded between) (h' : between.Records more after) :
    session.Records (recorded + more) after := by
  obtain ⟨log, files, directories, metaNames, rfl, rfl⟩ := h
  obtain ⟨log', files', directories', metaNames', rfl, rfl⟩ := h'
  refine ⟨log ++ log', files', directories', metaNames', List.length_append, ?_⟩
  rw [recordAll_registered, ← recordAll_append]
  rfl

/-- As many candidates are accepted as would have been before. -/
theorem accepted_eq (h : session.Records recorded after) (candidates : List Candidate) :
    after.accepted candidates = session.accepted candidates := by
  rw [accepted, accepted, h.keeps.1]

/-- Registering something first does not matter to those that follow. -/
theorem before {candidates : List Candidate} (h : session.Records 0 between)
    (h' : between.Records (between.accepted candidates) after) :
    session.Records (session.accepted candidates) after := by
  have hboth := h.trans h'
  rw [Nat.zero_add, h.accepted_eq] at hboth
  exact hboth

/-- Nor does recording others. -/
theorem append {front behind : List Candidate}
    (h : session.Records (session.accepted front) between)
    (h' : between.Records (between.accepted behind) after) :
    session.Records (session.accepted (front ++ behind)) after := by
  have hboth := h.trans h'
  rw [h.accepted_eq, ← accepted_append] at hboth
  exact hboth

end Records

section Steps

variable (session : Session)

theorem internDirectory_records (path : String) :
    session.Records 0 (session.internDirectory path).1 := by
  rw [internDirectory_eq]
  exact Records.registered session _ _ _

theorem internName_records (name : String) : session.Records 0 (session.internName name).1 := by
  rw [internName_eq]
  exact Records.registered session _ _ _

theorem beginDocument_records (directory : UInt32) (name : String) (size : UInt64)
    (title : Option String) :
    session.Records 0 (session.beginDocument directory name size title).1 :=
  Records.registered session _ _ _

theorem endDocument_records (draft : Draft) : session.Records 0 (session.endDocument draft) :=
  Records.registered session _ _ _

/-- A word is recorded if it is accepted. -/
theorem readWord_records (draft : Draft) (raw : String) (metaId : Option UInt32) :
    session.Records (session.accepted [⟨raw, metaId⟩]) (session.readWord draft raw metaId).1 := by
  rw [accepted, List.countP_singleton, readWord]
  rcases session.accept (Word.prepare raw) with _ | stem
  · exact Records.registered session _ _ _
  · exact ⟨[⟨stem, draft.document, draft.position, metaId⟩], _, _, _, rfl, rfl⟩

/-- So are several. -/
theorem readWords_records (draft : Draft) (raws : List String) (metaId : Option UInt32) :
    session.Records (session.accepted (raws.map (⟨·, metaId⟩)))
      (session.readWords draft raws metaId).1 := by
  induction raws generalizing session draft with
  | nil => exact Records.registered session _ _ _
  | cons raw raws ih =>
    have hword := session.readWord_records draft raw metaId
    exact hword.append (ih _ (session.readWord draft raw metaId).2)

/-- Of a part of a document its candidates are. -/
theorem applyPart_records (draft : Draft) (part : Part) :
    session.Records (session.accepted part.candidates) (session.applyPart draft part).1 := by
  cases part with
  | text text metaId => exact session.readWords_records draft _ metaId
  | word raw metaId => exact session.readWord_records draft raw metaId
  | title title => exact Records.registered session _ _ _
  | metaName name => exact session.internName_records name

/-- Of several parts the candidates of each of them are. -/
theorem foldl_applyPart_records (draft : Draft) (parts : List Part) :
    session.Records (session.accepted (parts.flatMap Part.candidates))
      (parts.foldl (fun (session, draft) part => session.applyPart draft part)
        (session, draft)).1 := by
  induction parts generalizing session draft with
  | nil => exact Records.registered session _ _ _
  | cons part parts ih =>
    rw [List.foldl_cons, List.flatMap_cons]
    have hpart := session.applyPart_records draft part
    exact hpart.append (ih _ (session.applyPart draft part).2)

/-- Of a document those of its parts are. -/
theorem addDocument_records (directory : UInt32) (name : String) (size : UInt64)
    (title : Option String) (parts : List Part) :
    session.Records (session.accepted (parts.flatMap Part.candidates))
      (session.addDocument directory name size title parts) := by
  have hbegun := session.beginDocument_records directory name size title
  have hparts := foldl_applyPart_records (session.beginDocument directory name size title).1
    (session.beginDocument directory name size title).2 parts
  exact (hbegun.before hparts).trans (endDocument_records _ _)

/-- Of a file those of its text are. -/
theorem addText_records (path : String) (content : Bytes) :
    session.Records (session.accepted (Walk.Finding.file path content).candidates)
      (session.addText path content) := by
  have hopened := session.internDirectory_records ((Path.parent path).getD "")
  have hdocument := (session.internDirectory ((Path.parent path).getD "")).1.addDocument_records
    (session.internDirectory ((Path.parent path).getD "")).2 ((Path.fileName path).getD "")
    (UInt64.ofNat content.length) none [.text (Utf8.decodeLossy content) none]
  rw [List.flatMap_singleton] at hdocument
  exact hopened.before hdocument

/-- And of what a walk has come upon those of all its files. -/
theorem addFindings_records (stats : WalkStats) (findings : List Walk.Finding) :
    session.Records (session.accepted (findings.flatMap Walk.Finding.candidates))
      (session.addFindings stats findings).1 := by
  induction findings generalizing session stats with
  | nil => exact Records.registered session _ _ _
  | cons finding findings ih =>
    cases finding with
    | file path content =>
      rw [addFindings, List.flatMap_cons]
      exact (session.addText_records path content).append (ih _ _)
    | skipped path =>
      rw [addFindings, List.flatMap_cons]
      exact ih session _

end Steps

end Session

namespace Stage

/-- A call records the candidates that it brings. -/
theorem Takes.records {stage after : Stage} {call : Call} (h : Takes stage call after) :
    stage.session.Records (stage.session.accepted call.candidates) after.session := by
  cases h with
  | directory session path => exact session.internDirectory_records path
  | metaName session name => exact session.internName_records name
  | file session directory name size title =>
    exact session.beginDocument_records directory name size title
  | part session draft part => exact session.applyPart_records draft part
  | close session draft => exact session.endDocument_records draft

/-- The parts of a document are taken in from the left. -/
theorem takeAll_parts (session : Session) (draft : Draft) (parts : List Part) (calls : List Call) :
    takeAll { session, draft } (parts.map Call.part ++ calls)
      = let (session, draft) := parts.foldl (fun (session, draft) part =>
          session.applyPart draft part) (session, draft)
        takeAll { session, draft } calls := by
  induction parts generalizing session draft with
  | nil => rfl
  | cons part parts ih => exact ih _ _

/-- A whole document is taken in as one that is begun, read part by part, and closed. -/
theorem takeAll_document (session : Session) (directory : UInt32) (name : String) (size : UInt64)
    (title : Option String) (parts : List Part) :
    takeAll { session } (.file directory name size title :: (parts.map Call.part ++ [.close]))
      = some { session := session.addDocument directory name size title parts } :=
  takeAll_parts _ _ parts [.close]

/-- A session that was begun with some options, anew or to add to an index, and how many words it
    has recorded in all that it was asked to do since. -/
inductive Reached (options : IndexingOptions) : (adds : Bool) → Stage → (recorded : Nat) → Prop
  | new {disk : Disk} {stopWords : StopWords} {session : Session}
    (start : Session.start? disk options stopWords = .ok session) :
    Reached options false { session } 0
  | extended {disk : Disk} {path : String} {session : Session}
    (extend : Session.extend? disk path options = .ok session) :
    Reached options true { session } 0
  | stemming {adds : Bool} {session : Session} {recorded : Nat} (stemmer : String → String)
    (reached : Reached options adds { session } recorded) :
    Reached options adds { session := { session with stemmer } } recorded
  | called {adds : Bool} {stage after : Stage} {recorded : Nat} {call : Call}
    (reached : Reached options adds stage recorded) (takes : Takes stage call after) :
    Reached options adds after (recorded + stage.session.accepted call.candidates)
  | walked {adds : Bool} {session after : Session} {recorded : Nat} {disk : Disk} {path : String}
    {walk : WalkOptions} {findings : List Walk.Finding} {stats : WalkStats}
    (reached : Reached options adds { session } recorded)
    (found : Walk.findingsAt walk disk path = .ok findings)
    (taken : session.addTree disk path walk = .ok (after, stats)) :
    Reached options adds { session := after }
      (recorded + session.accepted (findings.flatMap Walk.Finding.candidates))

namespace Reached

variable {options : IndexingOptions} {adds : Bool} {stage : Stage} {recorded : Nat}

/-- Of such a session all words are accounted for. -/
theorem accounts (h : Reached options adds stage recorded) : stage.session.Accounts recorded
    ∧ stage.session.options = options ∧ stage.session.base.isSome = adds := by
  induction h with
  | new start =>
    have hpos := Session.runSize_pos start
    rcases Session.eq_of_start? start with rfl
    exact ⟨.start hpos rfl rfl rfl, rfl, rfl⟩
  | extended extend =>
    -- The words of the index stay where they are, and only its tables are registered.
    obtain ⟨started, hstarted⟩ := Session.exists_start_of_extend? extend
    have hpos := Session.runSize_pos hstarted
    obtain ⟨bytes, index, taken, -, -, htaken, rfl⟩ := Session.exists_of_extend? extend
    obtain ⟨stops, paths, files, names, -, -, -, -, rfl⟩ := Session.exists_of_takeOver htaken
    exact ⟨.start hpos rfl rfl rfl, rfl, rfl⟩
  | stemming stemmer reached ih =>
    obtain ⟨haccounts, hoptions, hbase⟩ := ih
    exact ⟨⟨haccounts.runs, haccounts.room, haccounts.isEmpty, haccounts.held⟩, hoptions, hbase⟩
  | called reached takes ih =>
    obtain ⟨haccounts, rfl, rfl⟩ := ih
    have hrecords := takes.records
    exact ⟨haccounts.records hrecords, hrecords.keeps.2.1, by rw [hrecords.keeps.2.2]⟩
  | @walked adds session after recorded disk path walk findings stats reached found taken ih =>
    obtain ⟨haccounts, rfl, rfl⟩ := ih
    have hrecords := session.addFindings_records {} findings
    rw [Session.addTree_eq, found] at taken
    have hafter := congrArg Prod.fst (Except.ok.inj taken)
    rw [hafter] at hrecords
    exact ⟨haccounts.records hrecords, hrecords.keeps.2.1, by rw [hrecords.keeps.2.2]⟩

/-- Several calls record what each of them does. -/
theorem calledAll {after : Stage} {calls : List Call} (h : Reached options adds stage recorded)
    (hcalls : stage.takeAll calls = some after) : Reached options adds after
      (recorded + stage.session.accepted (calls.flatMap Call.candidates)) := by
  induction calls generalizing stage recorded with
  | nil =>
    rcases Option.some.inj hcalls with rfl
    exact h
  | cons call calls ih =>
    obtain ⟨next, htakes, hrest⟩ := takeAll_cons.mp hcalls
    have hall := ih (h.called htakes) hrest
    rw [htakes.records.accepted_eq, Nat.add_assoc, ← Session.accepted_append] at hall
    exact hall

/-- However many words a session has recorded, and whatever else it was asked to do, there are as
    many runs as their number can be divided by the size of a run, and the rest of the division
    is what it counts in memory. This is what the map in memory holds, unless a count in it has
    stopped, and the map is empty if there is no rest. An index is merged of as many sources as
    it takes runs to hold all words, and of one more if it is added to another. -/
theorem runs_accounted (h : Reached options adds stage recorded) :
    stage.session.runs.length = recorded / options.runSize
    ∧ stage.session.sinceFlush = recorded % options.runSize
    ∧ (stage.session.words.Exact → stage.session.words.occurrences = stage.session.sinceFlush)
    ∧ (stage.session.words = [] ↔ recorded % options.runSize = 0)
    ∧ ∀ disk path summary after, stage.session.finish disk path = (.ok summary, after) →
      summary.sources = (recorded + options.runSize - 1) / options.runSize
        + if adds then 1 else 0 := by
  obtain ⟨haccounts, hoptions, hbase⟩ := h.accounts
  obtain ⟨hruns, hrest⟩ := haccounts.div_mod
  rw [hoptions] at hruns hrest
  have hempty := haccounts.isEmpty
  rw [hrest] at hempty
  refine ⟨hruns, hrest, haccounts.held, hempty, ?_⟩
  -- What is merged are the runs of the closed session, and the index that is added to.
  intro disk path summary after hfinish
  have hsources := haccounts.sources_of_finish hfinish
  rw [hoptions, hbase] at hsources
  rw [hsources]
  cases adds with
  | false => rfl
  | true => rfl

/-- A session that adds to an index without words, but with a stop word, and may hold two words.
    Of a document it records five, two of them behind its second run in the middle of the text. -/
theorem runs_accounted_of_five :
    let options : IndexingOptions := { runSize := 2 }
    ∃ stage : Stage, Reached options true stage 5
      ∧ stage.session.runs.length = 2 ∧ stage.session.sinceFlush = 1
      ∧ stage.session.words.Exact ∧ stage.session.words.occurrences = 1
      ∧ ∃ disk path summary after, stage.session.finish disk path = (.ok summary, after)
        ∧ summary.sources = 4 := by
  intro options
  -- The index that is added to.
  let base : Volume :=
    { words := [], stopWords := ["the"], directories := [], files := [], metaNames := [] }
  have hsize : base.bytes.length < UInt64.size :=
    Volume.length_bytes_lt (by decide +kernel)
  have hclosable : base.Closable :=
    ⟨by decide +kernel, by decide +kernel, fun record hrecord => absurd hrecord List.not_mem_nil,
      by decide +kernel⟩
  let disk : Disk := { root := .directory [("index", .file base.bytes)] }
  let first : Session := {
    options
    stopWords := StopWords.empty.insertAll base.stopWords
    base := some ⟨base.bytes.toArray, base.sections.tables⟩ }
  have hstart : Session.start? disk options .empty = .ok _ := rfl
  have hextend : Session.extend? disk "index" options = .ok first :=
    Session.extend?_lists (Disk.openFile_root rfl) (Index.open?_eq hsize)
      (base.lists_tables hsize hclosable) hstart
  -- One candidate is too short, and two are the stop word.
  let parts : List Part := [.text "The cats, a dog and the owls." none, .word "cats" none]
  let calls : List Call := .file 0 "pets" 30 none :: (parts.map Call.part ++ [.close])
  let session : Session := first.addDocument 0 "pets" 30 none parts
  have hcalls : Stage.takeAll { session := first } calls = some { session } :=
    takeAll_document first 0 "pets" 30 none parts
  have hcount : first.accepted (calls.flatMap Call.candidates) = 5 := by decide +kernel
  have hreached : Reached options true { session } 5 := by
    have hall := (Reached.extended hextend).calledAll hcalls
    rw [hcount] at hall
    exact hall
  obtain ⟨hruns, hsince, hheld, -, hsources⟩ := hreached.runs_accounted
  have hexact : session.words.Exact := by decide +kernel
  -- Ending the session writes a third run, and the index is the fourth source.
  let merged : List WordPostings := [
    ⟨"and", [{ document := 0, occurrences := 1, positions := [4] }]⟩,
    ⟨"cats", [{ document := 0, occurrences := 2, positions := [1, 7] }]⟩,
    ⟨"dog", [{ document := 0, occurrences := 1, positions := [3] }]⟩,
    ⟨"owls", [{ document := 0, occurrences := 1, positions := [6] }]⟩]
  have hmerges : (session.closed.sources >>= Merge.sources).toOption = some merged := by
    decide +kernel
  obtain ⟨segments, -, -, hpublishes⟩ :=
    Session.exists_publishes_volume hmerges (by decide +kernel)
  have hfinish := hpublishes.finish_eq (Contents.publishBytes_empty _)
  have hone : session.sinceFlush = 1 := hsince.trans (by decide)
  exact ⟨{ session }, hreached, hruns.trans (by decide), hone, hexact, (hheld hexact).trans hone,
    _, _, _, _, hfinish, (hsources _ _ _ _ hfinish).trans (by decide)⟩

end Reached

end Stage

end Concordance
