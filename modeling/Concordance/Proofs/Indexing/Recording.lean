import Concordance.Proofs.Guarded.Encoding
import Concordance.Proofs.Indexing.Finished

/-!
# Every Entry Can Be Written

Whatever a session is called for, the writer of entries is never given what it can not write.

Between two calls a session has recorded a log, on top of the index that it adds to. What has to
be known for an entry is that this log is in order, and for the next word to go behind it that
nothing in it stands later than this word (`Session.Reading`). A word takes a position that was
not taken before, as far as positions are counted; beyond that they all stay the same, and so
they still do not descend. A new document has the number that comes behind all others, as long as
there are numbers. And a word that is not accepted changes nothing but the position.

Where the log is cut into runs does not come into this. Any part of it is in order, and so what
is in memory could be written out at any time. That it is written out in the middle of a text is
a matter of the guarded steps only, which are followed word by word.

In the end all of it is merged, with the words of the index that is added to. They were in order
when that index was written, and the documents of the session come behind its documents.

## Main definitions

* `Session.Reading`: A session that reads a document behind all that it has recorded.
* `Stage.Recording`: A session between calls.
* `Session.Started`: A session at its beginning.

## Theorems

* `Session.HasRecorded.encodable`: What is in memory can be written out at any time.
* `Session.Reading.readWord`: The next word is recorded behind all others.
* `Stage.Recording.take`, `Stage.Recording.takeAll`: Calls go on with the log.
* `Session.HasRecorded.encodable_merged`: What is merged can be written.
* `Session.Started.entries_encodable`: No session writes an entry that can not be written.
-/

namespace Concordance

/-- Tidy postings of a word that can be closed make an entry. -/
theorem TidyPostings.encodable {key : Bytes} {postings : List Posting} (h : TidyPostings postings)
    (hkey : ∃ word, NulFree word ∧ Utf8.bytes word = key) (hne : postings ≠ []) :
    Encodable key postings := by
  rcases hkey with ⟨word, hnul, rfl⟩
  exact ⟨hnul.zero_notMem, hne, h.ascending, fun p hp => (h.tidy p hp).names,
    fun p hp => (h.tidy p hp).positions⟩

namespace Session

variable {session : Session} {base : WordMap} {log : Log}

/-- What is in memory can be written out at any time. -/
theorem HasRecorded.encodable (h : session.HasRecorded base log) :
    ∀ e ∈ session.words, Encodable e.1 e.2 := by
  intro e he
  rcases h.logged with ⟨pieces, rest, rfl, -, hwords⟩
  have horderly : rest.Orderly := h.follows.orderly.sublist (List.sublist_append_right ..)
  rw [hwords] at he
  have htidy := horderly.words_tidy he
  exact htidy.encodable (horderly.words_storable.keys e he)
    ((Log.words_proper rest).nonempty e he)

/-- Registering something records nothing. -/
theorem HasRecorded.registered (h : session.HasRecorded base log) {files : List Record}
    (hfiles : session.files.length ≤ files.length) (directories : List String)
    (metaNames : List (String × UInt32)) :
    (session.registered files directories metaNames).HasRecorded base log :=
  ⟨h.logged, h.holds, h.follows, h.storable,
    fun e he p hp => Nat.lt_of_lt_of_le (h.baseInside e he p hp) hfiles,
    fun occurrence hocc => Nat.lt_of_lt_of_le (h.logInside occurrence hocc) hfiles⟩

/-- One more occurrence is noted, behind all that there are. -/
theorem HasRecorded.noted (h : session.HasRecorded base log) {occurrence : Occurrence}
    (hnul : NulFree occurrence.word)
    (hprec : ∀ other ∈ log, other.posting.Precedes occurrence.posting)
    (hbehind : ∀ e ∈ base, ∀ p ∈ e.2, p.document < occurrence.document)
    (hinside : occurrence.document.toNat < session.files.length) :
    (session.noted occurrence).HasRecorded base (log ++ [occurrence]) := by
  refine ⟨h.logged.noted occurrence, h.holds, ⟨h.follows.proper, h.follows.tidy, ⟨?_, ?_⟩, ?_⟩,
    h.storable, h.baseInside, ?_⟩
  · exact List.forall_mem_append.mpr
      ⟨h.follows.orderly.nulFree, List.forall_mem_singleton.mpr hnul⟩
  · -- It comes behind all of the log.
    refine List.pairwise_append.mpr
      ⟨h.follows.orderly.ordered, List.pairwise_singleton _ _, fun a ha b hb => ?_⟩
    rw [List.mem_singleton.mp hb]
    exact hprec a ha
  · -- Its document is new to the base.
    intro e he p hp
    exact List.forall_mem_append.mpr
      ⟨h.follows.behind e he p hp, List.forall_mem_singleton.mpr (hbehind e he p hp)⟩
  · exact List.forall_mem_append.mpr ⟨h.logInside, List.forall_mem_singleton.mpr hinside⟩

/-- Writing out what is in memory records nothing. -/
theorem HasRecorded.flush (h : session.HasRecorded base log) :
    session.flush.HasRecorded base log :=
  ⟨h.logged.flush, h.holds, h.follows, h.storable, h.baseInside, h.logInside⟩

/-- A session that is reading a document, behind all that it has recorded. -/
structure Reading (session : Session) (draft : Draft) (base : WordMap) (log : Log) : Prop where
  recorded : session.HasRecorded base log
  accepts : session.AcceptsNulFree
  known : draft.document.toNat < session.files.length
  baseBehind : ∀ e ∈ base, ∀ p ∈ e.2, p.document < draft.document
  /-- What was recorded of the document itself stands no later in it than the next word. -/
  logBehind : ∀ occurrence ∈ log, occurrence.document < draft.document
    ∨ occurrence.document = draft.document ∧ occurrence.position ≤ draft.position

/-- What is noted is kept in memory, or written out without a guard being hit. -/
theorem HasRecorded.record {occurrence : Occurrence}
    (h : (session.noted occurrence).HasRecorded base log) :
    (session.recordOne occurrence).HasRecorded base log
      ∧ Guarded.recordWord session occurrence.word occurrence.document occurrence.position
          occurrence.metaId = .ok (session.recordOne occurrence) := by
  rw [recordOne_eq]
  by_cases hfull : session.options.runSize ≤ session.sinceFlush + 1
  · have hflush : Guarded.flush (session.noted occurrence)
        = .ok (session.noted occurrence).flush := by
      rw [Guarded.flush, Guarded.encodeMap_eq h.encodable]
      rfl
    rw [if_pos hfull]
    exact ⟨h.flush, (if_pos hfull).trans hflush⟩
  · rw [if_neg hfull]
    exact ⟨h, if_neg hfull⟩

/-- The next word is recorded behind all others, if it is recorded at all. -/
theorem Reading.readWord {draft : Draft} (h : session.Reading draft base log) (raw : String)
    (metaId : Option UInt32) : ∃ log',
    (session.readWord draft raw metaId).1.Reading (session.readWord draft raw metaId).2 base log'
      ∧ Guarded.readWord session draft raw metaId = .ok (session.readWord draft raw metaId) := by
  have hposition : draft.position ≤ addCounts draft.position 1 := by
    have hlt : draft.position.toNat < UInt32.size := draft.position.toNat_lt
    rw [UInt32.le_iff_toNat_le, toNat_addCounts]
    omega
  -- The next word stands later, also behind one that was not accepted.
  have hlogged : ∀ other ∈ log, other.document < draft.document
      ∨ other.document = draft.document ∧ other.position ≤ addCounts draft.position 1 :=
    fun other hother => (h.logBehind other hother).imp_right fun hsame =>
      ⟨hsame.1, UInt32.le_trans hsame.2 hposition⟩
  rw [Session.readWord, Guarded.readWord]
  rcases haccept : session.accept (Word.prepare raw) with _ | stem
  · exact ⟨log, ⟨h.recorded, h.accepts, h.known, h.baseBehind, hlogged⟩, rfl⟩
  · let occurrence : Occurrence := ⟨stem, draft.document, draft.position, metaId⟩
    have hprec : ∀ other ∈ log, other.posting.Precedes occurrence.posting := by
      intro other hother
      refine (h.logBehind other hother).imp_right fun hsame => ⟨hsame.1, fun x hx y hy => ?_⟩
      rw [List.mem_singleton.mp hx, List.mem_singleton.mp hy]
      exact hsame.2
    have hnoted : (session.noted occurrence).HasRecorded base (log ++ [occurrence]) :=
      h.recorded.noted (h.accepts _ _ haccept) hprec h.baseBehind h.known
    rcases hnoted.record with ⟨hrecorded, hguarded⟩
    have hfiles : (session.recordOne occurrence).files = session.files := by
      rw [recordOne_eq]
      split <;> rfl
    have haccepts : (session.recordOne occurrence).AcceptsNulFree := by
      rw [AcceptsNulFree, accept_recordOne]
      exact h.accepts
    refine ⟨log ++ [occurrence], ⟨hrecorded, haccepts, hfiles.symm ▸ h.known, h.baseBehind, ?_⟩, ?_⟩
    · exact List.forall_mem_append.mpr
        ⟨hlogged, List.forall_mem_singleton.mpr (Or.inr ⟨rfl, hposition⟩)⟩
    · show (Guarded.recordWord session stem draft.document draft.position metaId).map _ = _
      rw [hguarded]
      rfl

/-- So are the words of a text. -/
theorem Reading.readWords {draft : Draft} (h : session.Reading draft base log)
    (raws : List String) (metaId : Option UInt32) : ∃ log',
    (session.readWords draft raws metaId).1.Reading (session.readWords draft raws metaId).2
        base log'
      ∧ Guarded.readWords session draft metaId raws
          = .ok (session.readWords draft raws metaId) := by
  induction raws generalizing session draft log with
  | nil => exact ⟨log, h, rfl⟩
  | cons raw raws ih =>
    rcases h.readWord raw metaId with ⟨_, hword, hguarded⟩
    rcases ih hword with ⟨log', hrest, hguarded'⟩
    refine ⟨log', hrest, ?_⟩
    rw [Guarded.readWords, hguarded]
    exact hguarded'

/-- And whatever else is in a document. -/
theorem Reading.applyPart {draft : Draft} (h : session.Reading draft base log) (part : Part) :
    ∃ log',
    (session.applyPart draft part).1.Reading (session.applyPart draft part).2 base log'
      ∧ Guarded.applyPart session draft part = .ok (session.applyPart draft part) := by
  cases part with
  | text text metaId => exact h.readWords _ metaId
  | word raw metaId => exact h.readWord raw metaId
  | title title =>
    -- Only the record of the document is changed, so there are as many as before.
    have hlength : session.files.length
        = (session.files.modify draft.document.toNat fun record =>
          { record with title }).length :=
      (List.length_modify ..).symm
    exact ⟨log, ⟨h.recorded.registered (Nat.le_of_eq hlength) _ _, h.accepts,
      Nat.lt_of_lt_of_eq h.known hlength, h.baseBehind, h.logBehind⟩, rfl⟩
  | metaName name =>
    refine ⟨log, ?_, rfl⟩
    show (session.internName name).1.Reading draft base log
    rw [session.internName_eq]
    exact ⟨h.recorded.registered (Nat.le_refl _) _ _, h.accepts, h.known, h.baseBehind,
      h.logBehind⟩

end Session

namespace Stage

/-- A session between calls has recorded a log, and reads behind it if it is reading. -/
structure Recording (stage : Stage) (base : WordMap) (log : Log) : Prop where
  recorded : stage.session.HasRecorded base log
  accepts : stage.session.AcceptsNulFree
  reading : ∀ draft, stage.draft = some draft → stage.session.Reading draft base log

variable {stage after : Stage} {base : WordMap} {log : Log} {call : Call} {calls : List Call}

/-- A call goes on with the log, and no guard is hit on the way. -/
theorem Recording.take (h : stage.Recording base log) (htakes : Takes stage call after)
    (room : after.session.files.length ≤ UInt32.size) :
    (∃ log', after.Recording base log') ∧ Guarded.take stage call = .ok (some after) := by
  cases htakes with
  | directory session path =>
    refine ⟨⟨log, ?_⟩, rfl⟩
    rw [session.internDirectory_eq]
    exact ⟨h.recorded.registered (Nat.le_refl _) _ _, h.accepts,
      fun _ hnone => absurd hnone (by simp)⟩
  | metaName session name =>
    refine ⟨⟨log, ?_⟩, rfl⟩
    rw [session.internName_eq]
    exact ⟨h.recorded.registered (Nat.le_refl _) _ _, h.accepts,
      fun _ hnone => absurd hnone (by simp)⟩
  | file session directory name size title =>
    have hlonger : (session.beginDocument directory name size title).1.files.length
        = session.files.length + 1 := List.length_append
    have hdocument : (UInt32.ofNat session.files.length).toNat = session.files.length :=
      UInt32.toNat_ofNat_of_lt' (Nat.lt_of_succ_le (Nat.le_trans (Nat.le_of_eq hlonger.symm) room))
    have hbegun : (session.beginDocument directory name size title).1.HasRecorded base log :=
      h.recorded.registered (List.prefix_append _ _).length_le _ _
    refine ⟨⟨log, hbegun, h.accepts, fun draft hdraft => ?_⟩, rfl⟩
    rcases Option.some.inj hdraft with rfl
    -- The new document has the number that comes behind those of all documents before.
    refine ⟨hbegun, h.accepts, ?_, fun e he p hp => ?_, fun occurrence hocc => Or.inl ?_⟩
    · show (UInt32.ofNat session.files.length).toNat < _
      rw [hdocument, hlonger]
      exact Nat.lt_succ_self _
    · rw [UInt32.lt_iff_toNat_lt]
      exact Nat.lt_of_lt_of_eq (h.recorded.baseInside e he p hp) hdocument.symm
    · rw [UInt32.lt_iff_toNat_lt]
      exact Nat.lt_of_lt_of_eq (h.recorded.logInside occurrence hocc) hdocument.symm
  | part session draft part =>
    rcases (h.reading draft rfl).applyPart part with ⟨log', hpart, hguarded⟩
    refine ⟨⟨log', hpart.recorded, hpart.accepts, fun other hother => ?_⟩, ?_⟩
    · rcases Option.some.inj hother with rfl
      exact hpart
    · show (Guarded.applyPart session draft part).map _ = _
      rw [hguarded]
      rfl
  | close session draft =>
    refine ⟨⟨log, h.recorded.registered ?_ _ _, h.accepts,
      fun _ hnone => absurd hnone (by simp)⟩, rfl⟩
    exact Nat.le_of_eq (List.length_modify ..).symm

/-- Nor by any number of calls. -/
theorem Recording.takeAll (h : stage.Recording base log) (htakes : stage.takeAll calls = some after)
    (room : after.session.files.length ≤ UInt32.size) :
    (∃ log', after.Recording base log') ∧ Guarded.takeAll stage calls = .ok (some after) := by
  induction calls generalizing stage log with
  | nil =>
    rcases Option.some.inj htakes with rfl
    exact ⟨⟨log, h⟩, rfl⟩
  | cons call calls ih =>
    rcases takeAll_cons.mp htakes with ⟨next, hcall, hrest⟩
    rcases takeAll_keeps hrest with ⟨_, _, _, files, hlength, hafter⟩
    -- Calls take no documents away, so there was room all along.
    have hnext : next.session.files.length ≤ UInt32.size := by
      rw [hafter] at room
      exact Nat.le_trans hlength room
    rcases h.take hcall hnext with ⟨⟨log', hrecording⟩, hguarded⟩
    rcases ih hrecording hrest with ⟨hlog, hguarded'⟩
    refine ⟨hlog, ?_⟩
    rw [Guarded.takeAll, hguarded]
    exact hguarded'

end Stage

namespace Session

variable {session : Session}

/-- The entries of an index can be written of what the sources of a session merge to. -/
theorem HasRecorded.encodable_merged {base : WordMap} {log : Log}
    (h : session.HasRecorded base log) (fit : session.RunsFit) :
    ∃ segments merged, session.closed.sources = .ok segments
      ∧ Merge.sources segments = .ok merged
      ∧ ∀ word ∈ merged, session.tooCommon word = false → ∃ postings,
        word.ranked session.files = .ok postings ∧ Encodable (Utf8.bytes word.word) postings := by
  obtain ⟨segments, merged, hsources, hmerge, hproper, hpostings⟩ :=
    closed_merge h.logged h.holds h.follows fit
  have hmerges : Merges base log merged := ⟨hproper, hpostings⟩
  have hsound := h.volume_sound hmerges
  refine ⟨segments, merged, hsources, hmerge, fun word hword hkept =>
    ⟨_, WordPostings.ranked_eq (hmerges.inside h hword), ?_⟩⟩
  -- What is merged of a word that stays is what the volume has of it, with its ranks.
  have hmem : (Utf8.bytes word.word, rankAll session.files word.postings)
      ∈ (session.volume merged).words :=
    List.mem_map_of_mem (List.mem_map_of_mem (f := fun word : WordPostings =>
      (Utf8.bytes word.word, word.postings)) (List.mem_filter.mpr ⟨hword, by simp [hkept]⟩))
  exact (hsound.tidy _ hmem).encodable (hsound.storable.keys _ hmem) (hsound.proper.nonempty _ hmem)

/-- A session at its beginning: a new one, or one that adds to an index that sessions have
    written. -/
inductive Started : Session → Prop
  | new {disk : Disk} {options : IndexingOptions} {stopWords : StopWords} {session : Session}
    (start : start? disk options stopWords = .ok session) : Started session
  | extended {bytes : Bytes} {disk : Disk} {path : String} {options : IndexingOptions}
    {session : Session} (published : Published bytes) (file : disk.openFile path = .ok bytes)
    (extend : extend? disk path options = .ok session) : Started session

/-- It has recorded nothing yet. -/
theorem Started.exists_recorded (h : session.Started) (stemmer : String → String) :
    ∃ base, { session with stemmer }.HasRecorded base [] := by
  cases h with
  | new start =>
    rcases eq_of_start? start with rfl
    exact ⟨[], HasRecorded.new _ _ _⟩
  | extended published file extend =>
    rcases published.exists_session with ⟨before, merged, rfl, hsound, -⟩
    exact ⟨_, HasRecorded.extend hsound published.size file extend stemmer⟩

/-- Whatever a session is called for, every entry that it writes is one that can be written, if
    its stems can be closed and there are numbers for its documents. No guard is hit by its calls,
    wherever they write out what is in memory. None would be hit if it were written out now, as it
    is at the end. And none is hit by the entries of the words that stay in the index, which what
    it has written is merged to. -/
theorem Started.entries_encodable {first : Session} (h : first.Started) {stemmer : String → String}
    (nulFree : StemsNulFree first.options.sizes stemmer) {calls : List Call} {stage : Stage}
    (reached : Stage.takeAll { session := { first with stemmer } } calls = some stage)
    (room : stage.session.files.length < UInt32.size) :
    Guarded.takeAll { session := { first with stemmer } } calls = .ok (some stage)
    ∧ (∀ e ∈ stage.session.words, Encodable e.1 e.2)
    ∧ Guarded.flush stage.session = .ok stage.session.flush
    ∧ (stage.session.RunsFit → ∃ segments merged, stage.session.closed.sources = .ok segments
      ∧ Merge.sources segments = .ok merged
      ∧ (∀ word ∈ merged, stage.session.tooCommon word = false → ∃ postings,
        word.ranked stage.session.files = .ok postings ∧ Encodable (Utf8.bytes word.word) postings)
      ∧ ∀ writer i, Guarded.pushWords (stage.session.contents segments) writer i merged
        = (stage.session.contents segments).pushWords writer i merged) := by
  rcases h.exists_recorded stemmer with ⟨base, hrecorded⟩
  have hfirst : Stage.Recording { session := { first with stemmer } } base [] :=
    ⟨hrecorded, acceptsNulFree_of_stems nulFree, fun _ hnone => absurd hnone (by simp)⟩
  -- What the calls record can be written, in memory and after the merge alike.
  rcases hfirst.takeAll reached (Nat.le_of_lt room) with ⟨⟨log, hstage⟩, hguarded⟩
  refine ⟨hguarded, hstage.recorded.encodable, ?_, fun fit => ?_⟩
  · rw [Guarded.flush, Guarded.encodeMap_eq hstage.recorded.encodable]
    rfl
  · obtain ⟨segments, merged, hsources, hmerge, hwords⟩ := hstage.recorded.encodable_merged fit
    refine ⟨segments, merged, hsources, hmerge, hwords,
      Guarded.pushWords_eq fun word hword hkept => ?_⟩
    rcases hwords word hword hkept with ⟨postings, hranked, hencodable⟩
    exact Guarded.entry_eq hranked hencodable

/-- A document of a session that adds to an index is written out in three pieces, twice in the
    middle of a text. A word in it is recorded under two meta names, the greater one first. -/
theorem Started.entries_encodable_of_three :
    let calls : List Call := [.file 0 "two" 30 none, .part (.text "Cats, cats, owls." (some 5)),
      .part (.text "Cats, no dogs, owls." (some 1))]
    ∃ (first : Session) (stage : Stage), first.Started ∧ first.base.isSome
      ∧ StemsNulFree first.options.sizes id
      ∧ Stage.takeAll { session := { first with stemmer := id } } calls = some stage
      ∧ stage.session.files.length = 2 ∧ stage.session.runs.length = 3 ∧ stage.session.RunsFit
      ∧ Guarded.takeAll { session := { first with stemmer := id } } calls = .ok (some stage)
      ∧ (∀ e ∈ stage.session.words, Encodable e.1 e.2)
      ∧ ∃ segments merged, stage.session.closed.sources = .ok segments
        ∧ Merge.sources segments = .ok merged
        ∧ ∀ word ∈ merged, stage.session.tooCommon word = false → ∃ postings,
          word.ranked stage.session.files = .ok postings
            ∧ Encodable (Utf8.bytes word.word) postings := by
  intro calls
  -- The index that is added to.
  let old : List Operation := [.file 0 "one" 12 none [.text "Cats, dogs." none]]
  let before : Session := { options := {}, stopWords := .empty }
  let merged : List WordPostings := [
    ⟨"cats", [{ document := 0, occurrences := 1, positions := [0] }]⟩,
    ⟨"dogs", [{ document := 0, occurrences := 1, positions := [1] }]⟩]
  have hsources : ((before.run old).closed.sources >>= Merge.sources).toOption = some merged := by
    decide +kernel
  rcases exists_of_bind (eq_ok_of_toOption hsources) with ⟨segments, hsegments, hmerge⟩
  let base := (before.run old).volume merged
  have hbound : base.sizeBound < UInt64.size := by decide +kernel
  have hpublished : Published base.bytes :=
    (Published.of_merge rfl (by decide) (by decide +kernel) hsources hbound).1
  -- A session that adds to it.
  let disk : Disk := { root := .directory [("index", .file base.bytes)] }
  let index : Index := ⟨base.bytes.toArray, base.sections.tables⟩
  let first : Session := {
    options := { runSize := 2 }
    stopWords := StopWords.empty.insertAll base.stopWords
    files := base.files
    directories := base.directories.foldl addDirectory []
    metaNames := base.metaNames.foldl (fun all entry => setMetaName entry.1 entry.2 all) []
    base := some index }
  have hbefore : before.Closable := ⟨by decide, by decide, by simp [before], by decide⟩
  have hran : (before.run old).Closable := hbefore.run (by decide)
  have hclosable : base.Closable := hran.volume hmerge
  have hlists : index.Lists base := base.lists_tables hpublished.size hclosable
  have hstart : start? disk { runSize := 2 } .empty = .ok _ := rfl
  have hextend : extend? disk "index" { runSize := 2 } = .ok first :=
    extend?_lists (Disk.openFile_root rfl) (Index.open?_eq hpublished.size) hlists hstart
  have hstarted : first.Started := .extended hpublished (Disk.openFile_root rfl) hextend
  have hrun : (Stage.takeAll { session := { first with stemmer := id } } calls).map
      (fun stage => (stage.session.files.length, stage.session.runs.length,
        decide stage.session.RunsFit)) = some (2, 3, true) := by
    decide +kernel
  rcases Option.map_eq_some_iff.mp hrun with ⟨stage, hreached, hstage⟩
  simp only [Prod.mk.injEq, decide_eq_true_eq] at hstage
  rcases hstage with ⟨hfiles, hruns, hfit⟩
  obtain ⟨hguarded, hwords, -, hmerges⟩ := hstarted.entries_encodable (stemsNulFree_id _) hreached
    (by rw [hfiles]; decide)
  obtain ⟨segments, merged, hsources, hmerge, hentries, -⟩ := hmerges hfit
  exact ⟨first, stage, hstarted, rfl, stemsNulFree_id _, hreached, hfiles, hruns, hfit, hguarded,
    hwords, segments, merged, hsources, hmerge, hentries⟩

end Session

end Concordance
