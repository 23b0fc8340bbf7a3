import Concordance.Proofs.Indexing.Published

/-!
# Texts That Can Be Closed

A session that is only given texts which a NUL can close has no others.

What a session takes over from an index was read up to a NUL, whatever the file is. What it
is given later on is stored as it stands, or folded, which adds no NUL. So if the stop words
that it begins with can be closed, and what it is given can be, then so can all its texts.
Stems do not come into it: they lie in runs until they are merged, and are read up to a NUL
as well.

## Main definitions

* `Session.Closable`: A session whose texts can be closed.
* `Session.Begun`: A session that begins anew or with any file.

## Theorems

* `Session.Closable.apply`: What one operation leaves.
* `Session.Closable.run`: What several leave.
* `Session.Begun.closable`: How a session begins.
-/

namespace Concordance

namespace Session

/-- A session whose texts can be closed, apart from the words of documents. -/
structure Closable (session : Session) : Prop where
  stopWords : ∀ word ∈ session.stopWords.words, NulFree word
  directories : ∀ path ∈ session.directories, NulFree path
  files : ∀ record ∈ session.files, record.Closable
  metaNames : ∀ name ∈ session.metaNames, NulFree name.1

/-- A session that begins anew, with stop words that can be closed, or with any file. -/
inductive Begun : Session → Prop
  | new {disk : Disk} {options : IndexingOptions} {stopWords : StopWords} {session : Session}
    (closable : ∀ word ∈ stopWords.words, NulFree word)
    (start : start? disk options stopWords = .ok session) : Begun session
  | extended {disk : Disk} {path : String} {options : IndexingOptions} {session : Session}
    (extend : extend? disk path options = .ok session) : Begun session

namespace Closable

variable {session : Session}

/-- What is done to records one by one is done to all of them. -/
theorem of_modify {files : List Record} (h : ∀ record ∈ files, record.Closable) (i : Nat)
    {f : Record → Record} (hf : ∀ record : Record, record.Closable → (f record).Closable) :
    ∀ record ∈ files.modify i f, record.Closable := by
  intro record hrecord
  rcases List.mem_iff_getElem.mp hrecord with ⟨j, hj, rfl⟩
  rw [List.length_modify] at hj
  rw [List.getElem_modify]
  split
  · exact hf _ (h _ (List.getElem_mem hj))
  · exact h _ (List.getElem_mem hj)

theorem record (h : session.Closable) (word : String) (document position : UInt32)
    (metaId : Option UInt32) : (session.record word document position metaId).Closable := by
  rw [Session.record]
  split
  · exact ⟨h.stopWords, h.directories, h.files, h.metaNames⟩
  · exact ⟨h.stopWords, h.directories, h.files, h.metaNames⟩

theorem readWord (h : session.Closable) (draft : Draft) (raw : String) (metaId : Option UInt32) :
    (session.readWord draft raw metaId).1.Closable := by
  rw [Session.readWord]
  split
  · exact h
  · exact h.record _ _ _ _

theorem readWords (h : session.Closable) (draft : Draft) (raws : List String)
    (metaId : Option UInt32) : (session.readWords draft raws metaId).1.Closable := by
  rw [Session.readWords]
  induction raws generalizing session draft with
  | nil => exact h
  | cons raw raws ih => exact ih (h.readWord draft raw metaId) _

theorem internDirectory (h : session.Closable) {path : String} (hpath : NulFree path) :
    (session.internDirectory path).1.Closable := by
  rw [internDirectory_eq]
  refine ⟨h.stopWords, fun other hother => ?_, h.files, h.metaNames⟩
  have hother : other ∈ [path].foldl addDirectory session.directories := hother
  rcases mem_of_mem_foldl_addDirectory hother with hother | hother
  · exact h.directories other hother
  · rw [List.mem_singleton.mp hother]
    exact hpath

theorem internName (h : session.Closable) {name : String} (hname : NulFree name) :
    (session.internName name).1.Closable := by
  rw [internName_eq]
  refine ⟨h.stopWords, h.directories, h.files, fun other hother => ?_⟩
  have hother : other ∈ [name].foldl addName session.metaNames := hother
  rcases exists_of_mem_foldl_addName hother with hother | ⟨asked, hasked, heq⟩
  · exact h.metaNames other hother
  · rw [heq, List.mem_singleton.mp hasked]
    exact Text.nulFree_fold hname

theorem applyPart (h : session.Closable) (draft : Draft) {part : Part} (hpart : part.Closable) :
    (session.applyPart draft part).1.Closable := by
  cases part with
  | text text metaId => exact h.readWords draft _ metaId
  | word raw metaId => exact h.readWord draft raw metaId
  | title title =>
    exact ⟨h.stopWords, h.directories,
      of_modify h.files _ fun _ hrecord => ⟨hrecord.name, hpart⟩, h.metaNames⟩
  | metaName name => exact h.internName hpart

/-- One operation leaves texts that can be closed, if it is given such. -/
theorem apply (h : session.Closable) {op : Operation} (hop : op.Closable) :
    (session.apply op).Closable := by
  cases op with
  | directory path => exact h.internDirectory hop
  | metaName name => exact h.internName hop
  | file directory name size title parts =>
    rcases hop with ⟨hname, htitle, hparts⟩
    have hbegun : (session.beginDocument directory name size title).1.Closable := by
      refine ⟨h.stopWords, h.directories, fun record hrecord => ?_, h.metaNames⟩
      rcases List.mem_append.mp hrecord with hrecord | hrecord
      · exact h.files record hrecord
      · rw [List.mem_singleton.mp hrecord]
        exact ⟨hname, htitle⟩
    -- Parts are taken one after another, from the document that was begun.
    have hread : ∀ (parts : List Part) (state : Session × Draft), state.1.Closable →
        (∀ part ∈ parts, part.Closable) →
        (parts.foldl (fun state part => state.1.applyPart state.2 part) state).1.Closable := by
      intro parts
      induction parts with
      | nil => exact fun state hstate _ => hstate
      | cons part parts ih =>
        intro state hstate hparts
        exact ih _ (hstate.applyPart state.2 (hparts part List.mem_cons_self))
          fun other hother => hparts other (List.mem_cons_of_mem _ hother)
    have hdone := hread parts _ hbegun hparts
    exact ⟨hdone.stopWords, hdone.directories,
      of_modify hdone.files _ fun _ hrecord => ⟨hrecord.name, hrecord.title⟩, hdone.metaNames⟩

/-- So do several. -/
theorem run (h : session.Closable) {operations : List Operation}
    (hops : ∀ op ∈ operations, op.Closable) : (session.run operations).Closable := by
  rw [Session.run]
  induction operations generalizing session with
  | nil => exact h
  | cons op operations ih =>
    exact ih (h.apply (hops op List.mem_cons_self)) fun other hother =>
      hops other (List.mem_cons_of_mem _ hother)

end Closable

/-- A meta name that is given an id is the one that was named, or was there before. -/
theorem mem_setMetaName {name : String} {id : UInt32} {all : List (String × UInt32)}
    {x : String × UInt32} (h : x ∈ setMetaName name id all) : x = (name, id) ∨ x ∈ all := by
  fun_induction setMetaName name id all with
  | case1 => exact Or.inl (List.mem_singleton.mp h)
  | case2 old rest => exact (List.mem_cons.mp h).imp (fun heq => heq) (List.mem_cons_of_mem _)
  | case3 other old rest hne ih =>
    rcases List.mem_cons.mp h with rfl | h
    · exact Or.inr List.mem_cons_self
    · exact (ih h).imp (fun heq => heq) (List.mem_cons_of_mem _)

/-- Meta names that are taken over can be closed, if all before could be. -/
theorem nulFree_of_foldl_setMetaName {names before : List (String × UInt32)}
    (hnames : ∀ name ∈ names, NulFree name.1) (hbefore : ∀ name ∈ before, NulFree name.1) :
    ∀ name ∈ names.foldl (fun all (name, id) => setMetaName name id all) before,
      NulFree name.1 := by
  induction names generalizing before with
  | nil => exact hbefore
  | cons first names ih =>
    refine ih (fun name hname => hnames name (List.mem_cons_of_mem _ hname)) fun name hname => ?_
    rcases mem_setMetaName hname with rfl | hname
    · exact hnames _ List.mem_cons_self
    · exact hbefore name hname

/-- What is taken over from an index was closed there. -/
theorem Closable.takeOver {session taken : Session} {index : Index} (h : session.Closable)
    (htaken : session.takeOver index = .ok taken) : taken.Closable := by
  obtain ⟨stops, paths, files, names, hstops, hpaths, hfiles, hnames, rfl⟩ :=
    exists_of_takeOver htaken
  refine ⟨fun word hword => ?_, fun path hpath => ?_, fun record hrecord => ?_, ?_⟩
  · rcases StopWords.mem_insertAll.mp hword with hword | hword
    · exact h.stopWords word hword
    · rcases Segment.exists_of_collect_entries hstops word hword with ⟨entry, hentry⟩
      exact nulFree_of_decodeText hentry
  · rcases mem_of_mem_foldl_addDirectory hpath with hpath | hpath
    · exact h.directories path hpath
    · rcases Segment.exists_of_collect_entries hpaths path hpath with ⟨entry, hentry⟩
      exact nulFree_of_decodeText hentry
  · rcases List.mem_append.mp hrecord with hrecord | hrecord
    · exact h.files record hrecord
    · rcases Segment.exists_of_collect_entries hfiles record hrecord with ⟨entry, hentry⟩
      exact Record.closable_of_decode hentry
  · -- A name that is there already gets another id, and stays the same text.
    have hread : ∀ name ∈ names, NulFree name.1 := by
      intro name hname
      rcases Segment.exists_of_collect_entries hnames name hname with ⟨entry, hentry⟩
      exact MetaName.nulFree_of_decode hentry
    exact nulFree_of_foldl_setMetaName hread h.metaNames

/-- A session that has begun has texts that can be closed. -/
theorem Begun.closable {session : Session} (h : session.Begun) : session.Closable := by
  have hnew : ∀ (options : IndexingOptions) {stopWords : StopWords},
      (∀ word ∈ stopWords.words, NulFree word) → ({ options, stopWords } : Session).Closable :=
    fun options stopWords hstops => ⟨hstops, by simp, by simp, by simp⟩
  cases h with
  | new closable start =>
    rcases eq_of_start? start with rfl
    exact hnew _ closable
  | @extended disk path options _ extend =>
    rcases exists_of_extend? extend with ⟨bytes, index, taken, -, -, htaken, rfl⟩
    have hclosable := Closable.takeOver (hnew options (by simp [StopWords.empty])) htaken
    exact ⟨hclosable.stopWords, hclosable.directories, hclosable.files, hclosable.metaNames⟩

end Session

end Concordance
