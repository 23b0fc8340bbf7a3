import Concordance.Proofs.Indexing.Session

/-!
# One Call at a Time

A session between any two calls, and so in the middle of a document as well.

An operation reads a whole document, and a session that was asked for operations is only seen
between documents. Its caller sees more of it. It is given the ids of meta names while it reads
a document, and words are written out while it does. So a stage has room for the document that
is being read. What can be called depends on it, because the document keeps the session to
itself: nothing else is begun before it is closed.

A call has no more to it than the function of the session that it stands for. What is new is the
order in which they can come, and what can be said about all of them at once: they leave the
rules of the session, and only add to what is registered.

## Main definitions

* `Call`: What can be called, between documents and in them.
* `Stage`: A session and the document that it is reading, if it is.
* `Stage.take`, `Stage.takeAll`: What calls leave.

## Theorems

* `Stage.take_eq_some_iff`: Which calls can be made, and what they leave.
* `Stage.takeAll_keeps`: Calls only add to what is registered.
-/

namespace Concordance

/-- What a caller can do, one step at a time. -/
inductive Call where
  | directory (path : String)
  | metaName (name : String)
  | file (directory : UInt32) (name : String) (size : UInt64) (title : Option String)
  | part (part : Part)
  /-- The document is read to its end. -/
  | close
deriving DecidableEq, Repr

namespace Call

/-- The directory that a call asks for. -/
def paths : Call → List String
  | .directory path => [path]
  | _ => []

/-- The meta name that a call asks for. -/
def names : Call → List String
  | .metaName name => [name]
  | .part inner => inner.names
  | _ => []

end Call

/-- A session, and the document that it is reading if it is. -/
structure Stage where
  session : Session
  draft : Option Draft := none

namespace Stage

/-- What a call leaves. A document keeps the session to itself until it is closed, and without
    one there is nothing that could have parts. -/
def take (stage : Stage) (call : Call) : Option Stage :=
  match stage.draft, call with
  | none, .directory path => some { session := (stage.session.internDirectory path).1 }
  | none, .metaName name => some { session := (stage.session.internName name).1 }
  | none, .file directory name size title =>
    let (session, draft) := stage.session.beginDocument directory name size title
    some { session, draft }
  | some draft, .part part =>
    let (session, draft) := stage.session.applyPart draft part
    some { session, draft }
  | some draft, .close => some { session := stage.session.endDocument draft }
  | _, _ => none

/-- What several calls leave. -/
def takeAll (stage : Stage) : List Call → Option Stage
  | [] => some stage
  | call :: calls =>
    match stage.take call with
    | none => none
    | some next => next.takeAll calls

/-- The calls that can be made, and what they leave. -/
inductive Takes : Stage → Call → Stage → Prop
  | directory (session : Session) (path : String) :
    Takes { session } (.directory path) { session := (session.internDirectory path).1 }
  | metaName (session : Session) (name : String) :
    Takes { session } (.metaName name) { session := (session.internName name).1 }
  | file (session : Session) (directory : UInt32) (name : String) (size : UInt64)
    (title : Option String) : Takes { session } (.file directory name size title)
      { session := (session.beginDocument directory name size title).1
        draft := (session.beginDocument directory name size title).2 }
  | part (session : Session) (draft : Draft) (part : Part) :
    Takes { session, draft } (.part part)
      { session := (session.applyPart draft part).1, draft := (session.applyPart draft part).2 }
  | close (session : Session) (draft : Draft) :
    Takes { session, draft } .close { session := session.endDocument draft }

variable {stage after : Stage} {call : Call} {calls : List Call}

theorem take_eq_some_iff : stage.take call = some after ↔ Takes stage call after := by
  constructor
  · intro h
    -- Parts are taken while a document is open, and everything else while none is.
    rcases stage with ⟨session, _ | draft⟩
    · cases call with
      | directory path =>
        rcases Option.some.inj h with rfl
        exact .directory session path
      | metaName name =>
        rcases Option.some.inj h with rfl
        exact .metaName session name
      | file directory name size title =>
        rcases Option.some.inj h with rfl
        exact .file session directory name size title
      | part part => exact absurd h (by simp [take])
      | close => exact absurd h (by simp [take])
    · cases call with
      | part part =>
        rcases Option.some.inj h with rfl
        exact .part session draft part
      | close =>
        rcases Option.some.inj h with rfl
        exact .close session draft
      | directory path => exact absurd h (by simp [take])
      | metaName name => exact absurd h (by simp [take])
      | file directory name size title => exact absurd h (by simp [take])
  · intro h
    cases h <;> rfl

/-- Several calls are made if the first one can be made and then the others. -/
theorem takeAll_cons : stage.takeAll (call :: calls) = some after
    ↔ ∃ next, Takes stage call next ∧ next.takeAll calls = some after := by
  rw [takeAll]
  rcases htake : stage.take call with _ | next
  · refine ⟨fun h => absurd h (by simp), ?_⟩
    rintro ⟨next, htakes, -⟩
    rw [take_eq_some_iff.mpr htakes] at htake
    exact absurd htake (by simp)
  · refine ⟨fun h => ⟨next, take_eq_some_iff.mp htake, h⟩, ?_⟩
    rintro ⟨other, htakes, h⟩
    rw [take_eq_some_iff.mpr htakes] at htake
    rcases Option.some.inj htake with rfl
    exact h

end Stage

namespace Session

/-- A word changes what is in memory and in the runs. -/
theorem readWord_keeps (session : Session) (draft : Draft) (raw : String)
    (metaId : Option UInt32) : ∃ words sinceFlush runs,
    (session.readWord draft raw metaId).1 = { session with words, sinceFlush, runs } := by
  rw [readWord]
  rcases session.accept (Word.prepare raw) with _ | stem
  · exact ⟨session.words, session.sinceFlush, session.runs, rfl⟩
  · exact session.recordAll_keeps [⟨stem, draft.document, draft.position, metaId⟩]

/-- So do several words. -/
theorem readWords_keeps (session : Session) (draft : Draft) (raws : List String)
    (metaId : Option UInt32) : ∃ words sinceFlush runs,
    (session.readWords draft raws metaId).1 = { session with words, sinceFlush, runs } := by
  induction raws generalizing session draft with
  | nil => exact ⟨session.words, session.sinceFlush, session.runs, rfl⟩
  | cons raw raws ih =>
    rcases session.readWord_keeps draft raw metaId with ⟨_, _, _, hword⟩
    rcases ih (session.readWord draft raw metaId).1 (session.readWord draft raw metaId).2 with
      ⟨words, sinceFlush, runs, hrest⟩
    refine ⟨words, sinceFlush, runs, hrest.trans ?_⟩
    rw [hword]

/-- A part of a document changes these, a title, and the meta names. -/
theorem applyPart_keeps (session : Session) (draft : Draft) (part : Part) :
    ∃ words sinceFlush runs files, files.length = session.files.length
      ∧ (session.applyPart draft part).1 = { session with
        words, sinceFlush, runs, files
        metaNames := part.names.foldl addName session.metaNames } := by
  cases part with
  | text text metaId =>
    rcases session.readWords_keeps draft (Word.candidates (Text.fold text)) metaId with
      ⟨words, sinceFlush, runs, hwords⟩
    exact ⟨words, sinceFlush, runs, session.files, rfl, hwords⟩
  | word raw metaId =>
    rcases session.readWord_keeps draft raw metaId with ⟨words, sinceFlush, runs, hword⟩
    exact ⟨words, sinceFlush, runs, session.files, rfl, hword⟩
  -- The record of the document changes and no other, so that there are as many as before.
  | title title =>
    exact ⟨session.words, session.sinceFlush, session.runs, _, List.length_modify .., rfl⟩
  | metaName name =>
    exact ⟨session.words, session.sinceFlush, session.runs, session.files, rfl,
      session.internName_eq name⟩

end Session

namespace Stage

variable {stage after : Stage} {call : Call} {calls : List Call}

/-- A call leaves the rules of a session and what it adds to. There are no fewer documents behind
    it, and no directories and meta names but those that were there and those that it asks for. -/
theorem Takes.keeps (h : Takes stage call after) : ∃ words sinceFlush runs files,
    stage.session.files.length ≤ files.length
    ∧ after.session = { stage.session with
      words, sinceFlush, runs, files
      directories := call.paths.foldl addDirectory stage.session.directories
      metaNames := call.names.foldl addName stage.session.metaNames } := by
  cases h with
  | directory session path =>
    exact ⟨session.words, session.sinceFlush, session.runs, session.files, Nat.le_refl _,
      session.internDirectory_eq path⟩
  | metaName session name =>
    exact ⟨session.words, session.sinceFlush, session.runs, session.files, Nat.le_refl _,
      session.internName_eq name⟩
  -- A document is put behind those that there are.
  | file session directory name size title =>
    exact ⟨session.words, session.sinceFlush, session.runs, _,
      (List.prefix_append _ _).length_le, rfl⟩
  | part session draft part =>
    rcases session.applyPart_keeps draft part with ⟨words, sinceFlush, runs, files, hlength, hpart⟩
    exact ⟨words, sinceFlush, runs, files, Nat.le_of_eq hlength.symm, hpart⟩
  | close session draft =>
    exact ⟨session.words, session.sinceFlush, session.runs, _,
      Nat.le_of_eq (List.length_modify ..).symm, rfl⟩

/-- So do several calls. -/
theorem takeAll_keeps (h : stage.takeAll calls = some after) : ∃ words sinceFlush runs files,
    stage.session.files.length ≤ files.length
    ∧ after.session = { stage.session with
      words, sinceFlush, runs, files
      directories := (calls.flatMap Call.paths).foldl addDirectory stage.session.directories
      metaNames := (calls.flatMap Call.names).foldl addName stage.session.metaNames } := by
  induction calls generalizing stage with
  | nil =>
    rcases Option.some.inj h with rfl
    exact ⟨_, _, _, _, Nat.le_refl _, rfl⟩
  | cons call calls ih =>
    rcases takeAll_cons.mp h with ⟨next, htakes, hrest⟩
    rcases htakes.keeps with ⟨_, _, _, _, hlength, hnext⟩
    rcases ih hrest with ⟨words, sinceFlush, runs, files, hlength', hafter⟩
    rw [hnext] at hlength'
    refine ⟨words, sinceFlush, runs, files, Nat.le_trans hlength hlength', hafter.trans ?_⟩
    rw [hnext, List.flatMap_cons, List.foldl_append, List.flatMap_cons, List.foldl_append]

end Stage

end Concordance
