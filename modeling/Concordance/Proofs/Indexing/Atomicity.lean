import Concordance.Proofs.Indexing.Placement

/-!
# All or Nothing

A session that fails to end leaves every file as it was.

A session ends in many steps that may fail: its sources are opened and merged twice, words
are ranked, and a place has to be found for the file. All of them are either taken before
anything is written, or while a new file is written that is taken away again. So an error
leaves the very same tree, and what a session publishes depends on no place at all.

The runs of a session are files as well. They lie in a directory that is made when the
session begins and taken away when it is over. Whatever is in it, it makes no difference to
what is left in the end.

## Theorems

* `Contents.publish_error`, `Session.finish_error`: What fails changes nothing.
* `Session.exists_of_finish`: What went well when a session ended.
* `Session.finish_ok`: What ends well changes one file.
* `Session.finish_atomic`: Ending a session changes one file or nothing.
-/

namespace Concordance

namespace Contents

/-- If an index is not written, nothing has changed. -/
theorem publish_error {contents : Contents} {stopWords : StopWords} {disk after : Disk}
    {path : String} {e : Error} (h : contents.publish stopWords disk path = (.error e, after)) :
    after = disk := by
  rw [publish] at h
  rcases hsurvey : contents.survey with e' | survey
  · simp only [hsurvey, Prod.mk.injEq] at h
    exact h.2.symm
  · simp only [hsurvey] at h
    rcases hpublish : publishBytes disk path
        (contents.encode survey.kept (stopWords.insertAll survey.demoted).sorted)
      with ⟨e' | ⟨⟨⟩⟩, disk'⟩
    · simp only [hpublish, Prod.mk.injEq] at h
      rw [← h.2]
      exact publishBytes_error hpublish
    · simp only [hpublish, Prod.mk.injEq, reduceCtorEq, false_and] at h

end Contents

namespace Session

variable {session : Session} {disk after : Disk} {path : String}

/-- If a session can not be ended, nothing has changed. -/
theorem finish_error {e : Error} (h : session.finish disk path = (.error e, after)) :
    after = disk := by
  rcases hsources : session.closed.sources with e' | segments
  · rw [finish, ← closed, hsources, Prod.mk.injEq] at h
    exact h.2.symm
  · rw [finish_eq hsources] at h
    exact Contents.publish_error h

/-- What went well when a session ended. It publishes what it has written. -/
theorem exists_of_finish {summary : PublicationSummary}
    (h : session.finish disk path = (.ok summary, after)) :
    ∃ segments survey bytes, session.closed.sources = .ok segments
      ∧ (session.contents segments).survey = .ok survey
      ∧ (session.contents segments).encode survey.kept
          (session.stopWords.insertAll survey.demoted).sorted = .ok bytes
      ∧ session.Publishes summary bytes
      ∧ Contents.publishBytes disk path (.ok bytes) = (.ok (), after) := by
  rcases hsources : session.closed.sources with e | segments
  · rw [finish, ← closed, hsources] at h
    exact absurd h (by simp)
  rw [finish_eq hsources] at h
  rcases Contents.exists_of_publish h with ⟨survey, bytes, hsurvey, hencode, hbytes, rfl⟩
  refine ⟨segments, survey, bytes, rfl, hsurvey, hencode, fun disk' path' => ?_, hbytes⟩
  -- Neither the survey nor the bytes have to do with where they are written.
  rcases hdone : Contents.publishBytes disk' path' (.ok bytes) with ⟨e | ⟨⟨⟩⟩, published⟩
  · simp only [finish_eq hsources, Contents.publish, hsurvey, hencode, hdone]
  · simp only [finish_eq hsources, Contents.publish, hsurvey, hencode, hdone]

/-- A session that publishes bytes can be ended where they can be written. -/
theorem Publishes.finish_eq {summary : PublicationSummary} {bytes : Bytes}
    (h : session.Publishes summary bytes)
    (hbytes : Contents.publishBytes disk path (.ok bytes) = (.ok (), after)) :
    session.finish disk path = (.ok summary, after) := by
  rw [h, hbytes]

/-- If a session can be ended, the tree has its index where the path leads, and is otherwise
    as it was. -/
theorem finish_ok {summary : PublicationSummary}
    (h : session.finish disk path = (.ok summary, after)) :
    ∃ bytes location, session.Publishes summary bytes ∧ disk.placeOf path = .ok location
      ∧ disk.GainsFile after location bytes := by
  rcases exists_of_finish h with ⟨segments, survey, bytes, -, -, -, hpublishes, hbytes⟩
  rcases Contents.publishBytes_ok hbytes with ⟨location, hlocation, hgains⟩
  exact ⟨bytes, location, hpublishes, hlocation, hgains⟩

/-- Ending a session changes one file or nothing, whatever the session has and wherever the
    index is to be written.

    This is so while the runs that were written out lie in a directory of the tree, which is
    new at `place` and is taken away when the session is over. Then nothing is left of it,
    and of an index only if it was not to be written into that directory. -/
theorem finish_atomic (session : Session) (disk : Disk) (path : String) :
    (∀ e after, session.finish disk path = (.error e, after) → after = disk)
    ∧ (∀ summary after, session.finish disk path = (.ok summary, after) →
      ∃ bytes location, session.Publishes summary bytes ∧ disk.placeOf path = .ok location
        ∧ disk.GainsFile after location bytes)
    ∧ ∀ place entries name runs, disk.root.get? place = some (.directory entries) →
      Node.lookup name entries = none →
      let during := disk.put place name (.directory runs)
      (∀ e after, session.finish during path = (.error e, after) →
        after.erase place name = disk)
      ∧ ∀ summary after, session.finish during path = (.ok summary, after) →
        ∃ bytes location, session.Publishes summary bytes
          ∧ during.placeOf path = .ok location
          ∧ ∀ other, (after.erase place name).item? other
            = if other = location ∧ ¬ (place ++ [name]) <+: location then some (.file bytes)
              else disk.item? other := by
  refine ⟨fun e after => finish_error, fun summary after => finish_ok, ?_⟩
  intro place entries name runs hplace hname during
  refine ⟨fun e after h => ?_, fun summary after h => ?_⟩
  · rw [finish_error h]
    exact Disk.erase_put hplace hname
  · rcases finish_ok h with ⟨bytes, location, hpublishes, hlocation, hgains⟩
    refine ⟨bytes, location, hpublishes, hlocation, fun other => ?_⟩
    -- A place is either in the directory of the runs, and goes with it, or is as it was but for the
    -- file that is written.
    by_cases hinside : (place ++ [name]) <+: other
    · -- What lay in the directory of the runs is gone, and was not there before.
      rw [Disk.item?_erase_self hinside, if_neg, Disk.item?_eq_none hplace hname hinside]
      rintro ⟨rfl, hnot⟩
      exact hnot hinside
    · rw [Disk.item?_erase hinside, hgains, Disk.item?_put hinside]
      by_cases hsame : other = location
      · rw [if_pos hsame, if_pos ⟨hsame, hsame ▸ hinside⟩]
      · rw [if_neg hsame, if_neg fun h => hsame h.1]

/-- An index is written beside the directory of the runs. Without the documents, a word has
    a posting of one that there is not, which shows when all runs are merged again. -/
theorem finish_atomic_of_two :
    let session : Session := {
      options := { spread := { maxDocuments := 1 } }
      stopWords := .empty
      words := [(Utf8.bytes "cats", [{ document := 0, occurrences := 1, positions := [0] }]),
        (Utf8.bytes "dogs", [{ document := 0, occurrences := 1, positions := [1] },
          { document := 1, occurrences := 1, positions := [0] }])]
      files := [⟨0, "one", 11, 2, ""⟩, ⟨0, "two", 4, 1, ""⟩]
      directories := ["."] }
    let during : Disk :=
      { root := .directory [("runs", .directory [("run", .file session.words.encode)])] }
    (∃ summary after bytes location, session.finish during "index" = (.ok summary, after)
      ∧ session.Publishes summary bytes ∧ during.placeOf "index" = .ok location
      ∧ ∀ other, (after.erase [] "runs").item? other
        = if other = location ∧ ¬ ["runs"] <+: location then some (.file bytes)
          else Disk.item? {} other)
    ∧ ∃ document after, { session with files := [] }.finish during "index"
        = (.error (.corrupt (.unknownDocument document)), after)
      ∧ after = during ∧ after.erase [] "runs" = {} := by
  intro session during
  let merged : List WordPostings := [
    ⟨"cats", [{ document := 0, occurrences := 1, positions := [0] }]⟩,
    ⟨"dogs", [{ document := 0, occurrences := 1, positions := [1] },
      { document := 1, occurrences := 1, positions := [0] }]⟩]
  have hsources : (session.closed.sources >>= Merge.sources).toOption = some merged := by
    decide +kernel
  have hfree : ∀ inner, Node.lookup "index" [("runs", Node.directory
      [("run", .file session.words.encode)])] ≠ some (.directory inner) := by
    simp [Node.lookup]
  have hatomic := fun session : Session => (finish_atomic session {} "index").2.2 [] [] "runs"
    [("run", .file session.words.encode)] rfl rfl
  constructor
  · obtain ⟨segments, -, -, hpublishes⟩ := exists_publishes_volume hsources (by decide +kernel)
    have hfinish := hpublishes.finish_eq (Contents.publishBytes_root hfree _)
    rcases (hatomic session).2 _ _ hfinish with ⟨bytes, location, hbytes, hlocation, hitem⟩
    exact ⟨_, _, bytes, location, hfinish, hbytes, hlocation, hitem⟩
  · -- The words are the same, but the first of them has a document that is not there any more.
    let other : Session := { session with files := [] }
    have hsources' : (other.closed.sources >>= Merge.sources).toOption = some merged := by
      decide +kernel
    rcases exists_of_bind (eq_ok_of_toOption hsources') with ⟨segments', hsegments', hmerge'⟩
    let contents := other.contents segments'
    have hmerge'' : Merge.sources contents.sources = .ok merged := hmerge'
    have hkept : contents.kept merged = merged.take 1 := by
      show merged.filter (fun word => !other.tooCommon word) = merged.take 1
      decide +kernel
    have hencode : ∀ stops, contents.encode (merged.take 1).length stops
        = .error (.corrupt (.unknownDocument 0)) := by
      intro stops
      have h := contents.encode_eq hmerge'' stops
      rw [hkept] at h
      exact h
    have hfinish : ∃ after, other.finish during "index"
        = (.error (.corrupt (.unknownDocument 0)), after) := by
      rw [finish_eq hsegments', Contents.publish, Contents.survey_eq _ hmerge'']
      simp only [contents, hkept, hencode] at *
      rcases Contents.publishBytes_root_error [("runs", Node.directory
        [("run", .file session.words.encode)])] (.corrupt (.unknownDocument 0)) with ⟨after, h⟩
      rw [h]
      exact ⟨after, rfl⟩
    rcases hfinish with ⟨after, hfinish⟩
    exact ⟨0, after, hfinish, (finish_atomic other during "index").1 _ _ hfinish,
      (hatomic other).1 _ _ hfinish⟩

end Session

end Concordance
