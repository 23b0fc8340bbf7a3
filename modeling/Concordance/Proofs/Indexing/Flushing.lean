import Concordance.Proofs.Indexing.Publication

/-!
# The Size of Runs Does Not Show

Sessions that differ in how many words they hold in memory write the same index.

A session holds as many words in memory as it may and writes them out as a run. Two
sessions with different sizes of runs cut the same documents apart in different
places, and put different things into their runs. Their logs are the same, because
what is accepted does not depend on the size. What a session publishes depends on
its log and on what it registered, and on nothing else.

## Theorems

* `Session.volume_congr`: What the index of a session depends on.
* `Session.runSize_irrelevant`: The size of runs does not show.
-/

namespace Concordance

namespace Session

/-- A session that could be started knows its options and stop words, and nothing
    else. -/
theorem eq_of_start? {disk : Disk} {options : IndexingOptions} {stopWords : StopWords}
    {session : Session} (h : start? disk options stopWords = .ok session) :
    session = { options, stopWords } := by
  rw [start?] at h
  rcases exists_of_bind h with ⟨-, -, h⟩
  split at h
  · exact (Except.ok.inj h).symm
  · split at h
    · exact absurd h (by simp)
    · exact (Except.ok.inj h).symm

/-- Sessions demote the same words if they have the same limit and as many
    documents. -/
theorem tooCommon_congr {session other : Session}
    (hspread : session.options.spread = other.options.spread)
    (hfiles : session.files.length = other.files.length) :
    session.tooCommon = other.tooCommon := by
  funext word
  rw [tooCommon, tooCommon, hspread, hfiles]

/-- What the index of a session depends on. -/
theorem volume_congr {session other : Session} (hstops : session.stopWords = other.stopWords)
    (hspread : session.options.spread = other.options.spread)
    (hfiles : session.files = other.files) (hdirectories : session.directories = other.directories)
    (hnames : session.metaNames = other.metaNames) : session.volume = other.volume := by
  have hcommon := tooCommon_congr hspread (congrArg List.length hfiles)
  funext merged
  rw [volume, volume, demoted, demoted, hstops, hfiles, hdirectories, hnames, hcommon]

/-- Sessions that agree in this still do once both were asked to do the same. -/
theorem volume_run_congr (session other : Session) (hstops : session.stopWords = other.stopWords)
    (hspread : session.options.spread = other.options.spread)
    (hfiles : session.files = other.files) (hdirectories : session.directories = other.directories)
    (hnames : session.metaNames = other.metaNames) {operations : List Operation}
    (hroom : session.files.length + (records operations).length ≤ UInt32.size) :
    (session.run operations).volume = (other.run operations).volume
      ∧ (session.run operations).demoted = (other.run operations).demoted := by
  rcases session.run_keeps operations hroom with ⟨_, _, _, hrun⟩
  rcases other.run_keeps operations (by rw [← hfiles]; exact hroom) with ⟨_, _, _, hrun'⟩
  -- What a run leaves alone is the same on both sides, and what it adds does not depend on it.
  have hcommon : (session.run operations).tooCommon = (other.run operations).tooCommon := by
    refine tooCommon_congr ?_ ?_
    · rw [hrun, hrun']
      exact hspread
    · rw [hrun, hrun', hfiles]
  refine ⟨volume_congr ?_ ?_ ?_ ?_ ?_, ?_⟩
  · rw [hrun, hrun']
    exact hstops
  · rw [hrun, hrun']
    exact hspread
  · rw [hrun, hrun', hfiles]
  · rw [hrun, hrun', hdirectories]
  · rw [hrun, hrun', hnames]
  · funext merged
    rw [demoted, demoted, hcommon]

/-- Two sessions that differ in how many words they hold in memory, and are asked to
    do the same, write the same index and report the same about it. -/
theorem runSize_irrelevant (disk : Disk) (options : IndexingOptions) (small large : Nat)
    (stopWords : StopWords) (stemmer : String → String)
    (hnul : StemsNulFree options.sizes stemmer) (operations : List Operation)
    (hroom : (records operations).length < UInt32.size) {first second : Session}
    (hfirst : start? disk { options with runSize := small } stopWords = .ok first)
    (hsecond : start? disk { options with runSize := large } stopWords = .ok second)
    (hfit : ({ first with stemmer }.run operations).RunsFit)
    (hfit' : ({ second with stemmer }.run operations).RunsFit) :
    ({ first with stemmer }.run operations).PublishesLike
      ({ second with stemmer }.run operations) := by
  rcases eq_of_start? hfirst with rfl
  rcases eq_of_start? hsecond with rfl
  -- The log is what the size of runs has no part in.
  have hdone : ∀ runSize,
      (({ options := { options with runSize }, stemmer, stopWords } : Session).run
        operations).HasRecorded [] (Log.ofCorpus
          ({ options, stemmer, stopWords } : Session).accept 0 (corpus operations)) :=
    fun runSize => HasRecorded.new_run { options with runSize } stopWords hnul (Nat.le_of_lt hroom)
  -- Both merge to what the log and no base come to, and there is one way to do so.
  rcases (hdone small).publishes hfit with ⟨merged, sources, hmerges, hpublishes⟩
  rcases (hdone large).publishes hfit' with ⟨other, sources', hmerges', hpublishes'⟩
  rcases hmerges.unique hmerges' with rfl
  obtain ⟨hvolume, hdemoted⟩ := volume_run_congr
    { options := { options with runSize := small }, stemmer, stopWords }
    { options := { options with runSize := large }, stemmer, stopWords }
    rfl rfl rfl rfl rfl (by rw [List.length_nil, Nat.zero_add]; exact Nat.le_of_lt hroom)
  exact publishesLike_of_volume hpublishes hpublishes' (congrFun hvolume merged)
    (congrFun hdemoted merged)

/-- A document whose words are in three runs, or in two. -/
theorem runSize_irrelevant_one_two :
    let letter : Operation := .file 0 "letter" 14 none [.text "Sense and sense." (some 4)]
    (({ options := { runSize := 1 }, stopWords := .empty } : Session).run
      [letter]).PublishesLike
        (({ options := { runSize := 2 }, stopWords := .empty } : Session).run [letter]) := by
  intro letter
  have hfit : (({ options := { runSize := 1 }, stopWords := .empty } : Session).run
      [letter]).RunsFit := by decide +kernel
  have hfit' : (({ options := { runSize := 2 }, stopWords := .empty } : Session).run
      [letter]).RunsFit := by decide +kernel
  have h := runSize_irrelevant {} {} 1 2 .empty id (stemsNulFree_id _) [letter] (by decide)
    rfl rfl hfit hfit'
  exact h

end Session

end Concordance
