import Concordance.Proofs.WordMap.Stored

/-!
# Logs

What was recorded, one occurrence after the other.

A log is what a session would remember if memory did not matter. It has no places
at which it is cut, and so it can say what an index must contain however the
session wrote its runs. A word's postings in the map of a log are its single
occurrences fused, and logs that are put together fuse as a whole.

Occurrences are recorded document after document and position after position. A
log of this kind whose words can be stored is `Orderly`, and its map is one that
can be stored.

## Main definitions

* `Occurrence`: A word somewhere in a document.
* `Log.postingsOf`: The occurrences of a word as postings of their own.
* `Log.words`: The map of everything recorded.
* `Log.Orderly`: Occurrences as they come when documents are read.

## Theorems

* `Log.postingsOf_words`: The postings of a word in the map.
* `Log.words_storable`: The map of an orderly log can be stored.
-/

namespace Concordance

/-- A word somewhere in a document. -/
structure Occurrence where
  word : String
  document : UInt32
  position : UInt32
  metaId : Option UInt32
deriving DecidableEq, Repr

namespace Occurrence

/-- What the word is sorted by. -/
def key (occurrence : Occurrence) : Bytes :=
  Utf8.bytes occurrence.word

/-- The occurrence as a posting of its own. -/
def posting (occurrence : Occurrence) : Posting :=
  Posting.single occurrence.document occurrence.position occurrence.metaId

theorem posting_tidy (occurrence : Occurrence) : occurrence.posting.Tidy := by
  refine ⟨?_, List.pairwise_singleton _ _⟩
  rcases occurrence with ⟨word, document, position, _ | id⟩
  · exact List.Pairwise.nil
  · exact List.pairwise_singleton _ _

end Occurrence

/-- What was recorded, the first occurrence first. -/
abbrev Log := List Occurrence

namespace Log

/-- The occurrences of a word as postings of their own. -/
def postingsOf (log : Log) (key : Bytes) : List Posting :=
  (log.filter fun occurrence => occurrence.key = key).map Occurrence.posting

/-- A map with one more occurrence. -/
def add (words : WordMap) (occurrence : Occurrence) : WordMap :=
  words.record occurrence.key occurrence.document occurrence.position occurrence.metaId

/-- The map of everything recorded. -/
def words (log : Log) : WordMap :=
  log.foldl add []

/-- Occurrences as they come when documents are read, of words that can be
    stored. -/
structure Orderly (log : Log) : Prop where
  nulFree : ∀ occurrence ∈ log, NulFree occurrence.word
  ordered : log.Pairwise fun a b => a.posting.Precedes b.posting

theorem Orderly.sublist {log log' : Log} (h : log.Orderly) (hsub : log'.Sublist log) :
    log'.Orderly :=
  ⟨fun occurrence hmem => h.nulFree occurrence (hsub.subset hmem), h.ordered.sublist hsub⟩

theorem postingsOf_append (log more : Log) (key : Bytes) :
    postingsOf (log ++ more) key = postingsOf log key ++ postingsOf more key := by
  rw [postingsOf, List.filter_append, List.map_append, ← postingsOf, ← postingsOf]

theorem postingsOf_flatten (logs : List Log) (key : Bytes) :
    postingsOf logs.flatten key = logs.flatMap (postingsOf · key) := by
  induction logs with
  | nil => rfl
  | cons log logs ih => rw [List.flatten_cons, postingsOf_append, ih, List.flatMap_cons]

theorem postingsOf_tidy (log : Log) (key : Bytes) : ∀ p ∈ log.postingsOf key, p.Tidy := by
  intro p hp
  rcases List.mem_map.mp hp with ⟨occurrence, -, rfl⟩
  exact occurrence.posting_tidy

theorem Orderly.postingsOf_precedes {log : Log} (h : log.Orderly) (key : Bytes) :
    (log.postingsOf key).Pairwise Posting.Precedes :=
  List.pairwise_map.mpr (h.ordered.sublist List.filter_sublist)

theorem foldl_add_proper (log : Log) {start : WordMap} (h : start.Proper) :
    (log.foldl add start).Proper := by
  induction log generalizing start with
  | nil => exact h
  | cons occurrence log ih => exact ih (h.record ..)

theorem postingsOf_foldl_add (log : Log) {start : WordMap} (h : start.Proper) (key : Bytes) :
    (log.foldl add start).postingsOf key
      = (log.postingsOf key).foldl attach (start.postingsOf key) := by
  induction log generalizing start with
  | nil => rfl
  | cons occurrence log ih =>
    have hadd : (add start occurrence).Proper := h.record ..
    rw [List.foldl_cons, ih hadd, add, WordMap.postingsOf_record _ _ _ _ h.ascend,
      postingsOf, postingsOf, List.filter_cons]
    by_cases hkey : key = occurrence.key
    · rw [if_pos hkey, if_pos (by simp [hkey]), hkey]
      rfl
    · rw [if_neg hkey, if_neg (by simpa using fun heq => hkey heq.symm)]

theorem words_proper (log : Log) : (words log).Proper :=
  foldl_add_proper log ⟨List.Pairwise.nil, fun _ he => absurd he List.not_mem_nil⟩

/-- The postings of a word in the map are its occurrences, put together. -/
theorem postingsOf_words (log : Log) (key : Bytes) :
    (words log).postingsOf key = fuse (log.postingsOf key) :=
  postingsOf_foldl_add log ⟨List.Pairwise.nil, fun _ he => absurd he List.not_mem_nil⟩ key

/-- A map without words is that of a log without occurrences. -/
theorem eq_nil_of_words {log : Log} (h : words log = []) : log = [] := by
  rcases log with _ | ⟨occurrence, log⟩
  · rfl
  · have hmem : occurrence.posting ∈ postingsOf (occurrence :: log) occurrence.key :=
      List.mem_map_of_mem (List.mem_filter.mpr ⟨List.mem_cons_self, by simp⟩)
    have hpost := postingsOf_words (occurrence :: log) occurrence.key
    rw [h, WordMap.postingsOf_nil] at hpost
    exact absurd hpost.symm (fuse_ne_nil (List.ne_nil_of_mem hmem))

/-- The map has no words but those that were recorded. -/
theorem exists_of_mem_words {log : Log} {e : Bytes × List Posting} (h : e ∈ words log) :
    ∃ occurrence ∈ log, occurrence.key = e.1 := by
  have hne := (words_proper log).nonempty e h
  rw [← WordMap.postingsOf_of_mem (words_proper log).ascend h, postingsOf_words] at hne
  rcases List.exists_mem_of_ne_nil _ hne with ⟨p, hp⟩
  rcases exists_of_mem_fuse hp with ⟨q, hq, -⟩
  rcases List.mem_map.mp hq with ⟨occurrence, hmem, -⟩
  have hmem := List.mem_filter.mp hmem
  exact ⟨occurrence, hmem.1, of_decide_eq_true hmem.2⟩

/-- The postings in the map of an orderly log are tidy. -/
theorem Orderly.words_tidy {log : Log} (h : log.Orderly) {e : Bytes × List Posting}
    (he : e ∈ words log) : TidyPostings e.2 := by
  rw [← WordMap.postingsOf_of_mem (words_proper log).ascend he, postingsOf_words]
  exact fuse_tidy (log.postingsOf_tidy _) (h.postingsOf_precedes _)

/-- The map of an orderly log can be stored. -/
theorem Orderly.words_storable {log : Log} (h : log.Orderly) : (words log).Storable := by
  refine ⟨fun e he => ?_, fun e he => ⟨(words_proper log).nonempty e he, (h.words_tidy he).tidy⟩⟩
  rcases exists_of_mem_words he with ⟨occurrence, hmem, heq⟩
  exact ⟨occurrence.word, h.nulFree occurrence hmem, heq⟩

end Log

end Concordance
