import Concordance.Proofs.Collect
import Concordance.Proofs.Layout
import Concordance.Proofs.Posting.Codec
import Concordance.Proofs.WordMap

/-!
# Word Maps Are Read Back

A segment of words holds a map if reading all of its entries yields that map.

Words come out of a segment as entries whose postings are still bytes, and a merge
reads these only when it takes the word. So holding a map says two things about
each entry, what its word is and what its postings will be. Both the runs of a
session and the words of an index hold the maps that they were written from.

## Main definitions

* `StoredAs`: Entries with the words and postings of a map.
* `Segment.Holds`: A segment whose entries are those of a map.
* `WordMap.Storable`: A map whose words and postings can be stored.

## Theorems

* `StoredAs.nonempty`: A word that is stored has postings.
* `WordMap.parse_entries`: The entries of a map are read back.
* `Run.holds`: A run holds its map.
-/

namespace Concordance

/-- Entries with the words and postings of a map. -/
def StoredAs (stored : List StoredWord) (words : WordMap) : Prop :=
  stored.map (fun entry => (entry.key, entry.stream))
    = words.map fun (key, postings) => (key, postings.map .ok)

namespace StoredAs

theorem nil_iff {words : WordMap} : StoredAs [] words ↔ words = [] := by
  rw [StoredAs, List.map_nil, eq_comm, List.map_eq_nil_iff]

theorem cons_iff {entry : StoredWord} {stored : List StoredWord} {words : WordMap} :
    StoredAs (entry :: stored) words
      ↔ ∃ postings rest, words = (entry.key, postings) :: rest
        ∧ entry.stream = postings.map .ok ∧ StoredAs stored rest := by
  constructor
  · intro h
    rcases words with _ | ⟨⟨key, postings⟩, rest⟩
    · exact absurd h (by simp [StoredAs])
    · simp only [StoredAs, List.map_cons, List.cons.injEq, Prod.mk.injEq] at h
      rcases h with ⟨⟨rfl, hstream⟩, hrest⟩
      exact ⟨postings, rest, rfl, hstream, hrest⟩
  · rintro ⟨postings, rest, rfl, hstream, hrest⟩
    exact congr (congrArg List.cons (congrArg (Prod.mk entry.key) hstream)) hrest

end StoredAs

/-- A segment whose entries are those of a map. -/
def Segment.Holds (segment : Segment) (words : WordMap) : Prop :=
  ∃ stored, segment.entries.map (· >>= StoredWord.parse) = stored.map .ok ∧ StoredAs stored words

/-- The words and postings of a map can be stored. -/
structure WordMap.Storable (words : WordMap) : Prop where
  keys : ∀ e ∈ words, ∃ word, NulFree word ∧ Utf8.bytes word = e.1
  postings : ∀ e ∈ words, e.2 ≠ [] ∧ ∀ p ∈ e.2, p.Tidy

/-- A reader of postings yields one at least, or an error. -/
theorem Posting.readAll_ne_nil (r : Reader) : readAll r ≠ [] := by
  rw [readAll]
  split
  · exact List.cons_ne_nil _ _
  · split <;> exact List.cons_ne_nil _ _

/-- A word that is stored has postings. -/
theorem StoredAs.nonempty {stored : List StoredWord} {words : WordMap} (h : StoredAs stored words) :
    ∀ e ∈ words, e.2 ≠ [] := by
  induction stored generalizing words with
  | nil =>
    rw [nil_iff.mp h]
    exact fun e he => absurd he List.not_mem_nil
  | cons entry stored ih =>
    rcases cons_iff.mp h with ⟨postings, rest, rfl, hstream, hrest⟩
    intro e he
    rcases List.mem_cons.mp he with rfl | he
    · intro hnil
      rw [show postings = [] from hnil, List.map_nil] at hstream
      exact Posting.readAll_ne_nil _ hstream
    · exact ih hrest e he

namespace WordMap

/-- The entry of a word is read back. -/
theorem parse_entry {words : WordMap} (h : words.Storable) {e : Bytes × List Posting}
    (he : e ∈ words) (rest : Bytes) :
    (StoredWord.parse ((e.1 ++ 0 :: StoredWord.encodePostings e.2) ++ rest)).map
      (fun entry => (entry.key, entry.stream)) = .ok (e.1, e.2.map .ok) := by
  rcases h.keys e he with ⟨word, hnul, hkey⟩
  rcases h.postings e he with ⟨hne, htidy⟩
  have hentry : e.1 ++ 0 :: StoredWord.encodePostings e.2 = StoredWord.encode word e.2 := by
    rw [StoredWord.encode, nulClosed, hkey, List.append_assoc, List.singleton_append]
  rw [hentry, StoredWord.parse_encode hnul]
  simp only [Except.map, StoredWord.key, hkey, StoredWord.stream_encodePostings hne htidy]

/-- The entries of a map are read back, whatever lies behind them. -/
theorem parse_entries {words : WordMap} (h : words.Storable) (behind : Bytes) :
    ∃ stored, ((followedBy behind words.entries).map StoredWord.parse) = stored.map .ok
      ∧ StoredAs stored words := by
  have hall := map_followedBy
    (fun e : Bytes × List Posting => e.1 ++ 0 :: StoredWord.encodePostings e.2)
    (fun entry => (StoredWord.parse entry).map fun entry => (entry.key, entry.stream))
    (fun e => (e.1, e.2.map .ok)) (fun e he rest => parse_entry h he rest) behind
  -- Entries that parse to the elements of a map are entries stored as the map.
  have hsplit : ∀ (parsed : List (Except Error StoredWord)) (ws : WordMap),
      parsed.map (fun entry => entry.map fun entry => (entry.key, entry.stream))
        = ws.map (fun e => .ok (e.1, e.2.map .ok)) →
      ∃ stored, parsed = stored.map .ok ∧ StoredAs stored ws := by
    intro parsed
    induction parsed with
    | nil =>
      intro ws hws
      rw [List.map_nil, eq_comm, List.map_eq_nil_iff] at hws
      exact ⟨[], rfl, StoredAs.nil_iff.mpr hws⟩
    | cons entry parsed ih =>
      intro ws hws
      rcases ws with _ | ⟨⟨key, postings⟩, ws⟩
      · exact absurd hws (by simp)
      rw [List.map_cons, List.map_cons, List.cons.injEq] at hws
      rcases ih ws hws.2 with ⟨stored, rfl, hstored⟩
      rcases entry with e | entry
      · exact absurd hws.1 (by simp [Except.map])
      · simp only [Except.map, Except.ok.injEq, Prod.mk.injEq] at hws
        rcases hws with ⟨⟨rfl, hstream⟩, -⟩
        exact ⟨entry :: stored, rfl, StoredAs.cons_iff.mpr ⟨postings, ws, rfl, hstream, hstored⟩⟩
  refine hsplit _ words ?_
  rw [List.map_map]
  exact hall

end WordMap

/-- A segment with the entries of a map holds the map. -/
theorem Segment.holds_of_entries {segment : Segment} {words : WordMap} (h : words.Storable)
    (behind : Bytes) (hentries : segment.entries = (followedBy behind words.entries).map .ok) :
    segment.Holds words := by
  rcases words.parse_entries h behind with ⟨stored, hparse, hstored⟩
  refine ⟨stored, ?_, hstored⟩
  rw [hentries, List.map_map, ← hparse]
  rfl

/-- A run holds its map. -/
theorem Run.holds {words : WordMap} (h : words.Storable)
    (hsize : words.encode.length < UInt64.size) :
    ∃ segment, Run.segment words.encode = .ok segment ∧ segment.Holds words := by
  rcases Run.segment_encode hsize with ⟨segment, hsegment, hentries⟩
  refine ⟨segment, hsegment, Segment.holds_of_entries h [] ?_⟩
  rw [hentries, followedBy_nil]

end Concordance
