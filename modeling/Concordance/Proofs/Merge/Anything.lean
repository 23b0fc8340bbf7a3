import Concordance.Proofs.Collect
import Concordance.Proofs.Merge

/-!
# Merging Anything

What is known of merged words, whatever the sources have been.

That a merge loses nothing is about sources that hold maps. A source may also be a file
from anywhere, and a merge of it that succeeds still yields words of a certain kind: each
was read from some entry, and has a posting. Both are told by the cursors that a word is
taken from, and cursors only go forward in their sources.

## Theorems

* `Merge.append_ok`, `Merge.exists_of_sources`: What it takes for a step, and for a merge.
* `Merge.exists_entry_of_all`: Merged words stood at a cursor, and have postings.
* `Merge.exists_entry_of_sources`: Merged words were read from sources, and have postings.
-/

namespace Concordance

namespace Merge

/-- A posting that could be put behind others is the only one, or adds to the last one, or is of
    a document behind that of the last one. -/
theorem append_ok {read read' : List Posting} {posting : Posting}
    (h : append read posting = .ok read') :
    (read = [] ∧ read' = [posting])
      ∨ (∃ last before, read = last :: before ∧ last.document = posting.document
        ∧ read' = last.extend posting :: before)
      ∨ ∃ last before, read = last :: before ∧ last.document < posting.document
        ∧ read' = posting :: last :: before := by
  unfold append at h
  split at h
  · exact .inl ⟨rfl, (Except.ok.inj h).symm⟩
  · rename_i last before
    split at h
    · rename_i hsame
      exact .inr (.inl ⟨last, before, rfl, hsame, (Except.ok.inj h).symm⟩)
    · rename_i hne
      split at h
      · exact absurd h (by simp)
      · rename_i hnlt
        refine .inr (.inr ⟨last, before, rfl, ?_, (Except.ok.inj h).symm⟩)
        exact UInt32.lt_of_le_of_ne (UInt32.not_lt.mp hnlt) hne

/-- A merge that came to its end had cursors to begin with. -/
theorem exists_of_sources {segments : List Segment} {merged : List WordPostings}
    (h : sources segments = .ok merged) :
    ∃ cursors, collect (segments.map fun source => forward (stream source)) = .ok cursors
      ∧ all (cursors.filterMap id) = .ok merged := by
  rw [sources] at h
  rcases hcursors : collect (segments.map fun source => forward (stream source)) with e | cursors
  · rw [hcursors] at h
    exact absurd h (by simp)
  · rw [hcursors] at h
    exact ⟨cursors, rfl, h⟩

theorem append_ne_nil {read read' : List Posting} {posting : Posting}
    (h : append read posting = .ok read') : read' ≠ [] := by
  rcases append_ok h with ⟨-, rfl⟩ | ⟨_, _, -, -, rfl⟩ | ⟨_, _, -, -, rfl⟩ <;>
    exact List.cons_ne_nil _ _

/-- Once a posting was read, there is one. -/
theorem appendAll_ne_nil {read read' : List Posting} {postings : List (Except Error Posting)}
    (h : appendAll read postings = .ok read') (hne : read ≠ [] ∨ postings ≠ []) : read' ≠ [] := by
  fun_induction appendAll read postings with
  | case1 read =>
    rcases Except.ok.inj h with rfl
    exact hne.resolve_right fun hnil => hnil rfl
  | case2 => exact absurd h (by simp)
  | case3 => exact absurd h (by simp)
  | case4 read posting rest longer happend ih => exact ih h (Or.inl (append_ne_nil happend))

/-- A word that a cursor stands at has a posting. -/
theorem take_ne_nil {word : String} {read read' : List Posting} {cursors cursors' : List Cursor}
    (h : take word read cursors = .ok (read', cursors'))
    (hne : read ≠ [] ∨ ∃ cursor ∈ cursors, cursor.entry.word = word) : read' ≠ [] := by
  fun_induction take word read cursors generalizing read' cursors' with
  | case1 read =>
    simp only [Except.ok.injEq, Prod.mk.injEq] at h
    rw [← h.1]
    exact hne.resolve_right (by simp)
  | case2 | case3 | case4 | case6 => exact absurd h (by simp)
  | case5 read cursor rest hword longer happend next hforward all others htake ih =>
    simp only [Except.ok.injEq, Prod.mk.injEq] at h
    rw [← h.1]
    -- A stored word has at least one posting, and what was read stays.
    exact ih htake (Or.inl (appendAll_ne_nil happend (Or.inr (Posting.readAll_ne_nil _))))
  | case7 read cursor rest hword all others htake ih =>
    simp only [Except.ok.injEq, Prod.mk.injEq] at h
    rw [← h.1]
    rcases hne with hne | ⟨other, hother, hsame⟩
    · exact ih htake (Or.inl hne)
    · rcases List.mem_cons.mp hother with rfl | hother
      · exact absurd hsame hword
      · exact ih htake (Or.inr ⟨other, hother, hsame⟩)

section Entries

variable {P : StoredWord → Prop}

/-- A cursor with entries of some kind, those that it has yet to come to included. -/
def Over (P : StoredWord → Prop) (cursor : Cursor) : Prop :=
  P cursor.entry ∧ ∀ entry, .ok entry ∈ cursor.rest → P entry

theorem over_of_forward {entries : List (Except Error StoredWord)} {next : Option Cursor}
    (h : ∀ entry, .ok entry ∈ entries → P entry) (hforward : forward entries = .ok next) :
    ∀ cursor ∈ next, Over P cursor := by
  intro cursor hcursor
  rw [forward.eq_def] at hforward
  split at hforward
  · rcases Except.ok.inj hforward with rfl
    exact absurd hcursor (by simp)
  · exact absurd hforward (by simp)
  · rename_i entry rest
    rcases Except.ok.inj hforward with rfl
    rcases Option.some.inj hcursor with rfl
    exact ⟨h _ List.mem_cons_self, fun other hother => h _ (List.mem_cons_of_mem _ hother)⟩

/-- Cursors that are left did not stand at the word, or have gone forward from it. -/
theorem forall_of_take {C : Cursor → Prop} {word : String} {read read' : List Posting}
    {cursors cursors' : List Cursor} (h : take word read cursors = .ok (read', cursors'))
    (hstay : ∀ c ∈ cursors, c.entry.word ≠ word → C c)
    (hforward : ∀ c ∈ cursors, c.entry.word = word →
      ∀ next, forward c.rest = .ok next → ∀ c' ∈ next, C c') :
    ∀ c ∈ cursors', C c := by
  fun_induction take word read cursors generalizing read' cursors' with
  | case1 read =>
    simp only [Except.ok.injEq, Prod.mk.injEq] at h
    rw [← h.2]
    exact fun c hc => absurd hc List.not_mem_nil
  | case2 | case3 | case4 | case6 => exact absurd h (by simp)
  | case5 read cursor rest hword longer happend next hnext all others htake ih =>
    simp only [Except.ok.injEq, Prod.mk.injEq] at h
    rw [← h.2]
    intro c hc
    rcases List.mem_append.mp hc with hc | hc
    · -- It has gone forward, or was left by the rest.
      exact hforward _ List.mem_cons_self hword next hnext c (Option.mem_toList.mp hc)
    · exact ih htake (fun c hc => hstay c (List.mem_cons_of_mem _ hc))
        (fun c hc => hforward c (List.mem_cons_of_mem _ hc)) c hc
  | case7 read cursor rest hword all others htake ih =>
    simp only [Except.ok.injEq, Prod.mk.injEq] at h
    rw [← h.2]
    intro c hc
    rcases List.mem_cons.mp hc with rfl | hc
    · exact hstay _ List.mem_cons_self hword
    · exact ih htake (fun c hc => hstay c (List.mem_cons_of_mem _ hc))
        (fun c hc => hforward c (List.mem_cons_of_mem _ hc)) c hc

/-- Cursors go forward among the same entries. -/
theorem over_of_take {word : String} {read read' : List Posting} {cursors cursors' : List Cursor}
    (h : take word read cursors = .ok (read', cursors')) (hover : ∀ c ∈ cursors, Over P c) :
    ∀ c ∈ cursors', Over P c :=
  forall_of_take h (fun c hc _ => hover c hc) fun c hc _ _ hnext =>
    over_of_forward (hover c hc).2 hnext

/-- Merged words stood at a cursor, and have postings. -/
theorem exists_entry_of_all {cursors : List Cursor} {merged : List WordPostings}
    (h : all cursors = .ok merged) (hover : ∀ c ∈ cursors, Over P c) :
    ∀ word ∈ merged, (∃ entry, P entry ∧ entry.word = word.word) ∧ word.postings ≠ [] := by
  fun_induction all cursors generalizing merged with
  | case1 =>
    rcases Except.ok.inj h with rfl
    exact fun word hword => absurd hword List.not_mem_nil
  | case2 | case3 => exact absurd h (by simp)
  | case4 cursors entry hsmallest read cursors' htake hweight rest hrest ih =>
    rcases Except.ok.inj h with rfl
    have hcursor := smallest_mem hsmallest
    intro word hword
    rcases List.mem_cons.mp hword with rfl | hword
    · rcases hcursor with ⟨cursor, hcursor, hsame⟩
      refine ⟨⟨cursor.entry, (hover _ hcursor).1, hsame⟩, fun hnil => ?_⟩
      exact take_ne_nil htake (Or.inr ⟨cursor, hcursor, hsame⟩) (List.reverse_eq_nil_iff.mp hnil)
    · exact ih hrest (over_of_take htake hover) word hword

end Entries

/-- What a cursor comes to is read from an entry. -/
theorem mem_of_mem_inOrder {previous : Option StoredWord} {entry : StoredWord}
    {entries : List (Except Error StoredWord)} (h : .ok entry ∈ inOrder previous entries) :
    .ok entry ∈ entries := by
  fun_induction inOrder previous entries with
  | case1 => exact h
  | case2 previous e rest => exact absurd h (by simp)
  | case3 first rest ih =>
    rcases List.mem_cons.mp h with heq | h
    · rw [heq]
      exact List.mem_cons_self
    · exact List.mem_cons_of_mem _ (ih h)
  | case4 first rest before hle => exact absurd h (by simp)
  | case5 first rest before hle ih =>
    rcases List.mem_cons.mp h with heq | h
    · rw [heq]
      exact List.mem_cons_self
    · exact List.mem_cons_of_mem _ (ih h)

/-- Merged words were read from sources, and have postings. -/
theorem exists_entry_of_sources {segments : List Segment} {merged : List WordPostings}
    (h : sources segments = .ok merged) :
    ∀ word ∈ merged, (∃ bytes entry, StoredWord.parse bytes = .ok entry ∧ entry.word = word.word)
      ∧ word.postings ≠ [] := by
  rcases exists_of_sources h with ⟨cursors, hcursors, h⟩
  -- What a cursor comes to was read from the entries of its source.
  have hover : ∀ c ∈ cursors.filterMap id,
      Over (fun entry => ∃ bytes, StoredWord.parse bytes = .ok entry) c := by
    intro c hc
    rcases List.mem_filterMap.mp hc with ⟨next, hnext, hsome⟩
    rcases (exists_of_collect hcursors).2 next hnext with ⟨source, -, hforward⟩
    refine over_of_forward (fun entry hentry => ?_) hforward c hsome
    rcases List.mem_map.mp (mem_of_mem_inOrder hentry) with ⟨read, -, hread⟩
    rcases exists_of_bind hread with ⟨bytes, -, hparse⟩
    exact ⟨bytes, hparse⟩
  intro word hword
  rcases exists_entry_of_all h hover word hword with ⟨⟨entry, ⟨bytes, hparse⟩, hsame⟩, hne⟩
  exact ⟨⟨bytes, entry, hparse, hsame⟩, hne⟩

/-- A word that was read can be closed again. -/
theorem nulFree_of_parse {bytes : Bytes} {entry : StoredWord}
    (h : StoredWord.parse bytes = .ok entry) : NulFree entry.word := by
  rw [StoredWord.parse] at h
  split at h
  · exact absurd h (by simp)
  · rename_i word r hread
    rw [← Except.ok.inj h]
    exact Reader.nulFree_of_text hread

/-- So can a merged word. -/
theorem nulFree_of_sources {segments : List Segment} {merged : List WordPostings}
    (h : sources segments = .ok merged) : ∀ word ∈ merged, NulFree word.word := by
  intro word hword
  rcases exists_entry_of_sources h word hword with ⟨⟨bytes, entry, hparse, hsame⟩, -⟩
  rw [← hsame]
  exact nulFree_of_parse hparse

end Merge

end Concordance
