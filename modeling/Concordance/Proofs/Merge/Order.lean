import Concordance.Proofs.Merge.Anything
import Concordance.Proofs.Posting.Anything

/-!
# Merged Words Are in Order

Words that were merged ascend, and so do the documents of each, whatever the sources are.

A source may have its words in any order, or one of them twice. A cursor looks at one word
after the other, and refuses the first that does not come behind the one before. So the words
that a cursor has yet to come to ascend up to the end, or up to an error that ends the merge.
The smallest word that cursors stand at is then smaller than all others that are left, and
smaller than what any of them comes to once the word was taken.

The documents of a word are looked at in the same way, but across sources. A posting is put
behind those that were read, or becomes part of the last of them, or is refused.

## Main definitions

* `Merge.WordsAscend`, `Merge.Ascending`: Entries and cursors in order, as far as they can be
  read.
* `Merge.Ordered`: Postings that were read, the last one first.

## Theorems

* `Merge.behind_of_take`: What is left once a word was taken comes behind it.
* `Merge.ascend_of_sources`: Merged words ascend.
* `Merge.ordered_of_sources`: So do the documents of each.
-/

namespace Concordance

namespace Merge

/-- Entries in order, as far as they can be read. -/
def WordsAscend (entries : List (Except Error StoredWord)) : Prop :=
  entries.Pairwise fun a b => ∀ x y, a = .ok x → b = .ok y → x.key < y.key

/-- A cursor comes to words in order. -/
theorem inOrder_ascend (previous : Option StoredWord) (entries : List (Except Error StoredWord)) :
    WordsAscend (inOrder previous entries)
      ∧ ∀ before ∈ previous, ∀ x, .ok x ∈ inOrder previous entries → before.key < x.key := by
  fun_induction inOrder previous entries with
  | case1 => exact ⟨List.Pairwise.nil, fun _ _ x hx => absurd hx List.not_mem_nil⟩
  | case2 previous e rest =>
    exact ⟨List.pairwise_singleton _ _, fun _ _ x hx => absurd (List.mem_singleton.mp hx) (by simp)⟩
  | case3 entry rest ih =>
    refine ⟨List.pairwise_cons.mpr ⟨fun b hb x y hx hy => ?_, ih.1⟩,
      fun before hbefore => absurd hbefore (by simp)⟩
    rw [← Except.ok.inj hx]
    exact ih.2 entry rfl y (hy ▸ hb)
  | case4 entry rest before hle =>
    exact ⟨List.pairwise_singleton _ _, fun _ _ x hx => absurd (List.mem_singleton.mp hx) (by simp)⟩
  | case5 entry rest before hle ih =>
    -- The entry was let through since it comes behind the one before, and the rest comes behind it.
    have hlt : before.key < entry.key := List.not_le.mp hle
    refine ⟨List.pairwise_cons.mpr ⟨fun b hb x y hx hy => ?_, ih.1⟩, fun first hfirst x hx => ?_⟩
    · rw [← Except.ok.inj hx]
      exact ih.2 entry rfl y (hy ▸ hb)
    · rcases Option.some.inj hfirst with rfl
      rcases List.mem_cons.mp hx with heq | hx
      · rw [Except.ok.inj heq]
        exact hlt
      · exact List.lt_trans hlt (ih.2 entry rfl x hx)

/-- A cursor that comes to words in order. -/
def Ascending (cursor : Cursor) : Prop :=
  WordsAscend (.ok cursor.entry :: cursor.rest)

theorem ascending_of_forward {entries : List (Except Error StoredWord)} {next : Option Cursor}
    (h : WordsAscend entries) (hforward : forward entries = .ok next) :
    ∀ cursor ∈ next, Ascending cursor := by
  intro cursor hcursor
  rw [forward.eq_def] at hforward
  split at hforward
  · rcases Except.ok.inj hforward with rfl
    exact absurd hcursor (by simp)
  · exact absurd hforward (by simp)
  · rcases Except.ok.inj hforward with rfl
    rcases Option.some.inj hcursor with rfl
    exact h

/-- Cursors go forward in order. -/
theorem ascending_of_take {word : String} {read read' : List Posting}
    {cursors cursors' : List Cursor} (h : take word read cursors = .ok (read', cursors'))
    (hasc : ∀ c ∈ cursors, Ascending c) : ∀ c ∈ cursors', Ascending c :=
  forall_of_take h (fun c hc _ => hasc c hc) fun c hc _ _ hnext =>
    ascending_of_forward (List.pairwise_cons.mp (hasc c hc)).2 hnext

/-- Everything else that an ascending cursor comes to is behind the word it stands at. -/
theorem Ascending.behind {cursor : Cursor} (h : Ascending cursor) :
    ∀ entry, .ok entry ∈ cursor.rest → cursor.entry.key < entry.key :=
  fun _ hentry => (List.pairwise_cons.mp h).1 _ hentry _ _ rfl rfl

/-- Only cursors that there are not have no smallest word. -/
theorem smallest_eq_none {cursors : List Cursor} (h : smallest cursors = none) : cursors = [] := by
  rcases cursors with _ | ⟨cursor, rest⟩
  · rfl
  · rw [smallest] at h
    split at h
    · exact absurd h (by simp)
    · split at h <;> exact absurd h (by simp)

/-- No cursor stands before the smallest word. -/
theorem not_lt_smallest {cursors : List Cursor} {entry : StoredWord}
    (h : smallest cursors = some entry) : ∀ c ∈ cursors, ¬ c.entry.key < entry.key := by
  fun_induction smallest cursors generalizing entry with
  | case1 => exact absurd h (by simp)
  | case2 cursor rest hnone =>
    rcases Option.some.inj h with rfl
    intro c hc
    -- This cursor is the only one.
    rw [smallest_eq_none hnone, List.mem_singleton] at hc
    exact hc ▸ List.lt_irrefl _
  | case3 cursor rest other hother hlt ih =>
    rcases Option.some.inj h with rfl
    intro c hc
    rcases List.mem_cons.mp hc with rfl | hc
    · exact fun hlt' => List.lt_asymm hlt hlt'
    · exact ih hother c hc
  | case4 cursor rest other hother hlt ih =>
    rcases Option.some.inj h with rfl
    intro c hc
    rcases List.mem_cons.mp hc with rfl | hc
    · exact List.lt_irrefl _
    · -- What is not before the word of another cursor can not be before this one.
      exact fun hlt' => hlt (List.lt_of_le_of_lt (List.not_lt.mp (ih hother c hc)) hlt')

/-- What is left once the smallest word was taken comes behind it. -/
theorem behind_of_take {entry : StoredWord} {read read' : List Posting}
    {cursors cursors' : List Cursor} (h : take entry.word read cursors = .ok (read', cursors'))
    (hasc : ∀ c ∈ cursors, Ascending c) (hmin : ∀ c ∈ cursors, ¬ c.entry.key < entry.key) :
    ∀ c ∈ cursors', Over (fun other => entry.key < other.key) c := by
  refine forall_of_take h (fun c hc hne => ?_) fun c hc hsame next hnext => ?_
  · -- The cursor stands behind the word, and comes to words behind that.
    have hlt : entry.key < c.entry.key :=
      lt_of_not_lt (fun heq => hne (Utf8.bytes_injective heq)) (hmin c hc)
    exact ⟨hlt, fun other hother => List.lt_trans hlt ((hasc c hc).behind other hother)⟩
  · have hkey : c.entry.key = entry.key := congrArg Utf8.bytes hsame
    exact over_of_forward (fun other hother => hkey ▸ (hasc c hc).behind other hother) hnext

/-- Words taken from ascending cursors ascend. -/
theorem ascend_of_all {cursors : List Cursor} {merged : List WordPostings}
    (h : all cursors = .ok merged) (hasc : ∀ c ∈ cursors, Ascending c) :
    KeysAscend (WordPostings.table merged) := by
  fun_induction all cursors generalizing merged with
  | case1 =>
    rcases Except.ok.inj h with rfl
    exact List.Pairwise.nil
  | case2 | case3 => exact absurd h (by simp)
  | case4 cursors entry hsmallest read cursors' htake hweight rest hrest ih =>
    rcases Except.ok.inj h with rfl
    refine List.pairwise_cons.mpr ⟨fun e he => ?_, ih hrest (ascending_of_take htake hasc)⟩
    rcases List.mem_map.mp he with ⟨word, hword, rfl⟩
    have hbehind := behind_of_take htake hasc (not_lt_smallest hsmallest)
    rcases (exists_entry_of_all hrest hbehind word hword).1 with ⟨other, hlt, hsame⟩
    rw [← hsame]
    exact hlt

/-- Cursors at the beginning of sources come to words in order. -/
theorem ascending_of_collect {segments : List Segment} {cursors : List (Option Cursor)}
    (h : collect (segments.map fun source => forward (stream source)) = .ok cursors) :
    ∀ c ∈ cursors.filterMap id, Ascending c := by
  intro c hc
  rcases List.mem_filterMap.mp hc with ⟨next, hnext, hsome⟩
  rcases (exists_of_collect h).2 next hnext with ⟨source, -, hforward⟩
  exact ascending_of_forward (inOrder_ascend none _).1 hforward c hsome

/-- Merged words ascend by their bytes. -/
theorem ascend_of_sources {segments : List Segment} {merged : List WordPostings}
    (h : sources segments = .ok merged) : KeysAscend (WordPostings.table merged) := by
  rcases exists_of_sources h with ⟨cursors, hcursors, hall⟩
  exact ascend_of_all hall (ascending_of_collect hcursors)

/-- Postings that were read, the last one first: documents descend, and ids are sets. -/
structure Ordered (read : List Posting) : Prop where
  documents : read.Pairwise fun p q => q.document < p.document
  names : ∀ p ∈ read, p.NamesAscend

theorem Ordered.nil : Ordered [] :=
  ⟨List.Pairwise.nil, fun _ hp => absurd hp List.not_mem_nil⟩

/-- A posting is only put behind others if its document comes behind theirs. -/
theorem Ordered.append {read read' : List Posting} {posting : Posting} (h : Ordered read)
    (hnames : posting.NamesAscend) (happend : append read posting = .ok read') :
    Ordered read' := by
  rcases append_ok happend with ⟨-, rfl⟩ | ⟨last, before, rfl, -, rfl⟩
    | ⟨last, before, rfl, hlt, rfl⟩
  · exact ⟨List.pairwise_singleton _ _, fun p hp => List.mem_singleton.mp hp ▸ hnames⟩
  · -- The last posting keeps its document, and its ids stay a set.
    have ⟨hhead, htail⟩ := List.pairwise_cons.mp h.documents
    refine ⟨List.pairwise_cons.mpr ⟨hhead, htail⟩, fun p hp => ?_⟩
    rcases List.mem_cons.mp hp with rfl | hp
    · exact (h.names last List.mem_cons_self).extend posting
    · exact h.names p (List.mem_cons_of_mem _ hp)
  · have hhead := (List.pairwise_cons.mp h.documents).1
    refine ⟨List.pairwise_cons.mpr ⟨fun p hp => ?_, h.documents⟩, fun p hp => ?_⟩
    · rcases List.mem_cons.mp hp with rfl | hp
      · exact hlt
      · exact UInt32.lt_trans (hhead p hp) hlt
    · rcases List.mem_cons.mp hp with rfl | hp
      · exact hnames
      · exact h.names p hp

/-- So it is for all postings of an entry. -/
theorem Ordered.appendAll {read read' : List Posting} {postings : List (Except Error Posting)}
    (h : Ordered read) (hnames : ∀ p, .ok p ∈ postings → p.NamesAscend)
    (happend : appendAll read postings = .ok read') : Ordered read' := by
  fun_induction Merge.appendAll read postings with
  | case1 read =>
    rcases Except.ok.inj happend with rfl
    exact h
  | case2 => exact absurd happend (by simp)
  | case3 => exact absurd happend (by simp)
  | case4 read posting rest longer hlonger ih =>
    exact ih (h.append (hnames posting List.mem_cons_self) hlonger)
      (fun p hp => hnames p (List.mem_cons_of_mem _ hp)) happend

/-- And for those of all entries that cursors stand at. -/
theorem Ordered.take {word : String} {read read' : List Posting} {cursors cursors' : List Cursor}
    (h : Ordered read) (htake : take word read cursors = .ok (read', cursors')) :
    Ordered read' := by
  fun_induction Merge.take word read cursors generalizing read' cursors' with
  | case1 read =>
    simp only [Except.ok.injEq, Prod.mk.injEq] at htake
    rw [← htake.1]
    exact h
  | case2 | case3 | case4 | case6 => exact absurd htake (by simp)
  | case5 read cursor rest hword longer happend next hforward all others hothers ih =>
    simp only [Except.ok.injEq, Prod.mk.injEq] at htake
    rw [← htake.1]
    exact ih (h.appendAll Posting.namesAscend_of_readAll happend) hothers
  | case7 read cursor rest hword all others hothers ih =>
    simp only [Except.ok.injEq, Prod.mk.injEq] at htake
    rw [← htake.1]
    exact ih h hothers

/-- The documents of a merged word ascend, and the ids of each posting are a set. -/
theorem ordered_of_sources {segments : List Segment} {merged : List WordPostings}
    (h : sources segments = .ok merged) :
    ∀ word ∈ merged, (word.postings.Pairwise fun p q => p.document < q.document)
      ∧ ∀ p ∈ word.postings, p.NamesAscend := by
  have hall : ∀ {cursors : List Cursor} {merged : List WordPostings}, all cursors = .ok merged →
      ∀ word ∈ merged, Ordered word.postings.reverse := by
    intro cursors merged h
    fun_induction all cursors generalizing merged with
    | case1 =>
      rcases Except.ok.inj h with rfl
      exact fun word hword => absurd hword List.not_mem_nil
    | case2 | case3 => exact absurd h (by simp)
    | case4 cursors entry hsmallest read cursors' htake hweight rest hrest ih =>
      rcases Except.ok.inj h with rfl
      intro word hword
      rcases List.mem_cons.mp hword with rfl | hword
      · rw [List.reverse_reverse]
        exact Ordered.nil.take htake
      · exact ih hrest word hword
  intro word hword
  rcases exists_of_sources h with ⟨cursors, -, hmerged⟩
  have hordered := hall hmerged word hword
  exact ⟨List.pairwise_reverse.mp hordered.documents,
    fun p hp => hordered.names p (List.mem_reverse.mpr hp)⟩

end Merge

end Concordance
