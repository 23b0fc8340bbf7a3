import Concordance.Indexing.Merge
import Concordance.Proofs.WordMap.Stored

/-!
# Merging Loses Nothing

The words of a merge are those of its sources, each with the postings of all
sources put together.

Sources are known by the maps that they hold, and so is the result. A word's
postings in it are what `fuse` makes of its postings in all sources, in the order
of the sources. How the sources divide the postings among them does not enter.

A merge takes the smallest word that any cursor stands at. Every other word that a
cursor still has comes behind it. So taking a word is the same as asking all maps
for it, and what is left are the maps without it. This is the induction, on the
same measure that the merge itself goes by.

## Main definitions

* `WordPostings.table`: Merged words as a map.
* `Merge.Stand`: Cursors that have certain maps left to come to.
* `Merge.without`: A map from which the smallest word was taken.

## Theorems

* `Merge.appendAll_eq`: Postings whose documents do not go back are attached.
* `Merge.take_eq`: Taking a word.
* `Merge.all_eq`: Taking all words.
* `Merge.sources_eq`: Merging segments that hold maps.
-/

namespace Concordance

/-- Merged words as a map. -/
def WordPostings.table (merged : List WordPostings) : WordMap :=
  merged.map fun word => (Utf8.bytes word.word, word.postings)

namespace Merge

/-- A posting whose document is not before the last one is attached. -/
theorem append_eq {postings : List Posting} {posting : Posting}
    (h : ∀ p ∈ postings, p.document ≤ posting.document) :
    append postings.reverse posting = .ok (attach postings posting).reverse := by
  rcases nil_or_concat postings with rfl | ⟨before, last, rfl⟩
  · rfl
  · have hle := h last (List.mem_append_right _ (List.mem_singleton.mpr rfl))
    rw [attach_concat, List.reverse_append, List.reverse_singleton, List.singleton_append, append]
    by_cases heq : last.document = posting.document
    · rw [if_pos heq, if_pos heq, List.reverse_append]
      rfl
    · have hnlt : ¬ posting.document < last.document := by
        rw [UInt32.lt_iff_toNat_lt]
        rw [UInt32.le_iff_toNat_le] at hle
        omega
      rw [if_neg heq, if_neg heq, if_neg hnlt, List.reverse_append]
      rfl

/-- Postings whose documents do not go back are attached. -/
theorem appendAll_eq {read postings : List Posting}
    (hread : ∀ p ∈ read, ∀ q ∈ postings, p.document ≤ q.document)
    (h : postings.Pairwise fun p q => p.document ≤ q.document) :
    appendAll read.reverse (postings.map .ok) = .ok (postings.foldl attach read).reverse := by
  induction postings generalizing read with
  | nil => rfl
  | cons posting postings ih =>
    have ⟨hhead, htail⟩ := List.pairwise_cons.mp h
    rw [List.map_cons, appendAll, append_eq fun p hp => hread p hp posting List.mem_cons_self]
    exact ih (forall_attach (fun p hp q hq => hread p hp q (List.mem_cons_of_mem _ hq)) hhead
      (fun p hp _ q hq => hread p hp q (List.mem_cons_of_mem _ hq))) htail

/-- Cursors that have certain maps left to come to. A cursor that has come to its
    end is gone, and its map is empty. -/
inductive Stand : List Cursor → List WordMap → Prop where
  | nil : Stand [] []
  | done {cursors : List Cursor} {tables : List WordMap} :
    Stand cursors tables → Stand cursors ([] :: tables)
  | cons {entry : StoredWord} {stored : List StoredWord} {table : WordMap} {cursors : List Cursor}
      {tables : List WordMap} :
    StoredAs (entry :: stored) table → Stand cursors tables →
      Stand (⟨entry, stored.map .ok⟩ :: cursors) (table :: tables)

/-- A map from which a word was taken. -/
def without (key : Bytes) (table : WordMap) : WordMap :=
  table.filter fun e => e.1 ≠ key

theorem without_ascend {key : Bytes} {table : WordMap} (h : KeysAscend table) :
    KeysAscend (without key table) :=
  List.Pairwise.filter _ h

theorem mem_without {key : Bytes} {table : WordMap} {e : Bytes × List Posting} :
    e ∈ without key table ↔ e ∈ table ∧ e.1 ≠ key := by
  rw [without, List.mem_filter, decide_eq_true_eq]

theorem postingsOf_without {key k : Bytes} (table : WordMap) (hne : k ≠ key) :
    (without key table).postingsOf k = table.postingsOf k := by
  induction table with
  | nil => rfl
  | cons e table ih =>
    rcases e with ⟨other, postings⟩
    rw [without, List.filter_cons, ← without]
    by_cases hkeep : other = key
    · rw [if_neg (by simpa using hkeep), ih, WordMap.postingsOf_cons,
        if_neg fun heq => hne (heq.trans hkeep)]
    · rw [if_pos (by simpa using hkeep), WordMap.postingsOf_cons, WordMap.postingsOf_cons, ih]

/-- The word is at the front or not there at all. -/
theorem without_of_min {key k : Bytes} {postings : List Posting} {rest : WordMap}
    (h : KeysAscend ((k, postings) :: rest)) (hmin : ¬ k < key) :
    without key ((k, postings) :: rest) = if k = key then rest else (k, postings) :: rest := by
  have ⟨hhead, _⟩ := List.pairwise_cons.mp h
  have hbehind : ∀ e ∈ rest, e.1 ≠ key := by
    rintro e he rfl
    exact hmin (hhead e he)
  have hrest : rest.filter (fun e => e.1 ≠ key) = rest := by
    refine List.filter_eq_self.mpr fun e he => ?_
    rw [decide_eq_true_eq]
    exact hbehind e he
  rw [without, List.filter_cons, hrest]
  by_cases hk : k = key
  · rw [if_neg (by simpa using hk), if_pos hk]
  · rw [if_pos (by simpa using hk), if_neg hk]

/-- Going forward in entries of a map. -/
theorem forward_eq {stored : List StoredWord} {table : WordMap} (h : StoredAs stored table)
    {cursors : List Cursor} {tables : List WordMap} (hstand : Stand cursors tables) :
    ∃ next, forward (stored.map .ok) = .ok next
      ∧ Stand (next.toList ++ cursors) (table :: tables) := by
  rcases stored with _ | ⟨entry, stored⟩
  · rw [StoredAs.nil_iff.mp h]
    exact ⟨none, rfl, Stand.done hstand⟩
  · exact ⟨some ⟨entry, stored.map .ok⟩, rfl, Stand.cons h hstand⟩

/-- A map that begins with a word behind it does not have the smallest word. -/
theorem postingsOf_of_min {key k : Bytes} {postings : List Posting} {rest : WordMap}
    (h : KeysAscend ((k, postings) :: rest)) (hmin : ¬ k < key) (hne : k ≠ key) :
    WordMap.postingsOf ((k, postings) :: rest) key = [] := by
  have ⟨hhead, _⟩ := List.pairwise_cons.mp h
  refine WordMap.postingsOf_eq_nil fun e he heq => ?_
  rcases List.mem_cons.mp he with rfl | he
  · exact hne heq
  · have hlt := hhead e he
    rw [heq] at hlt
    exact hmin hlt

/-- Taking the smallest word yields its postings in all maps, and leaves the maps
    without it. -/
theorem take_eq {word : String} {cursors : List Cursor} {tables : List WordMap}
    (h : Stand cursors tables) (hasc : ∀ t ∈ tables, KeysAscend t)
    (hmin : ∀ t ∈ tables, ∀ e ∈ t, ¬ e.1 < Utf8.bytes word) (read : List Posting)
    (hread : ∀ p ∈ read, ∀ q ∈ tables.flatMap (WordMap.postingsOf · (Utf8.bytes word)),
      p.document ≤ q.document)
    (hdocs : (tables.flatMap (WordMap.postingsOf · (Utf8.bytes word))).Pairwise
      fun p q => p.document ≤ q.document) :
    ∃ cursors', take word read.reverse cursors
        = .ok (((tables.flatMap (WordMap.postingsOf · (Utf8.bytes word))).foldl attach
            read).reverse, cursors')
      ∧ Stand cursors' (tables.map (without (Utf8.bytes word))) := by
  induction h generalizing read with
  | nil => exact ⟨[], rfl, Stand.nil⟩
  | done hstand ih =>
    obtain ⟨cursors', htake, hstand'⟩ := ih (fun t ht => hasc t (List.mem_cons_of_mem _ ht))
      (fun t ht => hmin t (List.mem_cons_of_mem _ ht)) read hread hdocs
    exact ⟨cursors', htake, Stand.done hstand'⟩
  | @cons entry stored table cursors tables hstored hstand ih =>
    have ihs := ih (fun t ht => hasc t (List.mem_cons_of_mem _ ht))
      (fun t ht => hmin t (List.mem_cons_of_mem _ ht))
    rcases StoredAs.cons_iff.mp hstored with ⟨postings, rest, rfl, hstream, hrest⟩
    have hwithout := without_of_min (hasc _ List.mem_cons_self)
      (hmin _ List.mem_cons_self _ List.mem_cons_self)
    rw [List.flatMap_cons] at hread hdocs
    have ⟨hfront, hbehind, hcross⟩ := List.pairwise_append.mp hdocs
    rw [List.map_cons, hwithout, List.flatMap_cons, List.foldl_append]
    by_cases hword : entry.word = word
    · -- The cursor stands at the word, gives its postings away and goes forward.
      subst hword
      have hpostings : WordMap.postingsOf ((entry.key, postings) :: rest) (Utf8.bytes entry.word)
          = postings := by
        rw [WordMap.postingsOf_cons]
        exact if_pos rfl
      rw [hpostings] at hread hfront hcross ⊢
      -- Attaching brings in no document of its own, so the other maps' still come behind.
      have hread' : ∀ p ∈ postings.foldl attach read,
          ∀ q ∈ tables.flatMap (WordMap.postingsOf · (Utf8.bytes entry.word)),
          p.document ≤ q.document := by
        intro p hp q hq
        rcases exists_of_mem_foldl_attach hp with ⟨r, hr, heq⟩ | ⟨r, hr, heq⟩
        · rw [← heq]
          exact hread r hr q (List.mem_append_right _ hq)
        · rw [← heq]
          exact hcross r hr q hq
      rcases ihs _ hread' hbehind with ⟨cursors', htake, hstand'⟩
      rcases forward_eq hrest hstand' with ⟨next, hnext, hstand''⟩
      refine ⟨next.toList ++ cursors', ?_, ?_⟩
      · rw [take, if_pos rfl, hstream, appendAll_eq
          (fun p hp q hq => hread p hp q (List.mem_append_left _ hq)) hfront]
        simp only [hnext, htake]
      · rw [if_pos (show entry.key = Utf8.bytes entry.word from rfl)]
        exact hstand''
    · have hkey : entry.key ≠ Utf8.bytes word := fun heq => hword (Utf8.bytes_injective heq)
      -- The word would be in front, so this map does not have it and its cursor stays.
      have hnone : WordMap.postingsOf ((entry.key, postings) :: rest) (Utf8.bytes word) = [] :=
        postingsOf_of_min (hasc _ List.mem_cons_self)
          (hmin _ List.mem_cons_self _ List.mem_cons_self) hkey
      rw [hnone] at hread ⊢
      rcases ihs _ hread hbehind with ⟨cursors', htake, hstand'⟩
      refine ⟨⟨entry, stored.map .ok⟩ :: cursors', ?_, ?_⟩
      · rw [take, if_neg hword, List.foldl_nil, htake]
      · rw [if_neg hkey]
        exact Stand.cons hstored hstand'

/-- Cursors that stand nowhere have nothing left. -/
theorem smallest_none {cursors : List Cursor} {tables : List WordMap} (h : Stand cursors tables)
    (hnone : smallest cursors = none) : ∀ t ∈ tables, t = [] := by
  induction h with
  | nil => exact fun t ht => absurd ht List.not_mem_nil
  | done _ ih =>
    intro t ht
    rcases List.mem_cons.mp ht with rfl | ht
    · rfl
    · exact ih hnone t ht
  | @cons entry stored table cursors tables hstored hstand ih =>
    rw [smallest] at hnone
    split at hnone
    · exact absurd hnone (by simp)
    · split at hnone <;> exact absurd hnone (by simp)

/-- The smallest word that cursors stand at is in a map, and no map has a smaller
    one. -/
theorem smallest_some {cursors : List Cursor} {tables : List WordMap} (h : Stand cursors tables)
    (hasc : ∀ t ∈ tables, KeysAscend t) {entry : StoredWord}
    (hsome : smallest cursors = some entry) :
    (∃ t ∈ tables, t.postingsOf entry.key ≠ []) ∧ ∀ t ∈ tables, ∀ e ∈ t, ¬ e.1 < entry.key := by
  induction h generalizing entry with
  | nil => exact absurd hsome (by simp [smallest])
  | done _ ih =>
    rcases ih (fun t ht => hasc t (List.mem_cons_of_mem _ ht)) hsome with ⟨⟨t, ht, hpost⟩, hmin⟩
    refine ⟨⟨t, List.mem_cons_of_mem _ ht, hpost⟩, fun t ht e he => ?_⟩
    rcases List.mem_cons.mp ht with rfl | ht
    · exact absurd he List.not_mem_nil
    · exact hmin t ht e he
  | @cons front stored table cursors tables hstored hstand ih =>
    have hnonempty := hstored.nonempty
    rcases StoredAs.cons_iff.mp hstored with ⟨postings, rest, rfl, -, -⟩
    have ⟨hhead, _⟩ := List.pairwise_cons.mp (hasc _ List.mem_cons_self)
    have hasc' : ∀ t ∈ tables, KeysAscend t := fun t ht => hasc t (List.mem_cons_of_mem _ ht)
    have hhere : WordMap.postingsOf ((front.key, postings) :: rest) front.key ≠ [] := by
      rw [WordMap.postingsOf_cons, if_pos rfl]
      exact hnonempty _ List.mem_cons_self
    -- The map of this cursor begins with the word that the cursor stands at.
    have hfront : ∀ e ∈ (front.key, postings) :: rest, ¬ e.1 < front.key := by
      intro e he
      rcases List.mem_cons.mp he with rfl | he
      · exact List.lt_irrefl _
      · exact Std.Asymm.asymm _ _ (hhead e he)
    rcases hother : smallest cursors with _ | other
    · -- All other cursors have come to their end, and their maps are empty.
      simp only [smallest, hother, Option.some.injEq] at hsome
      subst hsome
      refine ⟨⟨_, List.mem_cons_self, hhere⟩, fun t ht => ?_⟩
      rcases List.mem_cons.mp ht with rfl | ht
      · exact hfront
      · rw [smallest_none hstand hother t ht]
        exact fun e he => absurd he List.not_mem_nil
    · rcases ih hasc' hother with ⟨⟨t₀, ht₀, hpost⟩, hmin⟩
      simp only [smallest, hother] at hsome
      by_cases hlt : other.key < front.key
      · -- Another cursor stands further in front, and this map begins behind it.
        rw [if_pos hlt, Option.some.injEq] at hsome
        subst hsome
        refine ⟨⟨t₀, List.mem_cons_of_mem _ ht₀, hpost⟩, fun t ht => ?_⟩
        rcases List.mem_cons.mp ht with rfl | ht
        · exact fun e he hlt' => hfront e he (List.lt_trans hlt' hlt)
        · exact hmin t ht
      · -- This cursor is in front. The other maps begin at `other` or behind it.
        rw [if_neg hlt, Option.some.injEq] at hsome
        subst hsome
        refine ⟨⟨_, List.mem_cons_self, hhere⟩, fun t ht => ?_⟩
        rcases List.mem_cons.mp ht with rfl | ht
        · exact hfront
        · intro e he hlt'
          by_cases heq : e.1 = other.key
          · exact hlt (heq ▸ hlt')
          · exact hlt (List.lt_trans (lt_of_not_lt heq (hmin t ht e he)) hlt')

/-- Taking the smallest word that cursors stand at. -/
theorem take_smallest {cursors : List Cursor} {tables : List WordMap} (h : Stand cursors tables)
    (hasc : ∀ t ∈ tables, KeysAscend t)
    (hdocs : ∀ key, (tables.flatMap (WordMap.postingsOf · key)).Pairwise
      fun p q => p.document ≤ q.document)
    {entry : StoredWord} (hsome : smallest cursors = some entry) :
    ∃ cursors', take entry.word [] cursors
        = .ok ((fuse (tables.flatMap (WordMap.postingsOf · entry.key))).reverse, cursors')
      ∧ Stand cursors' (tables.map (without entry.key)) :=
  take_eq h hasc (smallest_some h hasc hsome).2 []
    (fun _ hp => absurd hp List.not_mem_nil) (hdocs entry.key)

section Without

variable {tables : List WordMap} (key : Bytes)

theorem without_proper (h : ∀ t ∈ tables, t.Proper) :
    ∀ t ∈ tables.map (without key), t.Proper := by
  intro t ht
  rcases List.mem_map.mp ht with ⟨t', ht', rfl⟩
  exact ⟨without_ascend (h t' ht').ascend,
    fun e he => (h t' ht').nonempty e (mem_without.mp he).1⟩

/-- The maps keep the postings of all other words, and have none of the word. -/
theorem flatMap_without (k : Bytes) :
    (tables.map (without key)).flatMap (WordMap.postingsOf · k)
      = if k = key then [] else tables.flatMap (WordMap.postingsOf · k) := by
  rw [List.flatMap_map]
  split
  · rename_i heq
    refine List.flatMap_eq_nil_iff.mpr fun t _ => WordMap.postingsOf_eq_nil fun e he => ?_
    rw [heq]
    exact (mem_without.mp he).2
  · rename_i hne
    congr 1
    funext t
    exact postingsOf_without t hne

theorem flatMap_without_pairwise
    (h : ∀ k, (tables.flatMap (WordMap.postingsOf · k)).Pairwise
      fun p q => p.document ≤ q.document) (k : Bytes) :
    ((tables.map (without key)).flatMap (WordMap.postingsOf · k)).Pairwise
      fun p q => p.document ≤ q.document := by
  rw [flatMap_without]
  split
  · exact List.Pairwise.nil
  · exact h k

/-- Every other word that the maps have comes behind the smallest one. -/
theorem lt_of_fuse_without {k : Bytes} (hmin : ∀ t ∈ tables, ∀ e ∈ t, ¬ e.1 < key)
    (h : fuse ((tables.map (without key)).flatMap (WordMap.postingsOf · k)) ≠ []) : key < k := by
  rw [flatMap_without] at h
  split at h
  · exact absurd rfl h
  · rename_i hne
    -- Fused postings go back to a posting that one of the maps has for the word.
    rcases List.exists_mem_of_ne_nil _ h with ⟨p, hp⟩
    rcases exists_of_mem_fuse hp with ⟨q, hq, -⟩
    rcases List.mem_flatMap.mp hq with ⟨t, ht, hq⟩
    have hmem := WordMap.mem_of_postingsOf (List.ne_nil_of_mem hq)
    exact lt_of_not_lt hne (hmin t ht (k, t.postingsOf k) hmem)

end Without

/-- Taking all words yields a map in which every word has its postings in all
    maps, put together. -/
theorem all_eq {cursors : List Cursor} {tables : List WordMap} (h : Stand cursors tables)
    (hproper : ∀ t ∈ tables, t.Proper)
    (hdocs : ∀ key, (tables.flatMap (WordMap.postingsOf · key)).Pairwise
      fun p q => p.document ≤ q.document) :
    ∃ merged, all cursors = .ok merged ∧ (WordPostings.table merged).Proper
      ∧ ∀ key, (WordPostings.table merged).postingsOf key
          = fuse (tables.flatMap (WordMap.postingsOf · key)) := by
  have hasc : ∀ t ∈ tables, KeysAscend t := fun t ht => (hproper t ht).ascend
  fun_induction all cursors generalizing tables with
  | case1 cursors hnone =>
    refine ⟨[], rfl, ⟨List.Pairwise.nil, fun e he => absurd he List.not_mem_nil⟩, fun key => ?_⟩
    have hempty : tables.flatMap (WordMap.postingsOf · key) = [] := by
      refine List.flatMap_eq_nil_iff.mpr fun t ht => ?_
      rw [smallest_none h hnone t ht, WordMap.postingsOf_nil]
    rw [hempty]
    rfl
  | case2 cursors entry hsome e htake =>
    -- Taking a word does not fail.
    rcases take_smallest h hasc hdocs hsome with ⟨cursors', htake', -⟩
    rw [htake'] at htake
    exact absurd htake (by simp only [reduceCtorEq, not_false_eq_true])
  | case3 cursors entry hsome read cursors' htake _ e hall ih =>
    -- Nor does it leave anything behind that could not be merged.
    rcases take_smallest h hasc hdocs hsome with ⟨cursors'', htake', hstand⟩
    rw [htake', Except.ok.injEq, Prod.mk.injEq] at htake
    rcases htake with ⟨-, rfl⟩
    obtain ⟨merged, hmerged, -⟩ := ih hstand (without_proper _ hproper)
      (flatMap_without_pairwise _ hdocs) fun t ht => (without_proper _ hproper t ht).ascend
    rw [hmerged] at hall
    exact absurd hall (by simp only [reduceCtorEq, not_false_eq_true])
  | case4 cursors entry hsome read cursors' htake _ rest hall ih =>
    rcases take_smallest h hasc hdocs hsome with ⟨cursors'', htake', hstand⟩
    rw [htake', Except.ok.injEq, Prod.mk.injEq] at htake
    rcases htake with ⟨rfl, rfl⟩
    obtain ⟨merged, hmerged, hrest, hpostings⟩ := ih hstand (without_proper _ hproper)
      (flatMap_without_pairwise _ hdocs) fun t ht => (without_proper _ hproper t ht).ascend
    rw [hmerged, Except.ok.injEq] at hall
    subst hall
    -- The word goes in front of what the maps without it are merged to.
    rcases smallest_some h hasc hsome with ⟨⟨t₀, ht₀, hpost₀⟩, hmin⟩
    have hhead : tables.flatMap (WordMap.postingsOf · entry.key) ≠ [] := fun hnil =>
      hpost₀ (List.flatMap_eq_nil_iff.mp hnil t₀ ht₀)
    have hbehind : ∀ e ∈ WordPostings.table merged, entry.key < e.1 := by
      intro e he
      refine lt_of_fuse_without _ hmin ?_
      rw [← hpostings, WordMap.postingsOf_of_mem hrest.ascend he]
      exact hrest.nonempty e he
    refine ⟨_, rfl, ⟨List.pairwise_cons.mpr ⟨hbehind, hrest.ascend⟩, fun e he => ?_⟩, fun key => ?_⟩
    · rcases List.mem_cons.mp he with rfl | he
      · rw [List.reverse_reverse]
        exact fuse_ne_nil hhead
      · exact hrest.nonempty e he
    · rw [WordPostings.table, List.map_cons, ← WordPostings.table, WordMap.postingsOf_cons,
        List.reverse_reverse, hpostings, flatMap_without]
      by_cases heq : key = entry.key
      · rw [heq]
        exact if_pos rfl
      · rw [if_neg heq]
        exact if_neg heq

/-- The entries of a map are in order. -/
theorem inOrder_eq {stored : List StoredWord} {words : WordMap} (h : StoredAs stored words)
    (hasc : KeysAscend words) (previous : Option StoredWord)
    (hprev : ∀ entry ∈ previous, ∀ e ∈ words, entry.key < e.1) :
    inOrder previous (stored.map .ok) = stored.map .ok := by
  induction stored generalizing words previous with
  | nil => rfl
  | cons entry stored ih =>
    rcases StoredAs.cons_iff.mp h with ⟨postings, rest, rfl, -, hrest⟩
    have ⟨hhead, htail⟩ := List.pairwise_cons.mp hasc
    have hnext := ih hrest htail (some entry) fun before hb e he => by
      rw [Option.mem_def, Option.some.injEq] at hb
      subst hb
      exact hhead e he
    rcases previous with _ | before
    · rw [List.map_cons, inOrder, hnext]
    · have hlt : before.key < entry.key := hprev before rfl _ List.mem_cons_self
      rw [List.map_cons, inOrder, if_neg (fun hle => hle hlt), hnext]

/-- Cursors at the beginning of segments that hold maps. -/
theorem collect_forward_eq {segments : List Segment} {held : List (Segment × WordMap)}
    (hsegments : held.map Prod.fst = segments) (hholds : ∀ s ∈ held, s.1.Holds s.2)
    (hasc : ∀ s ∈ held, KeysAscend s.2) :
    ∃ cursors, collect (segments.map fun source => forward (stream source)) = .ok cursors
      ∧ Stand (cursors.filterMap id) (held.map Prod.snd) := by
  subst hsegments
  induction held with
  | nil => exact ⟨[], rfl, Stand.nil⟩
  | cons s held ih =>
    rcases s with ⟨segment, words⟩
    obtain ⟨cursors, hcollect, hstand⟩ := ih (fun s hs => hholds s (List.mem_cons_of_mem _ hs))
      fun s hs => hasc s (List.mem_cons_of_mem _ hs)
    rcases hholds _ List.mem_cons_self with ⟨stored, hstored, hwords⟩
    -- A map has its words in order, so that the check for that lets all of them through.
    have hstream : stream segment = stored.map .ok := by
      rw [stream, hstored, inOrder_eq hwords (hasc _ List.mem_cons_self) none]
      exact fun entry he => absurd he (by simp)
    rcases forward_eq hwords hstand with ⟨next, hnext, hstand'⟩
    refine ⟨next :: cursors, ?_, ?_⟩
    · simp only [List.map_cons, hstream, hnext, collect] at hcollect ⊢
      rw [hcollect]
      rfl
    · rcases next with _ | cursor
      · exact hstand'
      · exact hstand'

/-- Merging segments that hold maps. -/
theorem sources_eq {segments : List Segment} {held : List (Segment × WordMap)}
    (hsegments : held.map Prod.fst = segments) (hholds : ∀ s ∈ held, s.1.Holds s.2)
    (hproper : ∀ s ∈ held, s.2.Proper)
    (hdocs : ∀ key, (held.flatMap fun s => s.2.postingsOf key).Pairwise
      fun p q => p.document ≤ q.document) :
    ∃ merged, sources segments = .ok merged ∧ (WordPostings.table merged).Proper
      ∧ ∀ key, (WordPostings.table merged).postingsOf key
          = fuse (held.flatMap fun s => s.2.postingsOf key) := by
  obtain ⟨cursors, hcollect, hstand⟩ :=
    collect_forward_eq hsegments hholds fun s hs => (hproper s hs).ascend
  have hflat : ∀ key, (held.map Prod.snd).flatMap (WordMap.postingsOf · key)
      = held.flatMap fun s => s.2.postingsOf key := fun key => List.flatMap_map ..
  have hproper' : ∀ t ∈ held.map Prod.snd, t.Proper := by
    intro t ht
    rcases List.mem_map.mp ht with ⟨s, hs, rfl⟩
    exact hproper s hs
  -- The postings of a word come from the maps one after another.
  obtain ⟨merged, hall, htable, hpostings⟩ := all_eq hstand hproper' fun key => by
    rw [hflat]
    exact hdocs key
  refine ⟨merged, ?_, htable, fun key => by rw [hpostings, hflat]⟩
  rw [sources, hcollect]
  exact hall

end Merge

end Concordance
