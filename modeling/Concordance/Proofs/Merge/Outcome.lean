import Concordance.Proofs.Guarded.Index
import Concordance.Proofs.Merge.Order
import Concordance.Proofs.Posting.Gather

/-!
# What a Merge Comes To

A merge of any sources either has everything that is in them, or it finds them corrupt.

Sources whose entries can all be read hold maps, and the maps say what the merge is. It unites
them if the words of each ascend and the documents of no word go back from one source to the
next. Nothing else is asked of the sources, and whatever else they are the merge fails.

That it fails is shown the other way round. A merge that succeeded has come to the end of every
source, so all that there is was read. It has put no word in front of another, and no document
in front of one that it had read. An error that is not one of these could only come from a table
that does not lie in its bytes, and a table that was read does.

## Main definitions

* `Segment.Decodes`: An entry that can be read, with its postings.
* `Merge.Orderly`: Maps with words and documents in order.
* `Merge.Unites`: Merged words that are those of maps.

## Theorems

* `Merge.exists_holds`: Sources that can be read hold maps.
* `Merge.unites_of_holds`: Orderly maps are united.
* `Merge.readable_of_sources`: What was merged could be read.
* `Merge.orderly_of_sources`: What was merged is in order.
* `Merge.corrupt_of_sources`: A merge that fails finds corruption.
* `Merge.sources_outcome`: What a merge comes to.
-/

namespace Concordance

/-- An entry that can be read, with all of its postings. -/
def Readable (read : Except Error StoredWord) : Prop :=
  ∃ entry postings, read = .ok entry ∧ entry.postings = .ok postings

/-- Entry `i` of a segment can be read, with all of its postings. -/
def Segment.Decodes (segment : Segment) (i : Nat) : Prop :=
  Readable (segment.get i >>= StoredWord.parse)

/-- Entries that can be read are those of a map. -/
theorem exists_storedAs {reads : List (Except Error StoredWord)}
    (h : ∀ read ∈ reads, Readable read) :
    ∃ stored words, reads = stored.map .ok ∧ StoredAs stored words := by
  induction reads with
  | nil => exact ⟨[], [], rfl, StoredAs.nil_iff.mpr rfl⟩
  | cons read reads ih =>
    rcases h read List.mem_cons_self with ⟨entry, postings, rfl, hpostings⟩
    rcases ih fun read hread => h read (List.mem_cons_of_mem _ hread) with
      ⟨stored, words, rfl, hstored⟩
    have hstream : entry.stream.map id = postings.map .ok := collect_eq_ok (by
      rw [List.map_id]
      exact hpostings)
    rw [List.map_id] at hstream
    exact ⟨entry :: stored, (entry.key, postings) :: words, rfl,
      StoredAs.cons_iff.mpr ⟨postings, words, rfl, hstream, hstored⟩⟩

/-- The ids of a posting in a map that is stored are a set. -/
theorem StoredAs.names {stored : List StoredWord} {words : WordMap} (h : StoredAs stored words) :
    ∀ e ∈ words, ∀ p ∈ e.2, p.NamesAscend := by
  intro e he p hp
  have hmem : (e.1, e.2.map Except.ok) ∈ stored.map fun entry => (entry.key, entry.stream) := by
    rw [h]
    exact List.mem_map_of_mem he
  rcases List.mem_map.mp hmem with ⟨entry, -, heq⟩
  refine Posting.namesAscend_of_readAll (r := ⟨entry.body, 0⟩) p ?_
  rw [← StoredWord.stream, (Prod.mk.inj heq).2]
  exact List.mem_map_of_mem hp

/-- A word that a proper map has postings for is one of its words. -/
theorem WordMap.Proper.postingsOf_ne_nil {words : WordMap} (h : words.Proper) {key : Bytes} :
    words.postingsOf key ≠ [] ↔ key ∈ words.map Prod.fst := by
  constructor
  · intro hne
    exact List.mem_map.mpr ⟨_, mem_of_postingsOf hne, rfl⟩
  · intro hmem
    rcases List.mem_map.mp hmem with ⟨e, he, rfl⟩
    rw [postingsOf_of_mem h.ascend he]
    exact h.nonempty e he

namespace Merge

/-- Maps whose words ascend, and in which the documents of a word do not go back, neither in one
    of them nor from one to the next. -/
structure Orderly (tables : List WordMap) : Prop where
  words : ∀ table ∈ tables, KeysAscend table
  documents : ∀ key, (tables.flatMap (WordMap.postingsOf · key)).Pairwise
    fun p q => p.document ≤ q.document

/-- Merged words that are those of maps: each once and by ascending bytes, with all postings that
    the maps have for it, folded. -/
structure Unites (tables : List WordMap) (merged : List WordPostings) : Prop where
  ascend : KeysAscend (WordPostings.table merged)
  words : ∀ key, key ∈ (WordPostings.table merged).map Prod.fst
    ↔ ∃ table ∈ tables, key ∈ table.map Prod.fst
  postings : ∀ word ∈ merged,
    Folds (tables.flatMap (WordMap.postingsOf · (Utf8.bytes word.word))) word.postings

variable {segments : List Segment} {tables : List WordMap}

/-- Sources whose entries can all be read hold maps. -/
theorem exists_holds (h : ∀ segment ∈ segments, ∀ i < segment.size, segment.Decodes i) :
    ∃ tables, List.Forall₂ Segment.Holds segments tables := by
  induction segments with
  | nil => exact ⟨[], .nil⟩
  | cons segment segments ih =>
    rcases ih fun other hother => h other (List.mem_cons_of_mem _ hother) with ⟨tables, htables⟩
    have hreads : ∀ read ∈ segment.entries.map (· >>= StoredWord.parse), Readable read := by
      rw [Segment.entries, List.map_map]
      exact List.forall_mem_map.mpr fun i hi =>
        h segment List.mem_cons_self i (List.mem_range.mp hi)
    rcases exists_storedAs hreads with ⟨stored, words, hstored, hwords⟩
    exact ⟨words :: tables, .cons ⟨stored, hstored, hwords⟩ htables⟩

/-- Segments side by side with the maps that they hold. -/
theorem exists_held (h : List.Forall₂ Segment.Holds segments tables) :
    ∃ held : List (Segment × WordMap), held.map Prod.fst = segments ∧ held.map Prod.snd = tables
      ∧ ∀ s ∈ held, s.1.Holds s.2 :=
  ⟨segments.zip tables, List.map_fst_zip (Nat.le_of_eq h.length_eq),
    List.map_snd_zip (Nat.le_of_eq h.length_eq.symm), fun _ hs => List.forall₂_zip h hs⟩

/-- Orderly maps are united. -/
theorem unites_of_holds (h : List.Forall₂ Segment.Holds segments tables)
    (horderly : Orderly tables) :
    ∃ merged, sources segments = .ok merged ∧ Unites tables merged := by
  obtain ⟨held, rfl, rfl, hholds⟩ := exists_held h
  have hproper : ∀ s ∈ held, s.2.Proper := by
    intro s hs
    rcases hholds s hs with ⟨stored, -, hstored⟩
    exact ⟨horderly.words s.2 (List.mem_map_of_mem hs), hstored.nonempty⟩
  -- What the maps have for a word is what the sources have for it.
  have hflat : ∀ key, (held.map Prod.snd).flatMap (WordMap.postingsOf · key)
      = held.flatMap fun s => s.2.postingsOf key := fun key => List.flatMap_map ..
  have hdocs := horderly.documents
  simp only [hflat] at hdocs
  obtain ⟨merged, hmerged, htable, hpostings⟩ := sources_eq rfl hholds hproper hdocs
  refine ⟨merged, hmerged, htable.ascend, fun key => ?_, fun word hword => ?_⟩
  · -- A word has postings in the merge if it has some in one of the maps.
    have hfuse : (WordPostings.table merged).postingsOf key ≠ []
        ↔ (held.flatMap fun s => s.2.postingsOf key) ≠ [] := by
      rw [hpostings]
      exact ⟨fun hne hnil => hne (by rw [hnil]; rfl), fuse_ne_nil⟩
    rw [← htable.postingsOf_ne_nil, hfuse, ne_eq, List.flatMap_eq_nil_iff]
    constructor
    · intro hne
      simp only [not_forall] at hne
      rcases hne with ⟨s, hs, hne⟩
      exact ⟨s.2, List.mem_map_of_mem hs, (hproper s hs).postingsOf_ne_nil.mp hne⟩
    · rintro ⟨table, htable, hkey⟩ hnil
      rcases List.mem_map.mp htable with ⟨s, hs, rfl⟩
      exact (hproper s hs).postingsOf_ne_nil.mpr hkey (hnil s hs)
  · have hmem : (Utf8.bytes word.word, word.postings) ∈ WordPostings.table merged :=
      List.mem_map_of_mem hword
    rw [← WordMap.postingsOf_of_mem htable.ascend hmem, hpostings, hflat]
    refine folds_fuse (fun p hp => ?_) (hdocs _)
    rcases List.mem_flatMap.mp hp with ⟨s, hs, hp⟩
    rcases hholds s hs with ⟨stored, -, hstored⟩
    exact hstored.names _ (WordMap.mem_of_postingsOf (List.ne_nil_of_mem hp)) p hp

/-- Postings that could be put behind others could be read. -/
theorem exists_of_appendAll {read read' : List Posting} {reads : List (Except Error Posting)}
    (h : appendAll read reads = .ok read') :
    ∃ postings : List Posting, reads = postings.map .ok := by
  fun_induction appendAll read reads with
  | case1 => exact ⟨[], rfl⟩
  | case2 | case3 => exact absurd h (by simp)
  | case4 read posting rest longer happend ih =>
    rcases ih h with ⟨postings, rfl⟩
    exact ⟨posting :: postings, rfl⟩

/-- A word that was taken is gone from the cursors that stood at it, once its postings were read.
    All others stay where they are. -/
theorem of_take {word : String} {read read' : List Posting} {cursors cursors' : List Cursor}
    (h : take word read cursors = .ok (read', cursors')) :
    ∀ c ∈ cursors, c ∈ cursors'
      ∨ (∃ postings : List Posting, c.entry.stream = postings.map .ok)
        ∧ ∃ next, forward c.rest = .ok next ∧ ∀ c' ∈ next, c' ∈ cursors' := by
  fun_induction take word read cursors generalizing read' cursors' with
  | case1 => exact fun c hc => absurd hc List.not_mem_nil
  | case2 | case3 | case4 | case6 => exact absurd h (by simp)
  | case5 read cursor rest hword longer happend next hnext all others htake ih =>
    simp only [Except.ok.injEq, Prod.mk.injEq] at h
    rw [← h.2]
    intro c hc
    rcases List.mem_cons.mp hc with rfl | hc
    · -- The cursor that stood at the word has gone forward, once its postings were read.
      exact Or.inr ⟨exists_of_appendAll happend, next, hnext,
        fun c' hc' => List.mem_append_left _ (Option.mem_toList.mpr hc')⟩
    · rcases ih htake c hc with hstay | ⟨hstream, next', hnext', hmem⟩
      · exact Or.inl (List.mem_append_right _ hstay)
      · exact Or.inr ⟨hstream, next', hnext', fun c' hc' => List.mem_append_right _ (hmem c' hc')⟩
  | case7 read cursor rest hword all others htake ih =>
    simp only [Except.ok.injEq, Prod.mk.injEq] at h
    rw [← h.2]
    intro c hc
    rcases List.mem_cons.mp hc with rfl | hc
    · exact Or.inl List.mem_cons_self
    · rcases ih htake c hc with hstay | ⟨hstream, next', hnext', hmem⟩
      · exact Or.inl (List.mem_cons_of_mem _ hstay)
      · exact Or.inr ⟨hstream, next', hnext', fun c' hc' => List.mem_cons_of_mem _ (hmem c' hc')⟩

/-- A cursor all of whose entries can be read, those that it has yet to come to included. -/
def Sound (cursor : Cursor) : Prop :=
  ∀ read ∈ .ok cursor.entry :: cursor.rest, Readable read

theorem readable_of_forward {reads : List (Except Error StoredWord)} {next : Option Cursor}
    (h : forward reads = .ok next) (hnext : ∀ c ∈ next, Sound c) :
    ∀ read ∈ reads, Readable read := by
  rw [forward.eq_def] at h
  split at h
  · exact fun read hread => absurd hread List.not_mem_nil
  · exact absurd h (by simp)
  · rcases Except.ok.inj h with rfl
    exact hnext _ rfl

/-- Cursors whose words were all taken are sound. -/
theorem sound_of_all {cursors : List Cursor} {merged : List WordPostings}
    (h : all cursors = .ok merged) : ∀ c ∈ cursors, Sound c := by
  fun_induction all cursors generalizing merged with
  | case1 cursors hnone =>
    rw [smallest_eq_none hnone]
    exact fun c hc => absurd hc List.not_mem_nil
  | case2 | case3 => exact absurd h (by simp)
  | case4 cursors entry hsmallest read cursors' htake hweight rest hrest ih =>
    intro c hc
    rcases of_take htake c hc with hstay | ⟨⟨postings, hstream⟩, next, hnext, hmem⟩
    · exact ih hrest c hstay
    · intro read hread
      rcases List.mem_cons.mp hread with rfl | hread
      · exact ⟨c.entry, postings, rfl, by rw [StoredWord.postings, hstream, collect_map_ok]⟩
      · exact readable_of_forward hnext (fun c' hc' => ih hrest c' (hmem c' hc')) read hread

/-- Entries that are all come to are in order. -/
theorem inOrder_eq_self {previous : Option StoredWord} {reads : List (Except Error StoredWord)}
    (h : ∀ e, .error e ∉ inOrder previous reads) : inOrder previous reads = reads := by
  fun_induction inOrder previous reads with
  | case1 => rfl
  | case2 previous e rest => exact absurd List.mem_cons_self (h e)
  | case3 entry rest ih => rw [ih fun e he => h e (List.mem_cons_of_mem _ he)]
  | case4 entry rest before hle => exact absurd List.mem_cons_self (h _)
  | case5 entry rest before hle ih => rw [ih fun e he => h e (List.mem_cons_of_mem _ he)]

/-- A source that was merged could be read, and its words are in order. -/
theorem readable_of_sources {merged : List WordPostings} (h : sources segments = .ok merged) :
    ∀ segment ∈ segments, (∀ read ∈ segment.entries.map (· >>= StoredWord.parse), Readable read)
      ∧ WordsAscend (segment.entries.map (· >>= StoredWord.parse)) := by
  rcases exists_of_sources h with ⟨cursors, hcursors, hall⟩
  intro segment hsegment
  rcases ok_of_collect hcursors hsegment with ⟨next, hnext, hforward⟩
  have hstream : ∀ read ∈ stream segment, Readable read :=
    readable_of_forward hforward fun c hc =>
      sound_of_all hall c (List.mem_filterMap.mpr ⟨next, hnext, hc⟩)
  -- A stream without an error is all that the source has, so nothing in it was out of order.
  have heq : stream segment = segment.entries.map (· >>= StoredWord.parse) := by
    refine inOrder_eq_self fun e he => ?_
    rcases hstream _ he with ⟨entry, postings, heq, -⟩
    exact absurd heq (by simp)
  rw [← heq]
  exact ⟨hstream, (inOrder_ascend none _).1⟩

/-- A posting is only put behind others if its document does not come before theirs. -/
theorem Ordered.le_of_append {read read' : List Posting} {posting : Posting} (h : Ordered read)
    (happend : Merge.append read posting = .ok read') :
    (∀ p ∈ read, p.document ≤ posting.document) ∧ ∃ p ∈ read', p.document = posting.document := by
  -- All of them are of documents before the last one, or of that.
  have hall : ∀ {last : Posting} {before : List Posting}, Ordered (last :: before) →
      last.document ≤ posting.document → ∀ p ∈ last :: before, p.document ≤ posting.document := by
    intro last before h hlast p hp
    rcases List.mem_cons.mp hp with rfl | hp
    · exact hlast
    · exact UInt32.le_trans (UInt32.le_of_lt ((List.pairwise_cons.mp h.documents).1 p hp)) hlast
  rcases append_ok happend with ⟨rfl, rfl⟩ | ⟨last, before, rfl, hsame, rfl⟩
    | ⟨last, before, rfl, hlt, rfl⟩
  · exact ⟨fun p hp => absurd hp List.not_mem_nil, posting, List.mem_cons_self, rfl⟩
  · exact ⟨hall h (hsame ▸ UInt32.le_refl _), last.extend posting, List.mem_cons_self, hsame⟩
  · exact ⟨hall h (UInt32.le_of_lt hlt), posting, List.mem_cons_self, rfl⟩

/-- So the documents of postings that could be put behind others do not go back. -/
theorem Ordered.pairwise_of_appendAll {read read' postings : List Posting} (h : Ordered read)
    (hnames : ∀ p ∈ postings, p.NamesAscend)
    (happend : Merge.appendAll read (postings.map .ok) = .ok read') :
    (∀ p ∈ read, ∀ q ∈ postings, p.document ≤ q.document)
      ∧ postings.Pairwise fun p q => p.document ≤ q.document := by
  induction postings generalizing read with
  | nil => exact ⟨fun p _ q hq => absurd hq List.not_mem_nil, List.Pairwise.nil⟩
  | cons posting postings ih =>
    rw [List.map_cons, Merge.appendAll] at happend
    rcases hlonger : Merge.append read posting with e | longer
    · rw [hlonger] at happend
      exact absurd happend (by simp)
    · rw [hlonger] at happend
      -- What was put last is of the document of the posting, and the rest comes behind it.
      obtain ⟨hle, last, hlast, hsame⟩ := h.le_of_append hlonger
      obtain ⟨hcross, hrest⟩ := ih (h.append (hnames posting List.mem_cons_self) hlonger)
        (fun p hp => hnames p (List.mem_cons_of_mem _ hp)) happend
      have hhead : ∀ q ∈ postings, posting.document ≤ q.document := fun q hq =>
        hsame ▸ hcross last hlast q hq
      refine ⟨fun p hp q hq => ?_, List.pairwise_cons.mpr ⟨hhead, hrest⟩⟩
      rcases List.mem_cons.mp hq with rfl | hq
      · exact hle p hp
      · exact UInt32.le_trans (hle p hp) (hhead q hq)

/-- Postings may be put behind others in two parts. -/
theorem appendAll_append {read longer : List Posting} {front : List (Except Error Posting)}
    (h : appendAll read front = .ok longer) (behind : List (Except Error Posting)) :
    appendAll read (front ++ behind) = appendAll longer behind := by
  fun_induction appendAll read front with
  | case1 =>
    rcases Except.ok.inj h with rfl
    rfl
  | case2 | case3 => exact absurd h (by simp)
  | case4 read posting rest next happend ih =>
    rw [List.cons_append, appendAll, happend]
    exact ih h

/-- Taking the smallest word has put all postings that the maps have for it one behind the
    other. -/
theorem appendAll_of_take {word : String} {read read' : List Posting}
    {cursors cursors' : List Cursor} (h : Stand cursors tables)
    (hasc : ∀ t ∈ tables, KeysAscend t) (hmin : ∀ t ∈ tables, ∀ e ∈ t, ¬ e.1 < Utf8.bytes word)
    (htake : take word read cursors = .ok (read', cursors')) :
    appendAll read ((tables.flatMap (WordMap.postingsOf · (Utf8.bytes word))).map .ok)
      = .ok read' := by
  -- A map without words has nothing to put, and its cursor is gone.
  induction h generalizing read cursors' with
  | nil =>
    simp only [take, Except.ok.injEq, Prod.mk.injEq] at htake
    rw [← htake.1]
    rfl
  | done hstand ih =>
    exact ih (fun t ht => hasc t (List.mem_cons_of_mem _ ht))
      (fun t ht => hmin t (List.mem_cons_of_mem _ ht)) htake
  | @cons entry stored table cursors tables hstored hstand ih =>
    have ihs := fun {read cursors'} => @ih read cursors'
      (fun t ht => hasc t (List.mem_cons_of_mem _ ht))
      (fun t ht => hmin t (List.mem_cons_of_mem _ ht))
    rcases StoredAs.cons_iff.mp hstored with ⟨postings, rest, rfl, hstream, hrest⟩
    rw [List.flatMap_cons, List.map_append]
    rw [take] at htake
    by_cases hword : entry.word = word
    · -- The cursor stands at the word, and what its map has comes first.
      subst hword
      have hpostings : WordMap.postingsOf ((entry.key, postings) :: rest) (Utf8.bytes entry.word)
          = postings := by
        rw [WordMap.postingsOf_cons]
        exact if_pos rfl
      rw [if_pos rfl, hstream] at htake
      rw [hpostings]
      split at htake
      · exact absurd htake (by simp)
      rename_i longer happend
      rw [appendAll_append happend]
      split at htake
      · exact absurd htake (by simp)
      split at htake
      · exact absurd htake (by simp)
      · rename_i hothers
        simp only [Except.ok.injEq, Prod.mk.injEq] at htake
        rcases htake with ⟨rfl, -⟩
        exact ihs hothers
    · -- It stands behind the word, which its map does not have then.
      have hkey : entry.key ≠ Utf8.bytes word := fun heq => hword (Utf8.bytes_injective heq)
      rw [if_neg hword] at htake
      rw [postingsOf_of_min (hasc _ List.mem_cons_self)
        (hmin _ List.mem_cons_self _ List.mem_cons_self) hkey]
      split at htake
      · exact absurd htake (by simp)
      · rename_i hothers
        simp only [Except.ok.injEq, Prod.mk.injEq] at htake
        rcases htake with ⟨rfl, -⟩
        exact ihs hothers

/-- Taking all words has found no document that goes back. -/
theorem documents_of_all {cursors : List Cursor} {merged : List WordPostings}
    (h : Stand cursors tables) (hasc : ∀ t ∈ tables, KeysAscend t)
    (hnames : ∀ t ∈ tables, ∀ e ∈ t, ∀ p ∈ e.2, p.NamesAscend)
    (hall : all cursors = .ok merged) (key : Bytes) :
    (tables.flatMap (WordMap.postingsOf · key)).Pairwise fun p q => p.document ≤ q.document := by
  fun_induction all cursors generalizing tables merged with
  | case1 cursors hnone =>
    have hempty : tables.flatMap (WordMap.postingsOf · key) = [] := by
      refine List.flatMap_eq_nil_iff.mpr fun t ht => ?_
      rw [smallest_none h hnone t ht, WordMap.postingsOf_nil]
    rw [hempty]
    exact List.Pairwise.nil
  | case2 | case3 => exact absurd hall (by simp)
  | case4 cursors entry hsmallest read cursors' htake hweight rest hrest ih =>
    have hmin := (smallest_some h hasc hsmallest).2
    have hnames' : ∀ p ∈ tables.flatMap (WordMap.postingsOf · entry.key), p.NamesAscend := by
      intro p hp
      rcases List.mem_flatMap.mp hp with ⟨t, ht, hp⟩
      exact hnames t ht _ (WordMap.mem_of_postingsOf (List.ne_nil_of_mem hp)) p hp
    have hdocs := (Ordered.nil.pairwise_of_appendAll hnames'
      (appendAll_of_take h hasc hmin htake)).2
    -- The maps without the word are left, and the cursors stand at them.
    obtain ⟨cursors'', htake', hstand⟩ :=
      take_eq h hasc hmin [] (fun _ hp => absurd hp List.not_mem_nil) hdocs
    rw [List.reverse_nil, htake, Except.ok.injEq, Prod.mk.injEq] at htake'
    rcases htake' with ⟨-, rfl⟩
    have hothers := ih hstand
      (fun t ht => by
        rcases List.mem_map.mp ht with ⟨t', ht', rfl⟩
        exact without_ascend (hasc t' ht'))
      (fun t ht e he => by
        rcases List.mem_map.mp ht with ⟨t', ht', rfl⟩
        exact hnames t' ht' e (mem_without.mp he).1) hrest
    rw [flatMap_without] at hothers
    by_cases hkey : key = entry.key
    · rw [hkey]
      exact hdocs
    · rw [if_neg (show ¬ key = Utf8.bytes entry.word from hkey)] at hothers
      exact hothers

/-- Sources that hold maps and could be merged hold orderly maps. -/
theorem orderly_of_sources {merged : List WordPostings}
    (h : List.Forall₂ Segment.Holds segments tables) (hmerged : sources segments = .ok merged) :
    Orderly tables := by
  obtain ⟨held, rfl, rfl, hholds⟩ := exists_held h
  -- The entries of a source were read in order, and its map has the keys of these.
  have hasc : ∀ s ∈ held, KeysAscend s.2 := by
    intro s hs
    rcases hholds s hs with ⟨stored, hstored, hwords⟩
    have hascend := ((readable_of_sources hmerged) s.1 (List.mem_map_of_mem hs)).2
    rw [hstored, WordsAscend, List.pairwise_map] at hascend
    have hkeys : (stored.map fun entry => (entry.key, entry.stream)).Pairwise
        fun a b => a.1 < b.1 :=
      List.pairwise_map.mpr (hascend.imp fun hlt => hlt _ _ rfl rfl)
    rw [hwords, List.pairwise_map] at hkeys
    exact hkeys
  have hnames : ∀ s ∈ held, ∀ e ∈ s.2, ∀ p ∈ e.2, p.NamesAscend := by
    intro s hs
    rcases hholds s hs with ⟨stored, -, hwords⟩
    exact hwords.names
  -- So its cursors stand at the maps, and the merge has told about the documents.
  obtain ⟨cursors, hcollect, hstand⟩ := collect_forward_eq rfl hholds hasc
  rw [sources, hcollect] at hmerged
  exact ⟨List.forall_mem_map.mpr hasc,
    documents_of_all hstand (List.forall_mem_map.mpr hasc) (List.forall_mem_map.mpr hnames) hmerged⟩

section Errors

variable {e : Error}

/-- What a cursor can not come to can not be read, or is out of order. -/
theorem corrupt_of_inOrder {previous : Option StoredWord} {reads : List (Except Error StoredWord)}
    (hreads : ∀ e, .error e ∈ reads → ∃ cause, e = .corrupt cause)
    (h : .error e ∈ inOrder previous reads) : ∃ cause, e = .corrupt cause := by
  fun_induction inOrder previous reads with
  | case1 => exact absurd h List.not_mem_nil
  | case2 previous e' rest =>
    rcases Except.error.inj (List.mem_singleton.mp h) with rfl
    exact hreads _ List.mem_cons_self
  | case4 entry rest before hle =>
    exact ⟨_, Except.error.inj (List.mem_singleton.mp h)⟩
  | case3 entry rest ih | case5 entry rest before hle ih =>
    rcases List.mem_cons.mp h with heq | h
    · exact absurd heq (by simp)
    · exact ih (fun e he => hreads e (List.mem_cons_of_mem _ he)) h

/-- A source whose table lies in its bytes only fails on corruption. -/
theorem corrupt_of_stream {segment : Segment} (hinside : Guarded.Inside segment)
    (h : .error e ∈ stream segment) : ∃ cause, e = .corrupt cause := by
  refine corrupt_of_inOrder (fun e he => ?_) h
  rw [Segment.entries, List.map_map] at he
  rcases List.mem_map.mp he with ⟨i, -, hread⟩
  rcases error_of_bind hread with hget | ⟨bytes, -, hparse⟩
  · exact (hinside.get i).corrupt_of_error hget
  · exact StoredWord.parse_corrupt hparse

theorem mem_of_forward {reads : List (Except Error StoredWord)} (h : forward reads = .error e) :
    .error e ∈ reads := by
  rw [forward.eq_def] at h
  split at h
  · exact absurd h (by simp)
  · rw [Except.error.inj h]
    exact List.mem_cons_self
  · exact absurd h (by simp)

theorem rest_of_forward {reads : List (Except Error StoredWord)} {next : Option Cursor}
    (h : forward reads = .ok next) : ∀ c ∈ next, ∀ read ∈ c.rest, read ∈ reads := by
  rw [forward.eq_def] at h
  split at h
  · rcases Except.ok.inj h with rfl
    exact fun c hc => absurd hc (by simp)
  · exact absurd h (by simp)
  · rcases Except.ok.inj h with rfl
    intro c hc read hread
    rcases Option.some.inj hc with rfl
    exact List.mem_cons_of_mem _ hread

/-- Postings can not be put behind others if they can not be read, or are out of order. -/
theorem corrupt_of_appendAll {read : List Posting} {reads : List (Except Error Posting)}
    (hreads : ∀ e, .error e ∈ reads → ∃ cause, e = .corrupt cause)
    (h : appendAll read reads = .error e) : ∃ cause, e = .corrupt cause := by
  fun_induction appendAll read reads with
  | case1 => exact absurd h (by simp)
  | case2 read e' rest =>
    rcases Except.error.inj h with rfl
    exact hreads _ List.mem_cons_self
  | case3 read posting rest e' happend =>
    rcases Except.error.inj h with rfl
    -- Putting a posting behind others fails for the order of documents only.
    unfold append at happend
    split at happend
    · exact absurd happend (by simp)
    · split at happend
      · exact absurd happend (by simp)
      · split at happend
        · exact ⟨_, (Except.error.inj happend).symm⟩
        · exact absurd happend (by simp)
  | case4 read posting rest longer happend ih =>
    exact ih (fun e he => hreads e (List.mem_cons_of_mem _ he)) h

/-- A cursor that fails on corruption only, where it fails. -/
def Tame (cursor : Cursor) : Prop :=
  ∀ e, .error e ∈ cursor.rest → ∃ cause, e = .corrupt cause

theorem corrupt_of_take {word : String} {read : List Posting} {cursors : List Cursor}
    (htame : ∀ c ∈ cursors, Tame c) (h : take word read cursors = .error e) :
    ∃ cause, e = .corrupt cause := by
  fun_induction take word read cursors with
  | case1 | case5 | case7 => exact absurd h (by simp)
  | case2 read cursor rest hword e' happend =>
    rcases Except.error.inj h with rfl
    exact corrupt_of_appendAll (fun e he => Posting.readAll_corrupt he) happend
  | case3 read cursor rest hword longer happend e' hnext =>
    rcases Except.error.inj h with rfl
    exact htame cursor List.mem_cons_self _ (mem_of_forward hnext)
  | case4 read cursor rest hword longer happend next hnext e' htake ih =>
    rcases Except.error.inj h with rfl
    exact ih (fun c hc => htame c (List.mem_cons_of_mem _ hc)) htake
  | case6 read cursor rest hword e' htake ih =>
    rcases Except.error.inj h with rfl
    exact ih (fun c hc => htame c (List.mem_cons_of_mem _ hc)) htake

theorem corrupt_of_all {cursors : List Cursor} (htame : ∀ c ∈ cursors, Tame c)
    (h : all cursors = .error e) : ∃ cause, e = .corrupt cause := by
  fun_induction all cursors with
  | case1 | case4 => exact absurd h (by simp)
  | case2 cursors entry hsmallest e' htake =>
    rcases Except.error.inj h with rfl
    exact corrupt_of_take htame htake
  | case3 cursors entry hsmallest read cursors' htake hweight e' hrest ih =>
    rcases Except.error.inj h with rfl
    refine ih (forall_of_take htake (fun c hc _ => htame c hc) fun c hc _ next hnext c' hc' => ?_)
      hrest
    exact fun e he => htame c hc e (rest_of_forward hnext c' hc' _ he)

/-- A merge that fails finds corruption. -/
theorem corrupt_of_sources (hinside : ∀ segment ∈ segments, Guarded.Inside segment)
    (h : sources segments = .error e) : ∃ cause, e = .corrupt cause := by
  rw [sources] at h
  rcases hcursors : collect (segments.map fun source => forward (stream source)) with e' | cursors
  · rw [hcursors] at h
    rcases Except.error.inj h with rfl
    rcases List.mem_map.mp (mem_of_collect_error hcursors) with ⟨segment, hsegment, hforward⟩
    exact corrupt_of_stream (hinside segment hsegment) (mem_of_forward hforward)
  · rw [hcursors] at h
    refine corrupt_of_all (fun c hc => ?_) h
    rcases List.mem_filterMap.mp hc with ⟨next, hnext, hsome⟩
    rcases (exists_of_collect hcursors).2 next hnext with ⟨segment, hsegment, hforward⟩
    exact fun e he => corrupt_of_stream (hinside segment hsegment)
      (rest_of_forward hforward c hsome _ he)

end Errors

/-- A merge unites sources that hold orderly maps. Sources with an entry that can not be read, and
    sources whose words or documents are out of order, are found to be corrupt. -/
theorem sources_outcome (hinside : ∀ segment ∈ segments, Guarded.Inside segment) :
    (∀ tables, List.Forall₂ Segment.Holds segments tables → Orderly tables →
        ∃ merged, sources segments = .ok merged ∧ Unites tables merged)
      ∧ ((∃ segment ∈ segments, ∃ i < segment.size, ¬ segment.Decodes i)
          ∨ (∃ tables, List.Forall₂ Segment.Holds segments tables ∧ ¬ Orderly tables) →
        ∃ cause, sources segments = .error (.corrupt cause)) := by
  refine ⟨fun tables => unites_of_holds, fun hwrong => ?_⟩
  rcases hmerged : sources segments with e | merged
  · rcases corrupt_of_sources hinside hmerged with ⟨cause, rfl⟩
    exact ⟨cause, rfl⟩
  · -- What could be merged has none of these faults.
    rcases hwrong with ⟨segment, hsegment, i, hi, hnot⟩ | ⟨tables, hholds, hnot⟩
    · refine absurd ((readable_of_sources hmerged segment hsegment).1 _ ?_) hnot
      rw [Segment.entries, List.map_map]
      exact List.mem_map.mpr ⟨i, List.mem_range.mpr hi, rfl⟩
    · exact absurd (orderly_of_sources hholds hmerged) hnot

/-- A run that was written and read back holds its map, and a merge of it finds no fault. -/
theorem exists_run {words : WordMap} (h : words.Storable)
    (hsize : words.encode.length < UInt64.size) :
    ∃ segment, Run.segment words.encode = .ok segment ∧ segment.Holds words
      ∧ Guarded.Inside segment := by
  rcases Run.holds h hsize with ⟨segment, hsegment, hholds⟩
  refine ⟨segment, hsegment, hholds, ?_⟩
  rcases exists_of_map hsegment with ⟨⟨table, next⟩, hparse, rfl⟩
  have ⟨hnext, hle⟩ := OffsetTable.le_of_parse hparse
  exact ⟨by simpa using hsize, Nat.le_trans (Nat.le_of_eq hnext) hle⟩

/-- Words of which it can be told one by one that they can be stored. -/
theorem table_storable {words : List WordPostings} (hwords : ∀ word ∈ words, NulFree word.word)
    (hpostings : ∀ word ∈ words, word.postings ≠ [] ∧ ∀ p ∈ word.postings,
      p.metaIds.Pairwise (· < ·) ∧ p.positions.Pairwise (· ≤ ·)) :
    (WordPostings.table words).Storable := by
  constructor
  · intro e he
    rcases List.mem_map.mp he with ⟨word, hword, rfl⟩
    exact ⟨word.word, hwords word hword, rfl⟩
  · intro e he
    rcases List.mem_map.mp he with ⟨word, hword, rfl⟩
    have ⟨hne, htidy⟩ := hpostings word hword
    exact ⟨hne, fun p hp => ⟨(htidy p hp).1, (htidy p hp).2⟩⟩

/-- Two words, one of them in two documents. -/
def earlyWords : WordMap :=
  WordPostings.table [⟨"bird", [{ document := 0, occurrences := 1, positions := [4] }]⟩,
    ⟨"cat", [{ document := 0, occurrences := 2, positions := [0, 2] },
      { document := 1, occurrences := 1, positions := [0] }]⟩]

/-- The rest of the second document, and another one. -/
def lateWords : WordMap :=
  WordPostings.table [⟨"cat", [{ document := 1, occurrences := 1, positions := [7] },
      { document := 2, occurrences := 1, positions := [3] }]⟩,
    ⟨"dog", [{ document := 2, occurrences := 1, positions := [1] }]⟩]

theorem orderly_earlyWords : Orderly [earlyWords, lateWords] := by
  refine ⟨by unfold KeysAscend; decide, fun key => ?_⟩
  by_cases hcat : key = Utf8.bytes "cat"
  · rw [hcat]
    decide
  · -- Every other word is in one of the maps only, and in one document.
    simp only [List.flatMap_cons, List.flatMap_nil, earlyWords, lateWords, WordPostings.table,
      List.map_cons, List.map_nil, WordMap.postingsOf_cons, WordMap.postingsOf_nil, if_neg hcat]
    by_cases hbird : key = Utf8.bytes "bird"
    · rw [hbird]
      decide
    · rw [if_neg hbird]
      split <;> decide

/-- The order of the sources matters. -/
theorem sources_outcome_of_runs : ∃ early late,
    Run.segment earlyWords.encode = .ok early ∧ Run.segment lateWords.encode = .ok late
      ∧ (∃ merged, sources [early, late] = .ok merged ∧ Unites [earlyWords, lateWords] merged)
      ∧ ∃ cause, sources [late, early] = .error (.corrupt cause) := by
  have hstorable : earlyWords.Storable := table_storable (by decide) (by decide)
  have hstorable' : lateWords.Storable := table_storable (by decide) (by decide)
  rcases exists_run hstorable (by decide +kernel) with ⟨early, hearly, hholds, hinside⟩
  rcases exists_run hstorable' (by decide +kernel) with ⟨late, hlate, hholds', hinside'⟩
  have hnot : ¬ Orderly [lateWords, earlyWords] := fun h =>
    absurd (h.documents (Utf8.bytes "cat")) (by decide)
  refine ⟨early, late, hearly, hlate, ?_, ?_⟩
  · exact (sources_outcome (by simp [hinside, hinside'])).1 _
      (.cons hholds (.cons hholds' .nil)) orderly_earlyWords
  · exact (sources_outcome (by simp [hinside, hinside'])).2
      (Or.inr ⟨_, .cons hholds' (.cons hholds .nil), hnot⟩)

end Merge

end Concordance
