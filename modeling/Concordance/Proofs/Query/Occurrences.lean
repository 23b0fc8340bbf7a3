import Concordance.Proofs.Decoding
import Concordance.Proofs.Query.Nearness

/-!
# Where a Word Is

What evaluation collects for a leaf, in terms of the postings of its entries.

A leaf has several entries, and a document may be in more than one of them. What there is
for the document in the end is told by its postings alone, taken from all entries: their
ranks added up, and their positions. A posting changes what there is for its own document
and nothing else, which is `lookup_foldl_note`.

Positions of one entry ascend as they are, because there is one posting for a document.
Those of several entries are sorted afterwards. So they ascend in any case, as the scan for
near positions needs it.

## Main definitions

* `Setting`: What the meaning of a query depends on.
* `Setting.postingsIn`: The postings of a leaf in a document.
* `Setting.Sights`: What there should be for each document.

## Theorems

* `Evaluation.lookup_foldl_note`: What is looked up after postings were noted.
* `Evaluation.sights_of_occurrences`: Collecting the entries of a leaf has the result that it
  should have.
* `Evaluation.occurrences_ok`: It has one if all words decode.
-/

namespace Concordance

/-- What the meaning of a query depends on: words with their postings, the number of
    documents, how common words may be, and how far apart words are still near. -/
structure Setting where
  words : List WordPostings
  documents : Nat
  limit : SpreadLimit
  reach : Nat

namespace Setting

variable (setting : Setting) (leaf : WordLeaf) (document : UInt32)

/-- The entries of a leaf that are not in too many documents. -/
def entries : List WordPostings :=
  ((setting.words.drop leaf.start).take (leaf.stop - leaf.start)).filter fun entry =>
    !setting.limit.exceededBy entry.postings.length setting.documents

/-- The postings of a leaf that pass its filter. -/
def postings : List Posting :=
  ((setting.entries leaf).flatMap WordPostings.postings).filter fun posting =>
    posting.passes leaf.metaId

/-- Those in a document. -/
def postingsIn : List Posting :=
  (setting.postings leaf).filter fun posting => posting.document = document

/-- The score of a document for a leaf. -/
def wordScore : Option Nat :=
  if setting.postingsIn leaf document = [] then none
  else some (total (fun posting => posting.rank.toNat) (setting.postingsIn leaf document))

/-- The positions of a leaf in a document. -/
def positionsIn : List UInt32 :=
  (setting.postingsIn leaf document).flatMap Posting.positions

/-- What there should be for each document: its score, and its positions in order. -/
structure Sights (found : ByDocument Sighting) : Prop where
  ascend : KeysAscend found
  score : ∀ document, (found.lookup document).map Sighting.score = setting.wordScore leaf document
  positions : ∀ document o, found.lookup document = some o →
    o.positions.Pairwise (· ≤ ·) ∧ ∀ x, x ∈ o.positions ↔ x ∈ setting.positionsIn leaf document

end Setting

namespace Sighting

/-- What there is from two places in the order of entries. -/
def join (a b : Sighting) : Sighting :=
  ⟨a.score + b.score, a.positions ++ b.positions⟩

instance : Std.Associative join :=
  ⟨fun _ _ _ => by simp only [join, Nat.add_assoc, List.append_assoc]⟩

/-- What there is from several postings of one document. -/
def ofPostings (postings : List Posting) : Option Sighting :=
  if postings = [] then none
  else some ⟨total (fun posting => posting.rank.toNat) postings,
    postings.flatMap Posting.positions⟩

theorem ofPostings_cons (posting : Posting) (postings : List Posting) :
    ofPostings (posting :: postings)
      = (some ⟨posting.rank.toNat, posting.positions⟩).merge join (ofPostings postings) := by
  rcases postings with _ | ⟨second, postings⟩
  · rw [ofPostings, if_neg (List.cons_ne_nil _ _), List.flatMap_cons, List.flatMap_nil,
      List.append_nil]
    rfl
  · rw [ofPostings, if_neg (List.cons_ne_nil _ _), ofPostings, if_neg (List.cons_ne_nil _ _)]
    rfl

end Sighting

namespace Evaluation

variable {found : ByDocument Sighting}

theorem keysAscend_note (h : KeysAscend found) (posting : Posting) :
    KeysAscend (note found posting) :=
  ByDocument.keysAscend_update _ _ _ h

theorem keysAscend_foldl_note (h : KeysAscend found) (postings : List Posting) :
    KeysAscend (postings.foldl note found) := by
  induction postings generalizing found with
  | nil => exact h
  | cons posting postings ih => exact ih (keysAscend_note h posting)

/-- A posting is noted behind what there is for its document. -/
theorem lookup_note (h : KeysAscend found) (posting : Posting) (k : UInt32) :
    (note found posting).lookup k
      = if posting.document = k then
          (found.lookup k).merge Sighting.join (some ⟨posting.rank.toNat, posting.positions⟩)
        else found.lookup k := by
  rw [note, ByDocument.lookup_update _ _ _ h]
  by_cases hk : posting.document = k
  · rw [if_pos hk.symm, if_pos hk, hk]
    rcases found.lookup k with _ | o
    · rw [Option.getD_none, Option.merge_none_left, Nat.zero_add, List.nil_append]
    · rfl
  · rw [if_neg (Ne.symm hk), if_neg hk]

/-- What is looked up after postings were noted. -/
theorem lookup_foldl_note (h : KeysAscend found) (postings : List Posting) (k : UInt32) :
    (postings.foldl note found).lookup k
      = (found.lookup k).merge Sighting.join
        (Sighting.ofPostings (postings.filter fun posting => posting.document = k)) := by
  induction postings generalizing found with
  | nil => exact (Option.merge_none_right ..).symm
  | cons posting postings ih =>
    rw [List.foldl_cons, ih (keysAscend_note h posting), lookup_note h]
    by_cases hk : posting.document = k
    · rw [if_pos hk, List.filter_cons_of_pos (by simp [hk]), Sighting.ofPostings_cons]
      exact Std.Associative.assoc _ _ _
    · rw [if_neg hk, List.filter_cons_of_neg (by simp [hk])]

/-- What the meaning of a query depends on, where a query is evaluated. -/
def setting (evaluation : Evaluation) (words : List WordPostings) : Setting :=
  ⟨words, evaluation.index.numDocuments, evaluation.limit, evaluation.reach⟩

variable {evaluation : Evaluation} {words : List WordPostings}

/-- An entry is read together with its postings, and then the entries behind it are. -/
theorem collectFrom_succ (metaId : Option UInt32) (count i : Nat) (found : ByDocument Sighting)
    (ignored : WordSet) :
    evaluation.collectFrom metaId (count + 1) i found ignored
      = evaluation.index.storedWord i >>= fun entry => entry.postings >>= fun postings =>
        if evaluation.limit.exceededBy postings.length evaluation.index.numDocuments then
          evaluation.collectFrom metaId count (i + 1) found (WordSet.insert entry.word ignored)
        else
          evaluation.collectFrom metaId count (i + 1)
            ((postings.filter fun posting => posting.passes metaId).foldl note found) ignored := by
  rw [collectFrom]
  rcases evaluation.index.storedWord i with e | entry
  · rfl
  · simp only [bind, Except.bind]
    rcases entry.postings with e | postings <;> rfl

/-- What was collected is only sorted afterwards. -/
theorem occurrences_eq_map (leaf : WordLeaf) (ignored : WordSet) :
    evaluation.occurrences leaf ignored
      = (evaluation.collectFrom leaf.metaId (leaf.stop - leaf.start) leaf.start [] ignored).map
        fun collected =>
          (if 1 < leaf.stop - leaf.start then
            collected.1.map fun (document, o) => (document, sortPositions o)
          else collected.1, collected.2) := by
  rw [occurrences]
  rcases evaluation.collectFrom leaf.metaId (leaf.stop - leaf.start) leaf.start [] ignored with
    e | ⟨found, passed⟩
  · rfl
  · simp only [Except.map]
    split <;> rfl

/-- If consecutive entries could be read, then their postings were noted one after the other. -/
theorem collectFrom_reads (h : evaluation.index.Reads words) {metaId : Option UInt32}
    {count i : Nat} {found found' : ByDocument Sighting} {ignored ignored' : WordSet}
    (hcollect : evaluation.collectFrom metaId count i found ignored = .ok (found', ignored')) :
    found' = (((((words.drop i).take count).filter fun entry =>
          !evaluation.limit.exceededBy entry.postings.length evaluation.index.numDocuments).flatMap
            WordPostings.postings).filter fun posting => posting.passes metaId).foldl note found
      ∧ ∀ entry ∈ (words.drop i).take count, TidyPostings entry.postings := by
  induction count generalizing i found ignored with
  | zero =>
    rcases Prod.mk.inj (Except.ok.inj hcollect) with ⟨rfl, -⟩
    rw [List.take_zero]
    exact ⟨rfl, fun entry hentry => absurd hentry List.not_mem_nil⟩
  | succ count ih =>
    rw [collectFrom_succ] at hcollect
    rcases exists_of_bind hcollect with ⟨stored, hstored, hcollect⟩
    rcases exists_of_bind hcollect with ⟨postings, hpostings, hcollect⟩
    -- An entry that could be read is one of the words.
    rcases exists_of_bind hstored with ⟨bytes, hbytes, -⟩
    have hlt : i < words.length := by
      rw [h.length]
      exact Segment.lt_of_get hbytes
    rcases h.postings i hlt stored postings hstored hpostings with ⟨rfl, htidy⟩
    rw [List.drop_eq_getElem_cons hlt, List.take_succ_cons]
    rcases hcommon : evaluation.limit.exceededBy words[i].postings.length
      evaluation.index.numDocuments with _ | _
    · -- The entry counts, and its postings that pass the filter are noted.
      rw [hcommon, if_neg Bool.false_ne_true] at hcollect
      rcases ih hcollect with ⟨hfound, hrest⟩
      rw [List.filter_cons_of_pos (by rw [hcommon]; rfl), List.flatMap_cons, List.filter_append,
        List.foldl_append]
      exact ⟨hfound, List.forall_mem_cons.mpr ⟨htidy, hrest⟩⟩
    · -- It is in too many documents and adds nothing.
      rw [hcommon, if_pos rfl] at hcollect
      rcases ih hcollect with ⟨hfound, hrest⟩
      rw [List.filter_cons_of_neg (by simp [hcommon])]
      exact ⟨hfound, List.forall_mem_cons.mpr ⟨htidy, hrest⟩⟩

/-- Entries of words that all decode can be read. -/
theorem collectFrom_ok (h : evaluation.index.decodeWords = .ok words) (metaId : Option UInt32)
    {count i : Nat} (hi : i + count ≤ words.length) (found : ByDocument Sighting)
    (ignored : WordSet) :
    ∃ result, evaluation.collectFrom metaId count i found ignored = .ok result := by
  induction count generalizing i found ignored with
  | zero => exact ⟨_, rfl⟩
  | succ count ih =>
    obtain ⟨stored, hstored, -, hpostings⟩ :=
      Index.storedWord_of_decodeWords h (i := i) (by omega)
    rw [collectFrom]
    simp only [hstored, hpostings]
    -- Whether the entry is passed over or not, the entries behind it are read.
    split
    · exact ih (by omega) _ _
    · exact ih (by omega) _ _

end Evaluation

/-- There is one posting for a document, and its positions are in order. -/
theorem TidyPostings.positions_ascend {postings parts : List Posting} (h : TidyPostings postings)
    (hsub : parts.Sublist postings) {document : UInt32}
    (hdocument : ∀ p ∈ parts, p.document = document) :
    (parts.flatMap Posting.positions).Pairwise (· ≤ ·) := by
  rcases parts with _ | ⟨p, _ | ⟨q, rest⟩⟩
  · exact List.Pairwise.nil
  · rw [List.flatMap_cons, List.flatMap_nil, List.append_nil]
    exact (h.tidy p (hsub.subset List.mem_cons_self)).positions
  · have hlt := (List.pairwise_cons.mp (h.ascending.sublist hsub)).1 q List.mem_cons_self
    rw [hdocument p List.mem_cons_self,
      hdocument q (List.mem_cons_of_mem _ List.mem_cons_self)] at hlt
    exact absurd hlt (UInt32.lt_irrefl _)

namespace Setting

variable {setting : Setting} {leaf : WordLeaf}

/-- A leaf with one entry has its positions in order. -/
theorem positionsIn_ascend (h : ∀ entry ∈ setting.entries leaf, TidyPostings entry.postings)
    (hone : leaf.stop - leaf.start ≤ 1) (document : UInt32) :
    (setting.positionsIn leaf document).Pairwise (· ≤ ·) := by
  -- With one entry at most, a document has one posting at most.
  have hlength : (setting.entries leaf).length ≤ 1 := by
    refine Nat.le_trans (List.length_filter_le _ _) ?_
    rw [List.length_take]
    omega
  have hdocument : ∀ p ∈ setting.postingsIn leaf document, p.document = document :=
    fun p hp => of_decide_eq_true (List.mem_filter.mp hp).2
  rw [positionsIn]
  rw [postingsIn, postings] at hdocument ⊢
  rcases hentries : setting.entries leaf with _ | ⟨entry, _ | ⟨second, rest⟩⟩
  · exact List.Pairwise.nil
  · rw [hentries, List.flatMap_cons, List.flatMap_nil, List.append_nil] at hdocument
    rw [List.flatMap_cons, List.flatMap_nil, List.append_nil]
    have htidy := h entry (by rw [hentries]; exact List.mem_cons_self)
    exact htidy.positions_ascend (List.filter_sublist.trans List.filter_sublist) hdocument
  · rw [hentries, List.length_cons, List.length_cons] at hlength
    omega

/-- What is looked up once all postings of a leaf were noted. -/
theorem lookup_noted (setting : Setting) (leaf : WordLeaf) (document : UInt32) :
    ((setting.postings leaf).foldl Evaluation.note []).lookup document
      = Sighting.ofPostings (setting.postingsIn leaf document) := by
  rw [Evaluation.lookup_foldl_note List.Pairwise.nil, List.lookup_nil, Option.merge_none_left]
  rfl

theorem score_ofPostings (setting : Setting) (leaf : WordLeaf) (document : UInt32) :
    (Sighting.ofPostings (setting.postingsIn leaf document)).map Sighting.score
      = setting.wordScore leaf document := by
  rw [Sighting.ofPostings, wordScore]
  split <;> rfl

theorem positions_ofPostings {document : UInt32} {o : Sighting}
    (h : Sighting.ofPostings (setting.postingsIn leaf document) = some o) :
    o.positions = setting.positionsIn leaf document := by
  rw [Sighting.ofPostings] at h
  split at h
  · exact absurd h (by simp)
  · rw [← Option.some.inj h]
    rfl

/-- For one entry, what was noted is as it should be. -/
theorem sights_noted (h : ∀ entry ∈ setting.entries leaf, TidyPostings entry.postings)
    (hone : leaf.stop - leaf.start ≤ 1) :
    setting.Sights leaf ((setting.postings leaf).foldl Evaluation.note []) := by
  refine ⟨Evaluation.keysAscend_foldl_note List.Pairwise.nil _, fun document => ?_,
    fun document o ho => ?_⟩
  · rw [lookup_noted, score_ofPostings]
  · rw [lookup_noted] at ho
    rw [positions_ofPostings ho]
    exact ⟨positionsIn_ascend h hone document, fun x => Iff.rfl⟩

/-- For several, it is once positions are sorted. -/
theorem sights_sorted :
    setting.Sights leaf (((setting.postings leaf).foldl Evaluation.note []).map
      fun (document, o) => (document, Evaluation.sortPositions o)) := by
  have hlookup : ∀ document, (((setting.postings leaf).foldl Evaluation.note []).map
      fun (document, o) => (document, Evaluation.sortPositions o)).lookup document
      = (((setting.postings leaf).foldl Evaluation.note []).lookup document).map
        Evaluation.sortPositions :=
    KeysAscend.lookup_map (fun _ _ => rfl) _
  refine ⟨(Evaluation.keysAscend_foldl_note List.Pairwise.nil _).map
    (g := Evaluation.sortPositions) fun _ _ => rfl, fun document => ?_, fun document o ho => ?_⟩
  · rw [hlookup, lookup_noted, ← score_ofPostings, Option.map_map]
    rfl
  · rw [hlookup, lookup_noted] at ho
    rcases Option.map_eq_some_iff.mp ho with ⟨unsorted, hunsorted, rfl⟩
    -- Sorting puts the positions in order and keeps them all.
    have hsorted : (unsorted.positions.mergeSort fun a b => decide (a ≤ b)).Pairwise
        fun a b => decide (a ≤ b) = true := by
      refine List.pairwise_mergeSort (fun a b c hab hbc => ?_) (fun a b => ?_) _
      · exact decide_eq_true (UInt32.le_trans (of_decide_eq_true hab) (of_decide_eq_true hbc))
      · rcases UInt32.le_total a b with hab | hba
        · rw [decide_eq_true hab]
          rfl
        · rw [decide_eq_true hba, Bool.or_true]
    refine ⟨hsorted.imp of_decide_eq_true, fun x => ?_⟩
    rw [← positions_ofPostings hunsorted]
    exact List.mem_mergeSort

end Setting

namespace Evaluation

variable {evaluation : Evaluation} {words : List WordPostings} {leaf : WordLeaf}

/-- Collecting the entries of a leaf has the result that it should have, if it has one. -/
theorem sights_of_occurrences (h : evaluation.index.Reads words)
    {found : ByDocument Sighting} {ignored ignored' : WordSet}
    (hfound : evaluation.occurrences leaf ignored = .ok (found, ignored')) :
    (evaluation.setting words).Sights leaf found := by
  rw [occurrences_eq_map] at hfound
  rcases exists_of_map hfound with ⟨⟨noted, passed⟩, hcollect, heq⟩
  rcases collectFrom_reads h hcollect with ⟨rfl, htidy⟩
  rcases Prod.mk.inj heq with ⟨rfl, -⟩
  split
  · exact Setting.sights_sorted
  · rename_i hone
    exact Setting.sights_noted (fun entry hentry => htidy entry (List.mem_filter.mp hentry).1)
      (Nat.not_lt.mp hone)

/-- It has one if all words decode. -/
theorem occurrences_ok (h : evaluation.index.decodeWords = .ok words)
    (hleaf : leaf.stop ≤ words.length) (ignored : WordSet) :
    ∃ found ignored', evaluation.occurrences leaf ignored = .ok (found, ignored') := by
  have hcollect : ∃ result, evaluation.collectFrom leaf.metaId (leaf.stop - leaf.start) leaf.start
      [] ignored = .ok result := by
    by_cases hle : leaf.start ≤ leaf.stop
    · exact collectFrom_ok h leaf.metaId (by omega) [] ignored
    · rw [Nat.sub_eq_zero_of_le (Nat.le_of_not_le hle)]
      exact ⟨_, rfl⟩
  rcases hcollect with ⟨⟨found, passed⟩, hcollect⟩
  rw [occurrences, hcollect]
  simp only []
  split
  · exact ⟨_, _, rfl⟩
  · exact ⟨_, _, rfl⟩

end Evaluation

end Concordance
