import Concordance.Indexing.WordMap
import Concordance.Proofs.Posting

/-!
# Word Maps As Maps

A word map is known by the postings of every word, and recording changes those of
one word only.

`postingsOf` asks for the postings of a word and answers with none for a word that
is not there. A map with ascending words never has a word without postings, so two
such maps with the same answers are equal (`ext`). This is how maps are compared
from here on, whether they were filled by recording, read from a run, or merged.

Recording an occurrence attaches a posting with that one occurrence. So what a word
has after any number of them is what `fuse` makes of the single ones.

## Main definitions

* `WordMap.postingsOf`: The postings of a word.
* `WordMap.Proper`: Words ascend and have postings.
* `Posting.single`: The posting of one occurrence.

## Theorems

* `WordMap.ext`: Maps with the same postings are equal.
* `WordMap.noteIn_eq_attach`: An occurrence is attached.
* `WordMap.postingsOf_record`: What recording changes.
-/

namespace Concordance

/-- The posting of one occurrence. -/
def Posting.single (document position : UInt32) (metaId : Option UInt32) : Posting where
  document
  occurrences := 1
  metaIds := metaId.toList
  positions := [position]

namespace WordMap

/-- The postings of a word, none if the map does not have it. -/
def postingsOf (words : WordMap) (key : Bytes) : List Posting :=
  (words.lookup key).getD []

/-- Words ascend and have postings. -/
structure Proper (words : WordMap) : Prop where
  ascend : KeysAscend words
  nonempty : ∀ e ∈ words, e.2 ≠ []

theorem postingsOf_nil (key : Bytes) : postingsOf [] key = [] :=
  rfl

theorem postingsOf_cons (k : Bytes) (postings : List Posting) (words : WordMap) (key : Bytes) :
    postingsOf ((k, postings) :: words) key
      = if key = k then postings else postingsOf words key := by
  by_cases h : key = k
  · rw [if_pos h, h, postingsOf, List.lookup_cons_self, Option.getD_some]
  · rw [if_neg h, postingsOf, List.lookup_cons, beq_false_of_ne h]
    rfl

/-- A word that has postings is there. -/
theorem mem_of_postingsOf {words : WordMap} {key : Bytes} (h : postingsOf words key ≠ []) :
    (key, postingsOf words key) ∈ words := by
  rcases hl : words.lookup key with _ | postings
  · rw [postingsOf, hl] at h
    exact absurd rfl h
  · rw [postingsOf, hl, Option.getD_some]
    exact KeysAscend.mem_of_lookup hl

/-- A word that is not there has no postings. -/
theorem postingsOf_eq_nil {words : WordMap} {key : Bytes} (h : ∀ e ∈ words, e.1 ≠ key) :
    postingsOf words key = [] := by
  by_cases hnil : postingsOf words key = []
  · exact hnil
  · exact absurd rfl (h _ (mem_of_postingsOf hnil))

theorem postingsOf_of_mem {words : WordMap} (h : KeysAscend words) {key : Bytes}
    {postings : List Posting} (hmem : (key, postings) ∈ words) :
    postingsOf words key = postings := by
  rw [postingsOf, h.lookup_eq_some_iff.mpr hmem]
  rfl

/-- A map whose postings were all changed. -/
theorem postingsOf_map {f : List Posting → List Posting} (hf : f [] = []) (words : WordMap)
    (key : Bytes) :
    postingsOf (words.map fun (k, postings) => (k, f postings)) key = f (postingsOf words key) := by
  induction words with
  | nil => exact hf.symm
  | cons e words ih =>
    rw [List.map_cons, postingsOf_cons, ih, postingsOf_cons]
    split <;> rfl

/-- It is still a map if no word has lost its postings. -/
theorem Proper.map {words : WordMap} (h : words.Proper) {f : List Posting → List Posting}
    (hf : ∀ postings, postings ≠ [] → f postings ≠ []) :
    Proper (words.map fun (k, postings) => (k, f postings)) := by
  refine ⟨List.pairwise_map.mpr h.ascend, fun e he => ?_⟩
  rcases List.mem_map.mp he with ⟨e', he', rfl⟩
  exact hf _ (h.nonempty e' he')

/-- A map from which words were dropped that have postings of some kind. -/
theorem postingsOf_filter {words : WordMap} (h : KeysAscend words) (p : List Posting → Bool)
    (key : Bytes) :
    postingsOf (words.filter fun e => p e.2) key
      = if p (postingsOf words key) then postingsOf words key else [] := by
  induction words with
  | nil =>
    rw [List.filter_nil, postingsOf_nil]
    split <;> rfl
  | cons e words ih =>
    rcases e with ⟨k, postings⟩
    have ⟨hhead, htail⟩ := List.pairwise_cons.mp h
    rw [List.filter_cons, postingsOf_cons]
    by_cases hkey : key = k
    · -- The key is at the front, and there is no other element for it.
      have hrest : postingsOf (words.filter fun e => p e.2) key = [] := by
        refine postingsOf_eq_nil fun e he heq => ?_
        have hlt : k < e.1 := hhead e (List.mem_filter.mp he).1
        rw [heq, hkey] at hlt
        exact List.lt_irrefl k hlt
      rw [if_pos hkey]
      split
      · rw [postingsOf_cons, if_pos hkey]
      · exact hrest
    · rw [if_neg hkey]
      split
      · rw [postingsOf_cons, if_neg hkey, ih htail]
      · exact ih htail

/-- Maps with the same postings are equal. -/
theorem ext {words words' : WordMap} (h : words.Proper) (h' : words'.Proper)
    (heq : ∀ key, postingsOf words key = postingsOf words' key) : words = words' := by
  have hlookup : ∀ {m : WordMap}, m.Proper → ∀ key,
      m.lookup key = if postingsOf m key = [] then none else some (postingsOf m key) := by
    intro m hm key
    rcases hl : m.lookup key with _ | postings
    · rw [postingsOf, hl, Option.getD_none, if_pos rfl]
    · have hne := hm.nonempty _ (KeysAscend.mem_of_lookup hl)
      rw [postingsOf, hl, Option.getD_some, if_neg hne]
  refine h.ascend.ext_lookup h'.ascend fun key => ?_
  rw [hlookup h, hlookup h', heq]

/-- An occurrence is put behind others as a posting of its own would be. -/
theorem note_eq_extend (document position : UInt32) (metaId : Option UInt32)
    (posting : Posting) :
    note position metaId posting = posting.extend (Posting.single document position metaId) := by
  cases metaId <;> rfl

/-- One occurrence is attached like a posting. -/
theorem noteIn_eq_attach (document position : UInt32) (metaId : Option UInt32)
    (postings : List Posting) :
    noteIn document position metaId postings
      = attach postings (Posting.single document position metaId) := by
  fun_induction noteIn document position metaId postings with
  | case1 => cases metaId <;> rfl
  | case2 posting h =>
    rw [attach, note_eq_extend document]
    exact (if_pos h).symm
  | case3 posting h =>
    rw [attach, note_eq_extend document]
    cases metaId <;> exact (if_neg h).symm
  | case4 posting next rest ih => rw [attach, ih]

section Record

variable (key : Bytes) (document position : UInt32) (metaId : Option UInt32)

/-- Recording adds its word at the most. -/
theorem mem_record {words : WordMap} {e : Bytes × List Posting}
    (h : e ∈ words.record key document position metaId) : e.1 = key ∨ ∃ e' ∈ words, e'.1 = e.1 := by
  fun_induction record key document position metaId words with
  | case1 =>
    rw [List.mem_singleton] at h
    exact Or.inl (by rw [h])
  | case2 postings rest =>
    rcases List.mem_cons.mp h with rfl | h
    · exact Or.inl rfl
    · exact Or.inr ⟨e, List.mem_cons_of_mem _ h, rfl⟩
  | case3 other postings rest =>
    rcases List.mem_cons.mp h with rfl | h
    · exact Or.inl rfl
    · exact Or.inr ⟨e, h, rfl⟩
  | case4 other postings rest _ _ ih =>
    rcases List.mem_cons.mp h with rfl | h
    · exact Or.inr ⟨_, List.mem_cons_self, rfl⟩
    · -- It was recorded further behind.
      rcases ih h with heq | ⟨e', hmem, heq⟩
      · exact Or.inl heq
      · exact Or.inr ⟨e', List.mem_cons_of_mem _ hmem, heq⟩

theorem record_ascend {words : WordMap} (h : KeysAscend words) :
    KeysAscend (words.record key document position metaId) := by
  fun_induction record key document position metaId words with
  | case1 => exact List.pairwise_singleton _ _
  | case2 postings rest =>
    have ⟨hhead, htail⟩ := List.pairwise_cons.mp h
    exact List.pairwise_cons.mpr ⟨hhead, htail⟩
  | case3 other postings rest _ hlt =>
    -- The word is new, and comes before all that there are.
    have ⟨hhead, _⟩ := List.pairwise_cons.mp h
    refine List.pairwise_cons.mpr ⟨fun e he => ?_, h⟩
    rcases List.mem_cons.mp he with rfl | he
    · exact hlt
    · exact List.lt_trans hlt (hhead e he)
  | case4 other postings rest hne hnlt ih =>
    have ⟨hhead, htail⟩ := List.pairwise_cons.mp h
    refine List.pairwise_cons.mpr ⟨fun e he => ?_, ih htail⟩
    -- Behind the first word there are the ones there were, and the recorded one.
    rcases mem_record key document position metaId he with heq | ⟨e', hmem, heq⟩
    · show other < e.1
      rw [heq]
      exact lt_of_not_lt hne hnlt
    · show other < e.1
      rw [← heq]
      exact hhead e' hmem

/-- Every word in the map keeps having postings. -/
theorem Proper.record {words : WordMap} (h : words.Proper) :
    (words.record key document position metaId).Proper := by
  refine ⟨record_ascend key document position metaId h.ascend, ?_⟩
  have hne := h.nonempty
  clear h
  fun_induction WordMap.record key document position metaId words with
  | case1 =>
    intro e he
    rw [List.mem_singleton.mp he, noteIn_eq_attach]
    exact attach_ne_nil _ _
  | case2 postings rest =>
    intro e he
    rcases List.mem_cons.mp he with rfl | he
    · rw [noteIn_eq_attach]
      exact attach_ne_nil _ _
    · exact hne e (List.mem_cons_of_mem _ he)
  | case3 other postings rest =>
    intro e he
    rcases List.mem_cons.mp he with rfl | he
    · rw [noteIn_eq_attach]
      exact attach_ne_nil _ _
    · exact hne e he
  -- The word goes somewhere behind the first one, which keeps its postings.
  | case4 other postings rest _ _ ih =>
    intro e he
    rcases List.mem_cons.mp he with rfl | he
    · exact hne _ List.mem_cons_self
    · exact ih (fun e he => hne e (List.mem_cons_of_mem _ he)) e he

/-- Recording changes the postings of its word only. -/
theorem postingsOf_record {words : WordMap} (h : KeysAscend words) (k : Bytes) :
    postingsOf (words.record key document position metaId) k
      = if k = key
        then attach (postingsOf words key) (Posting.single document position metaId)
        else postingsOf words k := by
  fun_induction record key document position metaId words with
  | case1 => rw [postingsOf_cons, noteIn_eq_attach, postingsOf_nil, postingsOf_nil]
  | case2 postings rest =>
    rw [postingsOf_cons, postingsOf_cons, postingsOf_cons, noteIn_eq_attach]
    split
    · rw [if_pos rfl]
    · rfl
  | case3 other postings rest hne hlt =>
    have ⟨hhead, _⟩ := List.pairwise_cons.mp h
    -- The key goes in front of all others, so it was not there.
    have hnil : postingsOf ((other, postings) :: rest) key = [] := by
      refine postingsOf_eq_nil fun e he heq => ?_
      rcases List.mem_cons.mp he with rfl | he
      · exact hne heq.symm
      · have hlt' := List.lt_trans hlt (hhead e he)
        rw [heq] at hlt'
        exact List.lt_irrefl key hlt'
    rw [postingsOf_cons, noteIn_eq_attach, hnil]
  | case4 other postings rest hne hnlt ih =>
    have ⟨_, htail⟩ := List.pairwise_cons.mp h
    rw [postingsOf_cons, ih htail, postingsOf_cons, postingsOf_cons, if_neg hne]
    by_cases hk : k = other
    · subst hk
      rw [if_pos rfl, if_pos rfl, if_neg (fun heq => hne heq.symm)]
    · rw [if_neg hk, if_neg hk]

end Record

end WordMap

end Concordance
