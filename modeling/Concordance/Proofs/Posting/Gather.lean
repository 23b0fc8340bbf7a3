import Concordance.Proofs.WordMap
import Concordance.Total
import Mathlib.Data.List.Forall2

/-!
# What Fusing Comes To

The postings that fusing leaves, described by what went in.

Fusing puts the parts of each document together, one after the other. What comes out
for one document can be said without an order of steps: its count is the sum of the
counts, its ids are those of any part, and its positions are those of all parts one
behind the other. Different documents do not touch, so a list of documents is fused
document by document.

Where the documents are mixed, the parts are still divided among the postings, in order.
Every posting is what one stretch of the parts is folded into, and no part is left out.

## Main definitions

* `Gathers`: A posting with everything that some parts say.
* `FoldsInto`, `Folds`: Stretches of parts, each folded into a posting.

## Theorems

* `exists_gathers`: The parts of one document are gathered.
* `fuse_flatMap_of_lt`: Documents are fused one by one.
* `folds_fuse`: Parts whose documents do not go back are folded.
-/

namespace Concordance

/-- A posting that says about one document what all of its parts do. -/
structure Gathers (parts : List Posting) (posting : Posting) : Prop where
  document : ∀ part ∈ parts, part.document = posting.document
  occurrences : posting.occurrences.toNat
    = min (total (fun part => part.occurrences.toNat) parts) (UInt32.size - 1)
  names : posting.NamesAscend
  mem_metaIds : ∀ id, id ∈ posting.metaIds ↔ ∃ part ∈ parts, id ∈ part.metaIds
  positions : posting.positions = parts.flatMap Posting.positions

namespace Gathers

/-- A single part is all that there is. -/
theorem singleton {part : Posting} (h : part.NamesAscend) : Gathers [part] part := by
  refine ⟨?_, ?_, h, fun id => ?_, ?_⟩
  · intro other hother
    rw [List.mem_singleton.mp hother]
  · have hlt := part.occurrences.toNat_lt
    have hs : UInt32.size = 4294967296 := rfl
    rw [total_cons, total_nil]
    omega
  · simp only [List.mem_singleton, exists_eq_left]
  · rw [List.flatMap_cons, List.flatMap_nil, List.append_nil]

/-- One more part of the document. -/
theorem concat {parts : List Posting} {posting part : Posting} (h : Gathers parts posting)
    (hpart : part.document = posting.document) :
    Gathers (parts ++ [part]) (posting.extend part) := by
  refine ⟨?_, ?_, h.names.extend part, fun id => ?_, ?_⟩
  · intro other hother
    rcases List.mem_append.mp hother with hmem | hmem
    · exact h.document other hmem
    · rw [List.mem_singleton.mp hmem]
      exact hpart
  · -- Counts stop at the largest one, whether they stop once or twice.
    show (addCounts posting.occurrences part.occurrences).toNat = _
    have hlt := part.occurrences.toNat_lt
    have hs : UInt32.size = 4294967296 := rfl
    rw [toNat_addCounts, h.occurrences, total_append, total_cons, total_nil]
    omega
  · -- An id comes from one of the parts so far or from the new one.
    show id ∈ IdSet.union posting.metaIds part.metaIds ↔ _
    rw [IdSet.mem_union, h.mem_metaIds]
    constructor
    · rintro (⟨other, hmem, hid⟩ | hid)
      · exact ⟨other, List.mem_append_left _ hmem, hid⟩
      · exact ⟨part, List.mem_append_right _ List.mem_cons_self, hid⟩
    · rintro ⟨other, hmem, hid⟩
      rcases List.mem_append.mp hmem with hmem | hmem
      · exact Or.inl ⟨other, hmem, hid⟩
      · rw [List.mem_singleton.mp hmem] at hid
        exact Or.inr hid
  · rw [List.flatMap_append, List.flatMap_cons, List.flatMap_nil, List.append_nil, ← h.positions]
    rfl

end Gathers

/-- More parts of a document are gathered on top of those that were. -/
theorem Gathers.foldl_attach {parts rest : List Posting} {posting : Posting}
    (h : Gathers parts posting) (hdoc : ∀ part ∈ rest, part.document = posting.document) :
    ∃ all, rest.foldl attach [posting] = [all] ∧ Gathers (parts ++ rest) all := by
  induction rest generalizing parts posting with
  | nil => exact ⟨posting, rfl, by rw [List.append_nil]; exact h⟩
  | cons part rest ih =>
    have hsame := hdoc part List.mem_cons_self
    obtain ⟨all, hfold, hall⟩ := ih (h.concat hsame)
      fun other hother => hdoc other (List.mem_cons_of_mem _ hother)
    refine ⟨all, ?_, ?_⟩
    · rw [List.foldl_cons, attach, if_pos hsame.symm, hfold]
    · rw [List.append_assoc, List.singleton_append] at hall
      exact hall

/-- The parts of one document are gathered into one posting. -/
theorem exists_gathers {document : UInt32} {parts : List Posting} (hne : parts ≠ [])
    (hdoc : ∀ part ∈ parts, part.document = document)
    (hnames : ∀ part ∈ parts, part.NamesAscend) :
    ∃ posting, fuse parts = [posting] ∧ Gathers parts posting := by
  rcases List.exists_cons_of_ne_nil hne with ⟨first, rest, rfl⟩
  refine (Gathers.singleton (hnames first List.mem_cons_self)).foldl_attach fun part hpart => ?_
  rw [hdoc first List.mem_cons_self, hdoc part (List.mem_cons_of_mem _ hpart)]

/-- Documents are fused one by one. -/
theorem fuse_flatMap_of_lt {α : Type} {documents : List α} {f : α → List Posting}
    (h : documents.Pairwise fun a b => ∀ p ∈ f a, ∀ q ∈ f b, p.document < q.document) :
    fuse (documents.flatMap f) = documents.flatMap fun a => fuse (f a) := by
  induction documents with
  | nil => rfl
  | cons a documents ih =>
    rcases List.pairwise_cons.mp h with ⟨hhead, htail⟩
    rw [List.flatMap_cons, List.flatMap_cons, fuse_append_of_lt, ih htail]
    intro p hp q hq
    rcases List.mem_flatMap.mp hq with ⟨b, hb, hq⟩
    exact hhead b hb p hp q hq

/-- The posting that a stretch of parts is folded into. It is begun by the first of them, and
    has its rank. -/
structure FoldsInto (share : List Posting) (posting : Posting) : Prop extends
    Gathers share posting where
  rank : share.head?.map Posting.rank = some posting.rank

theorem FoldsInto.singleton {part : Posting} (h : part.NamesAscend) : FoldsInto [part] part :=
  ⟨Gathers.singleton h, rfl⟩

theorem FoldsInto.concat {share : List Posting} {posting part : Posting}
    (h : FoldsInto share posting) (hpart : part.document = posting.document) :
    FoldsInto (share ++ [part]) (posting.extend part) := by
  refine ⟨h.toGathers.concat hpart, ?_⟩
  rcases share with _ | ⟨first, share⟩
  · exact absurd h.rank (by simp)
  · exact h.rank

/-- Parts folded into postings of ascending documents: each posting is what one stretch of the
    parts is folded into, and the stretches are all of the parts. -/
structure Folds (parts postings : List Posting) : Prop where
  shares : ∃ shares : List (List Posting),
    shares.flatten = parts ∧ List.Forall₂ FoldsInto shares postings
  ascending : postings.Pairwise fun p q => p.document < q.document

/-- One more part goes to the last stretch, or begins one. -/
theorem FoldsInto.attach {shares : List (List Posting)} {postings : List Posting} {part : Posting}
    (h : List.Forall₂ FoldsInto shares postings) (hpart : part.NamesAscend) :
    ∃ shares' : List (List Posting), shares'.flatten = shares.flatten ++ [part]
      ∧ List.Forall₂ FoldsInto shares' (attach postings part) := by
  induction h with
  | nil => exact ⟨[[part]], rfl, .cons (.singleton hpart) .nil⟩
  | @cons share posting shares postings hfirst hrest ih =>
    -- The stretch grows only if it is the last one.
    by_cases hlast : postings = []
    · subst hlast
      cases hrest
      by_cases hsame : posting.document = part.document
      · refine ⟨[share ++ [part]], by simp, ?_⟩
        rw [Concordance.attach, if_pos hsame]
        exact .cons (hfirst.concat hsame.symm) .nil
      · refine ⟨[share, [part]], by simp, ?_⟩
        rw [Concordance.attach, if_neg hsame]
        exact .cons hfirst (.cons (.singleton hpart) .nil)
    · rcases ih with ⟨shares', hflatten, hshares'⟩
      refine ⟨share :: shares', ?_, ?_⟩
      · rw [List.flatten_cons, hflatten, List.flatten_cons, List.append_assoc]
      · rw [attach_cons hlast]
        exact .cons hfirst hshares'

/-- And so does one part after the other. -/
theorem FoldsInto.foldl_attach {shares : List (List Posting)} {postings parts : List Posting}
    (h : List.Forall₂ FoldsInto shares postings) (hparts : ∀ part ∈ parts, part.NamesAscend) :
    ∃ shares' : List (List Posting), shares'.flatten = shares.flatten ++ parts
      ∧ List.Forall₂ FoldsInto shares' (parts.foldl Concordance.attach postings) := by
  induction parts generalizing shares postings with
  | nil => exact ⟨shares, (List.append_nil _).symm, h⟩
  | cons part parts ih =>
    rcases FoldsInto.attach h (hparts part List.mem_cons_self) with ⟨shares', hflatten, hshares'⟩
    rcases ih hshares' fun part hpart => hparts part (List.mem_cons_of_mem _ hpart) with
      ⟨shares'', hflatten', hshares''⟩
    refine ⟨shares'', ?_, hshares''⟩
    rw [hflatten', hflatten, List.append_assoc, List.singleton_append]

/-- Parts whose documents do not go back are folded by fusing them. -/
theorem folds_fuse {parts : List Posting} (hnames : ∀ part ∈ parts, part.NamesAscend)
    (h : parts.Pairwise fun p q => p.document ≤ q.document) : Folds parts (fuse parts) :=
  ⟨FoldsInto.foldl_attach .nil hnames, fuse_ascending h⟩

end Concordance
