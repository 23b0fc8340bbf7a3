import Concordance.Posting
import Concordance.Proofs.Ascending

/-!
# Postings Put Together

A document's share in a word arrives in parts, and `fuse` is what the parts amount
to: postings in the order in which they came, neighbours of one document made one.

Nothing depends on how the parts were grouped. Fusing some of them first and the
results afterwards yields the same postings (`foldl_attach_fuse`), and this is the
whole reason why an index does not show where its runs were cut. It rests on
`extend_assoc`. Counts that stop at the largest count still add up in any
grouping, positions are put one behind the other, and ids form a set. The set is
a list, so its being ascending is a condition on everything here.

Fusing is only asked for where documents do not go back, and then it leaves one
posting for each document, by ascending document.

## Main definitions

* `Posting.NamesAscend`: The ids of a posting are a set.
* `Posting.Tidy`: The positions of a posting do not descend either.
* `Posting.Precedes`: One part of a document's share comes before another.
* `attach`: A posting put behind others.
* `fuse`: Postings with neighbours of one document made one.
* `Posting.unranked`: A posting without its rank.

## Theorems

* `IdSet.union_assoc`, `addCounts_assoc`, `Posting.extend_assoc`: Grouping does
  not matter.
* `foldl_attach_fuse`: Fused postings attach like the postings they are made of.
* `fuse_append_of_lt`: Postings of different documents do not touch.
* `fuse_ascending`: Fused postings have ascending documents.
* `fuse_tidy`: Fused postings are tidy if their parts come in order.
-/

namespace Concordance

/-- A list is empty or has a last element. -/
theorem nil_or_concat {α : Type} (as : List α) :
    as = [] ∨ ∃ before last, as = before ++ [last] := by
  rcases List.eq_nil_or_concat as with h | ⟨before, last, h⟩
  · exact Or.inl h
  · exact Or.inr ⟨before, last, by rw [h, List.concat_eq_append]⟩

namespace IdSet

theorem mem_insert {id x : UInt32} {set : List UInt32} :
    x ∈ insert id set ↔ x = id ∨ x ∈ set := by
  induction set with
  | nil => simp [insert]
  | cons y ys ih =>
    rw [insert]
    split
    · exact List.mem_cons
    · split
      · rename_i heq
        rw [List.mem_cons, heq]
        exact ⟨Or.inr, fun h => h.elim Or.inl fun h => h⟩
      · rw [List.mem_cons, ih, List.mem_cons]
        exact or_left_comm

theorem insert_ascending {id : UInt32} {set : List UInt32} (h : set.Pairwise (· < ·)) :
    (insert id set).Pairwise (· < ·) := by
  induction set with
  | nil => exact List.pairwise_singleton _ _
  | cons y ys ih =>
    have ⟨hhead, htail⟩ := List.pairwise_cons.mp h
    rw [insert]
    split
    · rename_i hlt
      refine List.pairwise_cons.mpr ⟨fun x hx => ?_, h⟩
      -- It goes in front of `y`, and all others are behind that.
      rcases List.mem_cons.mp hx with rfl | hx
      · exact hlt
      · exact UInt32.lt_trans hlt (hhead x hx)
    · split
      · exact h
      · -- It goes somewhere behind `y`, which is smaller than all there.
        rename_i hnlt hne
        refine List.pairwise_cons.mpr ⟨fun x hx => ?_, ih htail⟩
        rcases mem_insert.mp hx with rfl | hx
        · rw [UInt32.lt_iff_toNat_lt] at hnlt ⊢
          rw [← UInt32.toNat_inj] at hne
          omega
        · exact hhead x hx

/-- An id beyond all others is put at the end. -/
theorem insert_of_forall_lt {id : UInt32} {set : List UInt32} (h : ∀ x ∈ set, x < id) :
    insert id set = set ++ [id] := by
  induction set with
  | nil => rfl
  | cons y ys ih =>
    have hy := h y List.mem_cons_self
    rw [UInt32.lt_iff_toNat_lt] at hy
    rw [insert, if_neg (by rw [UInt32.lt_iff_toNat_lt]; omega),
      if_neg (by rw [← UInt32.toNat_inj]; omega),
      ih fun x hx => h x (List.mem_cons_of_mem _ hx), List.cons_append]

theorem mem_union {x : UInt32} {set ids : List UInt32} :
    x ∈ union set ids ↔ x ∈ set ∨ x ∈ ids := by
  induction ids generalizing set with
  | nil => simp [union]
  | cons id ids ih =>
    rw [union, List.foldl_cons]
    refine Iff.trans ih ?_
    rw [mem_insert, List.mem_cons]
    exact ⟨fun h => h.elim (fun h => h.elim (Or.inr ∘ Or.inl) Or.inl) (Or.inr ∘ Or.inr),
      fun h => h.elim (Or.inl ∘ Or.inr) fun h => h.elim (Or.inl ∘ Or.inl) Or.inr⟩

theorem union_ascending {set ids : List UInt32} (h : set.Pairwise (· < ·)) :
    (union set ids).Pairwise (· < ·) := by
  induction ids generalizing set with
  | nil => exact h
  | cons id ids ih => exact ih (insert_ascending h)

/-- Sets of ids may be united in any grouping. -/
theorem union_assoc {set : List UInt32} (h : set.Pairwise (· < ·)) (ids more : List UInt32) :
    union (union set ids) more = union set (union ids more) := by
  refine eq_of_mem_iff (union_ascending (union_ascending h)) (union_ascending h) (fun x => ?_)
  rw [mem_union, mem_union, mem_union, mem_union, or_assoc]

end IdSet

/-- A sum of counts stops at the largest count. -/
theorem toNat_addCounts (a b : UInt32) :
    (addCounts a b).toNat = min (a.toNat + b.toNat) (UInt32.size - 1) := by
  have hs : UInt32.size = 4294967296 := rfl
  rw [addCounts]
  split
  · rename_i h
    rw [UInt32.toNat_add]
    omega
  · rename_i h
    simp only [UInt32.reduceToNat]
    omega

theorem addCounts_assoc (a b c : UInt32) :
    addCounts (addCounts a b) c = addCounts a (addCounts b c) := by
  rw [← UInt32.toNat_inj]
  simp only [toNat_addCounts]
  omega

namespace Posting

/-- The ids of a posting are a set. -/
def NamesAscend (posting : Posting) : Prop :=
  posting.metaIds.Pairwise (· < ·)

/-- The positions of a posting do not descend, and its ids are a set. -/
structure Tidy (posting : Posting) : Prop where
  names : posting.NamesAscend
  positions : posting.positions.Pairwise (· ≤ ·)

/-- A posting comes before another: its document does, or in the same document all
    of its positions do. -/
def Precedes (p q : Posting) : Prop :=
  p.document < q.document
    ∨ (p.document = q.document ∧ ∀ x ∈ p.positions, ∀ y ∈ q.positions, x ≤ y)

theorem Precedes.document_le {p q : Posting} (h : p.Precedes q) : p.document ≤ q.document := by
  rcases h with hlt | ⟨heq, -⟩
  · exact UInt32.le_of_lt hlt
  · rw [heq]
    exact UInt32.le_refl _

/-- In one document it is the positions that come before. -/
theorem Precedes.positions_le {p q : Posting} (h : p.Precedes q)
    (heq : p.document = q.document) : ∀ x ∈ p.positions, ∀ y ∈ q.positions, x ≤ y := by
  rcases h with hlt | ⟨-, hle⟩
  · rw [heq] at hlt
    exact absurd hlt (UInt32.lt_irrefl _)
  · exact hle

/-- A posting without its rank. A rank is the last thing that a posting gets, and
    until then there is nothing to compare. -/
def unranked (posting : Posting) : Posting :=
  { posting with rank := 0 }

@[simp]
theorem extend_document (posting later : Posting) :
    (posting.extend later).document = posting.document :=
  rfl

theorem NamesAscend.extend {posting : Posting} (h : posting.NamesAscend) (later : Posting) :
    (posting.extend later).NamesAscend :=
  IdSet.union_ascending h

/-- Tidy parts in order are tidy when put together. -/
theorem Tidy.extend {posting later : Posting} (h : posting.Tidy) (hl : later.Tidy)
    (hprec : posting.Precedes later) (hdoc : posting.document = later.document) :
    (posting.extend later).Tidy :=
  ⟨h.names.extend later,
    List.pairwise_append.mpr ⟨h.positions, hl.positions, hprec.positions_le hdoc⟩⟩

/-- What comes behind both parts comes behind them when put together. -/
theorem Precedes.extend {posting later q : Posting} (h : posting.Precedes q)
    (hl : later.Precedes q) (hdoc : posting.document = later.document) :
    (posting.extend later).Precedes q := by
  rcases h with hlt | ⟨heq, hle⟩
  · exact Or.inl hlt
  · refine Or.inr ⟨heq, fun x hx => ?_⟩
    rcases List.mem_append.mp hx with hx | hx
    · exact hle x hx
    · exact hl.positions_le (hdoc.symm.trans heq) x hx

/-- The parts of a document's share may be put together in any grouping. -/
theorem extend_assoc {p : Posting} (h : p.NamesAscend) (q r : Posting) :
    (p.extend q).extend r = p.extend (q.extend r) := by
  simp only [Posting.extend, addCounts_assoc, IdSet.union_assoc h, List.append_assoc]

end Posting

/-- Puts a posting behind others. If the last of them is of the same document, the
    two become one. -/
def attach : List Posting → Posting → List Posting
  | [], posting => [posting]
  | [last], posting =>
    if last.document = posting.document then [last.extend posting] else [last, posting]
  | first :: next :: rest, posting => first :: attach (next :: rest) posting

/-- Postings in the order in which they came, neighbours of one document made
    one. -/
def fuse (postings : List Posting) : List Posting :=
  postings.foldl attach []

theorem attach_cons {first : Posting} {rest : List Posting} (h : rest ≠ []) (posting : Posting) :
    attach (first :: rest) posting = first :: attach rest posting := by
  cases rest with
  | nil => exact absurd rfl h
  | cons next rest => rfl

/-- Only the last posting matters to the one that is put behind. -/
theorem attach_concat (before : List Posting) (last posting : Posting) :
    attach (before ++ [last]) posting
      = if last.document = posting.document then before ++ [last.extend posting]
        else before ++ [last, posting] := by
  induction before with
  | nil => rfl
  | cons first rest ih =>
    rw [List.cons_append, attach_cons (by simp), ih]
    split <;> rfl

/-- A posting of another document is put behind as it is. -/
theorem attach_of_forall_ne {postings : List Posting} {posting : Posting}
    (h : ∀ p ∈ postings, p.document ≠ posting.document) :
    attach postings posting = postings ++ [posting] := by
  rcases nil_or_concat postings with rfl | ⟨before, last, rfl⟩
  · rfl
  · rw [attach_concat,
      if_neg (h last (List.mem_append_right _ (List.mem_singleton.mpr rfl))), List.append_assoc]
    rfl

theorem attach_ne_nil (postings : List Posting) (posting : Posting) :
    attach postings posting ≠ [] := by
  rcases nil_or_concat postings with rfl | ⟨before, last, rfl⟩
  · exact List.cons_ne_nil _ _
  · rw [attach_concat]
    split <;> simp

/-- What holds of the postings, of the new one, and of two put together, holds
    afterwards. -/
theorem forall_attach {P : Posting → Prop} {postings : List Posting} {posting : Posting}
    (hall : ∀ p ∈ postings, P p) (hnew : P posting)
    (hext : ∀ p ∈ postings, p.document = posting.document → P (p.extend posting)) :
    ∀ p ∈ attach postings posting, P p := by
  intro p hp
  -- Only the last posting can change. The others are there as they were.
  rcases nil_or_concat postings with rfl | ⟨before, last, rfl⟩
  · rw [attach, List.mem_singleton] at hp
    rw [hp]
    exact hnew
  · have hlast : last ∈ before ++ [last] := List.mem_append_right _ (List.mem_singleton.mpr rfl)
    rw [attach_concat] at hp
    split at hp
    · rename_i heq
      rcases List.mem_append.mp hp with hp | hp
      · exact hall p (List.mem_append_left _ hp)
      · rw [List.mem_singleton] at hp
        rw [hp]
        exact hext last hlast heq
    · rcases List.mem_append.mp hp with hp | hp
      · exact hall p (List.mem_append_left _ hp)
      · rcases List.mem_cons.mp hp with rfl | hp
        · exact hall p hlast
        · rw [List.mem_singleton] at hp
          rw [hp]
          exact hnew

theorem attach_namesAscend {postings : List Posting} {posting : Posting}
    (h : ∀ p ∈ postings, p.NamesAscend) (hp : posting.NamesAscend) :
    ∀ p ∈ attach postings posting, p.NamesAscend :=
  forall_attach h hp fun p hmem _ => (h p hmem).extend posting

theorem foldl_attach_namesAscend {before postings : List Posting}
    (h : ∀ p ∈ before, p.NamesAscend) (hp : ∀ p ∈ postings, p.NamesAscend) :
    ∀ p ∈ postings.foldl attach before, p.NamesAscend := by
  induction postings generalizing before with
  | nil => exact h
  | cons posting postings ih =>
    exact ih (attach_namesAscend h (hp posting List.mem_cons_self))
      fun p hmem => hp p (List.mem_cons_of_mem _ hmem)

/-- Two parts of one document put behind, one after the other or as one. -/
theorem attach_attach {postings : List Posting} (h : ∀ p ∈ postings, p.NamesAscend)
    {p q : Posting} (hpq : p.document = q.document) :
    attach (attach postings p) q = attach postings (p.extend q) := by
  rcases nil_or_concat postings with rfl | ⟨before, last, rfl⟩
  · simp only [attach, if_pos hpq]
  · by_cases hlast : last.document = p.document
    · rw [attach_concat, if_pos hlast, attach_concat,
        if_pos (show (last.extend p).document = q.document from hlast.trans hpq), attach_concat,
        if_pos (show last.document = (p.extend q).document from hlast),
        Posting.extend_assoc (h last (List.mem_append_right _ (List.mem_singleton.mpr rfl)))]
    · rw [attach_concat, if_neg hlast, List.append_cons, attach_concat, if_pos hpq,
        attach_concat, if_neg (show ¬ last.document = (p.extend q).document from hlast),
        List.append_assoc]
      rfl

/-- Postings that had one attached to them attach like the postings and the one
    behind them. -/
theorem foldl_attach_attach {before : List Posting} (h : ∀ p ∈ before, p.NamesAscend)
    {postings : List Posting} (hp : ∀ p ∈ postings, p.NamesAscend) (q : Posting) :
    (attach postings q).foldl attach before = attach (postings.foldl attach before) q := by
  rcases nil_or_concat postings with rfl | ⟨start, last, rfl⟩
  · rfl
  · have hstart : ∀ p ∈ start.foldl attach before, p.NamesAscend :=
      foldl_attach_namesAscend h fun p hmem => hp p (List.mem_append_left _ hmem)
    rw [attach_concat, List.foldl_append, List.foldl_cons, List.foldl_nil]
    split
    · rename_i heq
      rw [List.foldl_append, List.foldl_cons, List.foldl_nil, attach_attach hstart heq]
    · rw [List.foldl_append, List.foldl_cons, List.foldl_cons, List.foldl_nil]

theorem foldl_attach_foldl_attach {before : List Posting} (h : ∀ p ∈ before, p.NamesAscend)
    {postings : List Posting} (hp : ∀ p ∈ postings, p.NamesAscend)
    {more : List Posting} (hm : ∀ p ∈ more, p.NamesAscend) :
    (more.foldl attach postings).foldl attach before
      = more.foldl attach (postings.foldl attach before) := by
  induction more generalizing postings with
  | nil => rfl
  | cons q more ih =>
    have hq := hm q List.mem_cons_self
    rw [List.foldl_cons, List.foldl_cons, ← foldl_attach_attach h hp q]
    exact ih (attach_namesAscend hp hq) fun p hmem => hm p (List.mem_cons_of_mem _ hmem)

/-- Fused postings attach like the postings they are made of. -/
theorem foldl_attach_fuse {before : List Posting} (h : ∀ p ∈ before, p.NamesAscend)
    {postings : List Posting} (hp : ∀ p ∈ postings, p.NamesAscend) :
    (fuse postings).foldl attach before = postings.foldl attach before :=
  foldl_attach_foldl_attach h (fun _ hmem => absurd hmem List.not_mem_nil) hp

/-- Parts may be fused before the whole is. -/
theorem foldl_attach_flatMap_fuse {α : Type} (parts : List α) (f : α → List Posting)
    (h : ∀ a ∈ parts, ∀ p ∈ f a, p.NamesAscend) {before : List Posting}
    (hbefore : ∀ p ∈ before, p.NamesAscend) :
    (parts.flatMap fun a => fuse (f a)).foldl attach before
      = (parts.flatMap f).foldl attach before := by
  induction parts generalizing before with
  | nil => rfl
  | cons a parts ih =>
    have ha := h a List.mem_cons_self
    rw [List.flatMap_cons, List.flatMap_cons, List.foldl_append, List.foldl_append,
      foldl_attach_fuse hbefore ha]
    exact ih (fun b hb => h b (List.mem_cons_of_mem _ hb)) (foldl_attach_namesAscend hbefore ha)

theorem fuse_concat (postings : List Posting) (posting : Posting) :
    fuse (postings ++ [posting]) = attach (fuse postings) posting := by
  rw [fuse, List.foldl_append, List.foldl_cons, List.foldl_nil, fuse]

theorem fuse_ne_nil {postings : List Posting} (h : postings ≠ []) : fuse postings ≠ [] := by
  rcases nil_or_concat postings with rfl | ⟨before, last, rfl⟩
  · exact absurd rfl h
  · rw [fuse_concat]
    exact attach_ne_nil _ _

/-- Attaching brings in no document that no posting is of. -/
theorem exists_of_mem_foldl_attach {before postings : List Posting} {p : Posting}
    (h : p ∈ postings.foldl attach before) :
    (∃ q ∈ before, q.document = p.document) ∨ ∃ q ∈ postings, q.document = p.document := by
  induction postings generalizing before with
  | nil => exact Or.inl ⟨p, h, rfl⟩
  | cons posting postings ih =>
    rcases ih h with ⟨q, hq, heq⟩ | ⟨q, hq, heq⟩
    · have hdoc : (∃ r ∈ before, r.document = q.document) ∨ posting.document = q.document :=
        forall_attach
          (P := fun q => (∃ r ∈ before, r.document = q.document) ∨ posting.document = q.document)
          (fun r hr => Or.inl ⟨r, hr, rfl⟩) (Or.inr rfl) (fun r hr _ => Or.inl ⟨r, hr, rfl⟩) q hq
      rcases hdoc with ⟨r, hr, hrq⟩ | hpost
      · exact Or.inl ⟨r, hr, hrq.trans heq⟩
      · exact Or.inr ⟨posting, List.mem_cons_self, hpost.trans heq⟩
    · exact Or.inr ⟨q, List.mem_cons_of_mem _ hq, heq⟩

/-- A fused posting is of a document that some posting is of. -/
theorem exists_of_mem_fuse {postings : List Posting} {p : Posting} (h : p ∈ fuse postings) :
    ∃ q ∈ postings, q.document = p.document := by
  rcases exists_of_mem_foldl_attach h with ⟨q, hq, -⟩ | hq
  · exact absurd hq List.not_mem_nil
  · exact hq

/-- Postings of different documents do not touch. -/
theorem foldl_attach_append (front before : List Posting) {postings : List Posting}
    (h : ∀ p ∈ front, ∀ q ∈ postings, p.document ≠ q.document) :
    postings.foldl attach (front ++ before)
      = front ++ postings.foldl attach before := by
  induction postings generalizing before with
  | nil => rfl
  | cons posting postings ih =>
    rw [List.foldl_cons, List.foldl_cons,
      ← ih _ fun p hp q hq => h p hp q (List.mem_cons_of_mem _ hq)]
    congr 1
    -- Attaching looks at the last posting only, and that is in `before` if there is one.
    rcases nil_or_concat before with rfl | ⟨start, last, rfl⟩
    · rw [List.append_nil]
      exact attach_of_forall_ne fun p hp => h p hp posting List.mem_cons_self
    · rw [← List.append_assoc, attach_concat, attach_concat]
      split
      · rw [List.append_assoc]
      · rw [List.append_assoc]

theorem fuse_append_of_lt {postings more : List Posting}
    (h : ∀ p ∈ postings, ∀ q ∈ more, p.document < q.document) :
    fuse (postings ++ more) = fuse postings ++ fuse more := by
  rw [fuse, List.foldl_append]
  refine Eq.trans ?_ (foldl_attach_append (fuse postings) [] ?_)
  · rw [List.append_nil]
    rfl
  · intro p hp q hq heq
    rcases exists_of_mem_fuse hp with ⟨r, hr, hrp⟩
    have hlt := h r hr q hq
    rw [hrp, heq] at hlt
    exact absurd hlt (UInt32.lt_irrefl _)

/-- Postings of ascending documents stay as they are. -/
theorem fuse_of_ascending {postings : List Posting}
    (h : postings.Pairwise fun p q => p.document < q.document) : fuse postings = postings := by
  induction postings with
  | nil => rfl
  | cons posting postings ih =>
    have ⟨hhead, htail⟩ := List.pairwise_cons.mp h
    have hlt : ∀ p ∈ [posting], ∀ q ∈ postings, p.document < q.document := by
      intro p hp q hq
      rw [List.mem_singleton.mp hp]
      exact hhead q hq
    have happ := fuse_append_of_lt hlt
    rw [List.singleton_append, ih htail] at happ
    exact happ

/-- A posting whose document is not before the others keeps documents ascending. -/
theorem attach_ascending {before : List Posting} {posting : Posting}
    (h : before.Pairwise fun p q => p.document < q.document)
    (hle : ∀ p ∈ before, p.document ≤ posting.document) :
    (attach before posting).Pairwise fun p q => p.document < q.document := by
  rcases nil_or_concat before with rfl | ⟨start, last, rfl⟩
  · exact List.pairwise_singleton _ _
  · rcases List.pairwise_append.mp h with ⟨hstart, -, hcross⟩
    have hlast : ∀ p ∈ start, p.document < last.document :=
      fun p hp => hcross p hp last (List.mem_singleton.mpr rfl)
    -- Only the last posting is looked at, and the others are before it.
    have hnew := hle last (List.mem_append_right _ (List.mem_singleton.mpr rfl))
    rw [attach_concat]
    split
    · -- The last posting takes it in and stays where it is.
      refine List.pairwise_append.mpr ⟨hstart, List.pairwise_singleton _ _, fun p hp q hq => ?_⟩
      rw [List.mem_singleton.mp hq, Posting.extend_document]
      exact hlast p hp
    · -- It is of a later document and goes behind.
      rename_i hne
      have hlt : last.document < posting.document := by
        rw [UInt32.le_iff_toNat_le] at hnew
        rw [← UInt32.toNat_inj] at hne
        rw [UInt32.lt_iff_toNat_lt]
        omega
      refine List.pairwise_append.mpr ⟨hstart, ?_, fun p hp q hq => ?_⟩
      · exact List.pairwise_cons.mpr ⟨fun q hq => by rwa [List.mem_singleton.mp hq],
          List.pairwise_singleton _ _⟩
      · rcases List.mem_cons.mp hq with rfl | hq
        · exact hlast p hp
        · rw [List.mem_singleton.mp hq]
          exact UInt32.lt_trans (hlast p hp) hlt

/-- Where documents do not go back, fused postings have ascending documents. -/
theorem fuse_ascending {postings : List Posting}
    (h : postings.Pairwise fun p q => p.document ≤ q.document) :
    (fuse postings).Pairwise fun p q => p.document < q.document := by
  -- With postings read already, the documents still to come are not before theirs.
  have hgen : ∀ before : List Posting,
      before.Pairwise (fun p q => p.document < q.document) →
      (∀ p ∈ before, ∀ q ∈ postings, p.document ≤ q.document) →
      (postings.foldl attach before).Pairwise fun p q => p.document < q.document := by
    induction postings with
    | nil => exact fun before hb _ => hb
    | cons posting postings ih =>
      intro before hb hle
      have ⟨hhead, htail⟩ := List.pairwise_cons.mp h
      refine ih htail (attach before posting) ?_ ?_
      · exact attach_ascending hb fun p hp => hle p hp posting List.mem_cons_self
      · exact forall_attach
          (fun p hp q hq => hle p hp q (List.mem_cons_of_mem _ hq)) hhead
          (fun p hp _ q hq => hle p hp q (List.mem_cons_of_mem _ hq))
  exact hgen [] List.Pairwise.nil fun _ hmem => absurd hmem List.not_mem_nil

/-- The postings of a word as they are when nothing is left to be put together: each
    is tidy, and their documents ascend. -/
structure TidyPostings (postings : List Posting) : Prop where
  tidy : ∀ p ∈ postings, p.Tidy
  ascending : postings.Pairwise fun p q => p.document < q.document

/-- Tidy postings in order stay tidy when they are fused. -/
theorem fuse_tidy {postings : List Posting} (h : ∀ p ∈ postings, p.Tidy)
    (hprec : postings.Pairwise Posting.Precedes) : TidyPostings (fuse postings) := by
  -- What was read and what comes are in order, so parts of one document meet in order.
  have hgen : ∀ before : List Posting, (∀ p ∈ before, p.Tidy) →
      (∀ p ∈ before, ∀ q ∈ postings, p.Precedes q) →
        ∀ p ∈ postings.foldl attach before, p.Tidy := by
    induction postings with
    | nil => exact fun before hb _ => hb
    | cons posting postings ih =>
      intro before hb hcross
      have ⟨hhead, htail⟩ := List.pairwise_cons.mp hprec
      have hposting := h posting List.mem_cons_self
      refine ih (fun p hp => h p (List.mem_cons_of_mem _ hp)) htail (attach before posting) ?_ ?_
      · exact forall_attach hb hposting fun p hp heq =>
          (hb p hp).extend hposting (hcross p hp posting List.mem_cons_self) heq
      · exact forall_attach (fun p hp q hq => hcross p hp q (List.mem_cons_of_mem _ hq)) hhead
          fun p hp heq q hq =>
            (hcross p hp q (List.mem_cons_of_mem _ hq)).extend (hhead q hq) heq
  exact ⟨hgen [] (fun _ hp => absurd hp List.not_mem_nil) fun _ hp => absurd hp List.not_mem_nil,
    fuse_ascending (hprec.imp Posting.Precedes.document_le)⟩

end Concordance
