import Concordance.Proofs.Posting.Delimited

/-!
# Reading Any Postings

What is known of postings that were read, wherever the bytes are from.

Ids are put into a set while they are read, so a posting that was read has its ids in order,
whatever the order was in which they were stored. Positions are stored as distances, and a
reader that adds them up can only go forward. So positions that do not ascend can be written
and can not be read: the distance back is a number so large that the sum is too large as
well. This is why postings that were written are read back, or it shows that they are not.

## Theorems

* `Posting.readList_keeps`: What every number of a list keeps.
* `Posting.namesAscend_of_readAll`: Ids of postings that were read ascend.
* `Posting.tidy_of_decode`: A posting that was written and can be read is tidy.
* `StoredWord.eq_of_postings`: Postings that can be read are those that were written.
-/

namespace Concordance

namespace Posting

section ReadList

variable {σ : Type} {step : σ → Nat → Except Error σ}

/-- What every number of a list keeps is kept by the list. -/
theorem readList_keeps {I : σ → Prop} (hstep : ∀ s value t, I s → step s value = .ok t → I t)
    {s t : σ} {r r' : Reader} (h : readList step s r = (.ok t, r')) (hs : I s) : I t := by
  fun_induction readList step s r with
  | case1 => simp only [Prod.mk.injEq, reduceCtorEq, false_and] at h
  | case2 s r hp =>
    simp only [Prod.mk.injEq, Except.ok.injEq] at h
    exact h.1 ▸ hs
  | case3 => simp only [Prod.mk.injEq, reduceCtorEq, false_and] at h
  | case4 => simp only [Prod.mk.injEq, reduceCtorEq, false_and] at h
  | case5 s r b hp hne value r₁ hv hlt s' hs' ih => exact ih h (hstep s value s' hs hs')

/-- What is read of a list is what its numbers come to one by one, be it an error. -/
theorem readList_encode_fst (values : List UInt32) (s : σ) (rest : Bytes) (position : Nat) :
    (readList step s ⟨values.flatMap (fun value => Varint.encode value.toNat)
        ++ Marker.stop :: rest, position⟩).1
      = values.foldlM (fun s value => step s value.toNat) s := by
  induction values generalizing s position with
  | nil => rw [List.flatMap_nil, List.nil_append, readList_stop, List.foldlM_nil]; rfl
  | cons value values ih =>
    have hv : value.toNat < UInt64.size := Nat.lt_trans value.toNat_lt (by decide)
    rw [List.flatMap_cons, List.append_assoc, List.foldlM_cons]
    -- The number can be read, so it is the step that fails, if anything does.
    rw [readList_next hv]
    rcases step s value.toNat with e | s'
    · rfl
    · exact ih s' _

end ReadList

/-- The ids of a posting that was read ascend, whatever the bytes are. -/
theorem namesAscend_of_decodeLists {posting read : Posting} {more : Bool} {r r' : Reader}
    (h : decodeLists posting r = (.ok (read, more), r')) (hnames : posting.NamesAscend) :
    read.NamesAscend := by
  have hids : ∀ {ids ids' : List UInt32} {r r' : Reader}, ids.Pairwise (· < ·) →
      readList metaStep ids r = (.ok ids', r') → ids'.Pairwise (· < ·) := by
    intro ids ids' r r' hascend hread
    refine readList_keeps (I := fun ids : List UInt32 => ids.Pairwise (· < ·)) ?_ hread hascend
    intro set value set' hset hstep
    rw [← Except.ok.inj hstep]
    exact IdSet.insert_ascending hset
  -- Only a list of ids changes the ids.
  fun_induction decodeLists posting r with
  | case1 | case4 | case6 | case8 => simp only [Prod.mk.injEq, reduceCtorEq, false_and] at h
  | case2 | case3 =>
    simp only [Prod.mk.injEq, Except.ok.injEq] at h
    rw [← h.1.1]
    exact hnames
  | case5 posting r₁ r₂ ids r₃ hread =>
    rename_i ih
    exact ih h (hids hnames hread)
  | case7 | case9 =>
    rename_i ih
    exact ih h hnames

theorem namesAscend_of_decode {read : Posting} {more : Bool} {r r' : Reader}
    (h : decode r = (.ok (read, more), r')) : read.NamesAscend := by
  rw [decode_eq] at h
  rcases Reader.exists_of_andThen h with ⟨document, r₁, -, h⟩
  rcases Reader.exists_of_andThen h with ⟨occurrences, r₂, -, h⟩
  rcases Reader.exists_of_andThen h with ⟨rank, r₃, -, h⟩
  exact namesAscend_of_decodeLists h List.Pairwise.nil

/-- The ids of all postings that were read ascend. -/
theorem namesAscend_of_readAll {r : Reader} : ∀ p, .ok p ∈ readAll r → p.NamesAscend := by
  fun_induction readAll r with
  | case1 => exact fun p hp => absurd (List.mem_singleton.mp hp) (by simp)
  | case2 r posting r' hdecode hlt ih =>
    intro p hp
    rcases List.mem_cons.mp hp with heq | hp
    · rw [Except.ok.inj heq]
      exact namesAscend_of_decode hdecode
    · exact ih p hp
  | case3 r posting more r' hdecode =>
    intro p hp
    rw [Except.ok.inj (List.mem_singleton.mp hp)]
    exact namesAscend_of_decode hdecode

/-- Distances that can be added up lead to positions that ascend. -/
theorem pairwise_of_foldlM_positionStep {previous : UInt32} {positions read : List UInt32}
    {state : UInt32 × List UInt32}
    (h : (distances previous positions).foldlM (fun s value => positionStep s value.toNat)
      (previous, read) = .ok state) : (previous :: positions).Pairwise (· ≤ ·) := by
  induction positions generalizing previous read with
  | nil => exact List.pairwise_singleton _ _
  | cons position positions ih =>
    rw [distances, List.foldlM_cons] at h
    rcases exists_of_bind h with ⟨next, hnext, h⟩
    have hp := position.toNat_lt
    have hq := previous.toNat_lt
    have hsub := UInt32.toNat_sub position previous
    have hsize : UInt32.size = 4294967296 := rfl
    -- A distance back is added to a sum beyond 32 bits.
    have hle : previous ≤ position := by
      rw [UInt32.le_iff_toNat_le]
      refine Nat.le_of_not_lt fun hlt => ?_
      rw [positionStep, if_neg (by simp only []; omega)] at hnext
      exact absurd hnext (by simp)
    have hsum : previous.toNat + (position - previous).toNat = position.toNat := by
      rw [UInt32.toNat_sub_of_le _ _ hle]
      rw [UInt32.le_iff_toNat_le] at hle
      omega
    rw [positionStep] at hnext
    simp only [hsum, if_pos hp, UInt32.ofNat_toNat, Except.ok.injEq] at hnext
    subst hnext
    have hrest := ih h
    refine List.pairwise_cons.mpr ⟨fun x hx => ?_, hrest⟩
    rcases List.mem_cons.mp hx with rfl | hx
    · exact hle
    · exact UInt32.le_trans hle ((List.pairwise_cons.mp hrest).1 x hx)

/-- The positions of a posting can only be read if they ascend. -/
theorem pairwise_of_decodeLists {posting : Posting} {positions : List UInt32} {rest : Bytes}
    {position : Nat} {read : Posting × Bool} {r' : Reader}
    (h : decodeLists posting ⟨encodeList Marker.positions (distances 0 positions) ++ rest, position⟩
      = (.ok read, r')) : positions.Pairwise (· ≤ ·) := by
  rcases positions with _ | ⟨first, others⟩
  · exact List.Pairwise.nil
  · rw [encodeList, if_neg (by simp [distances]), List.append_assoc, List.cons_append,
      List.singleton_append, decodeLists_rounds.eq] at h
    -- The round that reads the list has come to its end, whatever came after it.
    rcases Reader.exists_of_andThen h with ⟨next, r₁, hround, -⟩
    rcases Reader.exists_of_andThen hround with ⟨marker, r₂, hmarker, hround⟩
    rw [Reader.u8_cons] at hmarker
    simp only [Prod.mk.injEq, Except.ok.injEq] at hmarker
    rcases hmarker with ⟨rfl, rfl⟩
    rw [if_neg (by decide), if_neg (by decide), if_neg (by decide), if_pos rfl] at hround
    rcases Reader.exists_of_andThen hround with ⟨state, r₃, hlist, -⟩
    rw [distances] at hlist
    have hfold := (readList_encode_fst _ (0, []) rest (position + 1)).symm.trans
      (congrArg Prod.fst hlist)
    exact (List.pairwise_cons.mp (pairwise_of_foldlM_positionStep hfold)).2

/-- A posting that was written can only be read if it is tidy, as far as that is a matter of
    its positions. -/
theorem tidy_of_decode {posting : Posting} (hnames : posting.NamesAscend) {last : Bool}
    {rest : Bytes} {position : Nat} {read : Posting × Bool} {r' : Reader}
    (h : decode ⟨posting.encode last ++ rest, position⟩ = (.ok read, r')) : posting.Tidy := by
  simp only [Posting.encode, List.append_assoc, decode, Reader.u32_encode] at h
  obtain ⟨p₁, h₁⟩ := decodeLists_encode_metaIds
    { document := posting.document, occurrences := posting.occurrences, rank := posting.rank } rfl
    hnames
    (encodeList Marker.positions (distances 0 posting.positions)
      ++ ([if last = true then Marker.stop else Marker.continues] ++ rest))
    (position + (Varint.encode posting.document.toNat).length
      + (Varint.encode posting.occurrences.toNat).length
      + (Varint.encode posting.rank.toNat).length)
  rw [h₁] at h
  exact ⟨hnames, pairwise_of_decodeLists h⟩

end Posting

namespace StoredWord

/-- Postings that can be read are those that were written, and tidy. -/
theorem eq_of_collect_readAll {postings read : List Posting} (hne : postings ≠ [])
    (hnames : ∀ p ∈ postings, p.NamesAscend) {rest : Bytes} {position : Nat}
    (h : collect (Posting.readAll ⟨encodePostings postings ++ rest, position⟩) = .ok read) :
    read = postings ∧ ∀ p ∈ postings, p.Tidy := by
  -- Each posting was read, so it is tidy, and tidy postings are read back.
  have htidy : ∀ p ∈ postings, p.Tidy := by
    induction postings generalizing read position with
    | nil => exact absurd rfl hne
    | cons posting others ih =>
      have hposting := hnames posting List.mem_cons_self
      have hfirst : ∀ last behind, encodePostings (posting :: others) ++ rest
          = posting.encode last ++ behind → posting.Tidy := by
        intro last behind hbytes
        rw [hbytes] at h
        rcases hdecode : Posting.decode ⟨posting.encode last ++ behind, position⟩ with ⟨e | _, r'⟩
        · rw [Posting.readAll_of_error hdecode] at h
          exact absurd h (by simp [collect])
        · exact Posting.tidy_of_decode hposting hdecode
      rcases others with _ | ⟨next, others⟩
      · intro p hp
        rw [List.mem_singleton.mp hp]
        exact hfirst true rest rfl
      · have htidy := hfirst false (encodePostings (next :: others) ++ rest)
          (by rw [encodePostings, List.append_assoc])
        intro p hp
        rcases List.mem_cons.mp hp with rfl | hp
        · exact htidy
        · obtain ⟨position', hdecode⟩ := Posting.decode_encode htidy false
            (encodePostings (next :: others) ++ rest) position
          rw [encodePostings, List.append_assoc, Posting.readAll_of_decode hdecode] at h
          rcases exists_of_map h with ⟨behind, hbehind, -⟩
          exact ih (by simp) (fun p hp => hnames p (List.mem_cons_of_mem _ hp)) hbehind p hp
  rw [readAll_encodePostings hne htidy, collect_map_ok] at h
  exact ⟨(Except.ok.inj h).symm, htidy⟩

theorem eq_of_postings {postings read : List Posting} (hne : postings ≠ [])
    (hnames : ∀ p ∈ postings, p.NamesAscend) {word : String} {rest : Bytes}
    (h : StoredWord.postings ⟨word, encodePostings postings ++ rest⟩ = .ok read) :
    read = postings ∧ ∀ p ∈ postings, p.Tidy :=
  eq_of_collect_readAll hne hnames h

end StoredWord

end Concordance
