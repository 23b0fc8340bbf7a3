import Concordance.Posting.Codec
import Concordance.Proofs.Posting
import Concordance.Proofs.Reader

/-!
# Word Entries Are Read Back

A word with its postings is read from its entry as it was written, whatever comes
behind the entry.

What comes behind matters, because the last entry of a segment is followed by the
rest of the file and nothing marks where it ends. The byte that closes the last
posting is what the reader stops at.

A posting has two conditions to meet, and is `Tidy` if it does. Its positions must
not descend, since only the distances between them are stored, and its ids must
ascend, since the reader puts them into a set.

## Theorems

* `Posting.readList_encode`: A list of numbers is read back.
* `Posting.decode_encode`: A posting is read back.
* `StoredWord.stream_encodePostings`: The postings of a word are read back.
* `StoredWord.parse_encode`: The word of an entry is read back.
-/

namespace Concordance

namespace Posting

section ReadList

variable {σ : Type} {step : σ → Nat → Except Error σ}

/-- Reading a list, without the reason why it ends. -/
theorem readList_eq (step : σ → Nat → Except Error σ) (s : σ) (r : Reader) :
    readList step s r =
      match r.peek with
      | .error e => (.error e, r)
      | .ok b =>
        if b = Marker.stop then (.ok s, r.forward 1)
        else
          match r.varint with
          | (.error e, r') => (.error e, r')
          | (.ok value, r') =>
            match step s value with
            | .error e => (.error e, r')
            | .ok s' => readList step s' r' := by
  rw [readList]
  rcases r.peek with e | b
  · rfl
  · by_cases hstop : b = Marker.stop
    · simp only [if_pos hstop]
    · -- The definition names what it has read, for the recursion to end, and here that is looked
      -- up.
      simp only [if_neg hstop]
      split
      · rename_i hread
        simp only [hread]
      · rename_i value r' hread
        rcases hstep : step s value with e | s' <;> simp only [hread, hstep]

/-- The end of a list. -/
theorem readList_stop (s : σ) (rest : Bytes) (position : Nat) :
    readList step s ⟨Marker.stop :: rest, position⟩ = (.ok s, ⟨rest, position + 1⟩) := by
  rw [readList]
  rfl

/-- A number of a list. It can not be taken for the end, and so it is what the step is given. -/
theorem readList_next {value : Nat} (hv : value < UInt64.size) (s : σ) (rest : Bytes)
    (position : Nat) :
    readList step s ⟨Varint.encode value ++ rest, position⟩
      = match step s value with
        | .error e => (.error e, ⟨rest, position + (Varint.encode value).length⟩)
        | .ok s' => readList step s' ⟨rest, position + (Varint.encode value).length⟩ := by
  rcases Varint.encode_head value with ⟨b, bs, hb, hne⟩
  have hpeek : Reader.peek ⟨Varint.encode value ++ rest, position⟩ = .ok b := by
    rw [hb]
    rfl
  rw [readList_eq]
  simp only [hpeek, Reader.varint_encode hv]
  exact if_neg hne

/-- A list goes on if the step does. -/
theorem readList_value {s s' : σ} {value : Nat} (hv : value < UInt64.size)
    (hs : step s value = .ok s') (rest : Bytes) (position : Nat) :
    readList step s ⟨Varint.encode value ++ rest, position⟩
      = readList step s' ⟨rest, position + (Varint.encode value).length⟩ := by
  rw [readList_next hv, hs]

/-- A list of numbers is read back. -/
theorem readList_encode (values : List UInt32) {s t : σ}
    (h : values.foldlM (fun s value => step s value.toNat) s = .ok t) (rest : Bytes)
    (position : Nat) :
    ∃ position', readList step s
        ⟨values.flatMap (fun value => Varint.encode value.toNat) ++ Marker.stop :: rest, position⟩
      = (.ok t, ⟨rest, position'⟩) := by
  induction values generalizing s position with
  | nil =>
    rw [List.foldlM_nil] at h
    simp only [pure, Except.pure, Except.ok.injEq] at h
    rw [← h]
    exact ⟨position + 1, readList_stop s rest position⟩
  | cons value values ih =>
    rw [List.foldlM_cons] at h
    rcases hs : step s value.toNat with e | s'
    · rw [hs] at h
      exact absurd h (by simp only [bind, Except.bind, reduceCtorEq, not_false_eq_true])
    · -- The step went well, and the list goes on with what it has come to.
      rw [hs] at h
      have hv : value.toNat < UInt64.size := Nat.lt_trans value.toNat_lt (by decide)
      rw [List.flatMap_cons, List.append_assoc, readList_value hv hs]
      exact ih h _

end ReadList

/-- Ascending ids behind smaller ones are taken into the set as they are. -/
theorem foldlM_metaStep (ids : List UInt32) (set : List UInt32)
    (h : (set ++ ids).Pairwise (· < ·)) :
    ids.foldlM (fun set id => metaStep set id.toNat) set = .ok (set ++ ids) := by
  induction ids generalizing set with
  | nil =>
    rw [List.append_nil]
    rfl
  | cons id ids ih =>
    have hlt : ∀ x ∈ set, x < id :=
      fun x hx => (List.pairwise_append.mp h).2.2 x hx id List.mem_cons_self
    have hstep : metaStep set id.toNat = .ok (set ++ [id]) := by
      rw [metaStep, UInt32.ofNat_toNat, IdSet.insert_of_forall_lt hlt]
    rw [List.append_cons] at h ⊢
    rw [List.foldlM_cons, hstep]
    exact ih _ h

/-- Distances lead back to the positions that they were taken from. -/
theorem foldlM_positionStep (positions : List UInt32) (previous : UInt32) (read : List UInt32)
    (h : (previous :: positions).Pairwise (· ≤ ·)) :
    ∃ last, (distances previous positions).foldlM (fun s value => positionStep s value.toNat)
      (previous, read) = .ok (last, positions.reverse ++ read) := by
  induction positions generalizing previous read with
  | nil => exact ⟨previous, rfl⟩
  | cons position positions ih =>
    have ⟨hle, htail⟩ := List.pairwise_cons.mp h
    -- Positions do not descend, so the distance did not wrap around.
    have hsum : previous.toNat + (position - previous).toNat = position.toNat := by
      have hp := hle position List.mem_cons_self
      rw [UInt32.toNat_sub_of_le _ _ hp]
      rw [UInt32.le_iff_toNat_le] at hp
      omega
    have hstep : positionStep (previous, read) (position - previous).toNat
        = .ok (position, position :: read) := by
      simp only [positionStep, hsum, if_pos position.toNat_lt, UInt32.ofNat_toNat]
    rw [distances, List.foldlM_cons, hstep, List.reverse_cons, List.append_assoc]
    exact ih position (position :: read) htail

/-- Reading lists, without the reason why it ends. -/
theorem decodeLists_eq (posting : Posting) (r : Reader) :
    decodeLists posting r =
      match r.u8 with
      | (.error e, r') => (.error e, r')
      | (.ok marker, r') =>
        if marker = Marker.continues then (.ok (posting, true), r')
        else if marker = Marker.stop then (.ok (posting, false), r')
        else if marker = Marker.metaIds then
          match readList metaStep posting.metaIds r' with
          | (.error e, r'') => (.error e, r'')
          | (.ok ids, r'') => decodeLists { posting with metaIds := ids } r''
        else if marker = Marker.positions then
          match readList positionStep (0, []) r' with
          | (.error e, r'') => (.error e, r'')
          | (.ok (_, read), r'') =>
            decodeLists { posting with positions := posting.positions ++ read.reverse } r''
        else
          match readList skipStep () r' with
          | (.error e, r'') => (.error e, r'')
          | (.ok (), r'') => decodeLists posting r'' := by
  rw [decodeLists]
  split
  · rename_i hmarker
    simp only [hmarker]
  · rename_i marker r' hmarker
    simp only [hmarker]
    -- Under each marker there is one list to read, and what it is read as decides.
    split
    · rfl
    split
    · rfl
    split
    · split <;> rename_i hlist <;> simp only [hlist]
    split
    · split <;> rename_i hlist <;> simp only [hlist]
    · split <;> rename_i hlist <;> simp only [hlist]

/-- The byte that closes the last posting. -/
theorem decodeLists_stop (posting : Posting) (rest : Bytes) (position : Nat) :
    decodeLists posting ⟨Marker.stop :: rest, position⟩
      = (.ok (posting, false), ⟨rest, position + 1⟩) := by
  rw [decodeLists_eq, Reader.u8_cons]
  rfl

/-- The byte that closes a posting with more to come. -/
theorem decodeLists_continues (posting : Posting) (rest : Bytes) (position : Nat) :
    decodeLists posting ⟨Marker.continues :: rest, position⟩
      = (.ok (posting, true), ⟨rest, position + 1⟩) := by
  rw [decodeLists_eq, Reader.u8_cons]
  rfl

/-- A list of ids in front of what else there is. -/
theorem decodeLists_metaIds {posting : Posting} {rest rest' : Bytes} {ids : List UInt32}
    {position position' : Nat}
    (h : readList metaStep posting.metaIds ⟨rest, position + 1⟩
      = (.ok ids, ⟨rest', position'⟩)) :
    decodeLists posting ⟨Marker.metaIds :: rest, position⟩
      = decodeLists { posting with metaIds := ids } ⟨rest', position'⟩ := by
  rw [decodeLists_eq, Reader.u8_cons]
  dsimp only
  rw [if_neg (by decide), if_neg (by decide), if_pos rfl, h]

/-- A list of positions in front of what else there is. -/
theorem decodeLists_positions {posting : Posting} {rest rest' : Bytes} {last : UInt32}
    {read : List UInt32} {position position' : Nat}
    (h : readList positionStep (0, []) ⟨rest, position + 1⟩
      = (.ok (last, read), ⟨rest', position'⟩)) :
    decodeLists posting ⟨Marker.positions :: rest, position⟩
      = decodeLists { posting with positions := posting.positions ++ read.reverse }
          ⟨rest', position'⟩ := by
  rw [decodeLists_eq, Reader.u8_cons]
  dsimp only
  rw [if_neg (by decide), if_neg (by decide), if_neg (by decide), if_pos rfl, h]

/-- The ids of a posting, if it has any, are read back into one that has none. -/
theorem decodeLists_encode_metaIds (posting : Posting) (hnone : posting.metaIds = [])
    {ids : List UInt32} (h : ids.Pairwise (· < ·)) (rest : Bytes) (position : Nat) :
    ∃ position', decodeLists posting ⟨encodeList Marker.metaIds ids ++ rest, position⟩
      = decodeLists { posting with metaIds := ids } ⟨rest, position'⟩ := by
  by_cases hids : ids = []
  · refine ⟨position, ?_⟩
    have hsame : { posting with metaIds := [] } = posting := by rw [← hnone]
    rw [hids, hsame]
    rfl
  · have hfold : ids.foldlM (fun set id => metaStep set id.toNat) posting.metaIds = .ok ids := by
      rw [hnone]
      exact foldlM_metaStep ids [] h
    rcases readList_encode ids hfold rest (position + 1) with ⟨position', hread⟩
    refine ⟨position', ?_⟩
    rw [encodeList, if_neg (by simpa using hids), List.append_assoc, List.cons_append,
      List.singleton_append]
    exact decodeLists_metaIds hread

/-- The positions of a posting, if it has any, are read back into one that has
    none. -/
theorem decodeLists_encode_positions (posting : Posting) (hnone : posting.positions = [])
    {positions : List UInt32} (h : positions.Pairwise (· ≤ ·)) (rest : Bytes) (position : Nat) :
    ∃ position',
      decodeLists posting ⟨encodeList Marker.positions (distances 0 positions) ++ rest, position⟩
        = decodeLists { posting with positions } ⟨rest, position'⟩ := by
  rcases positions with _ | ⟨first, others⟩
  · -- Without positions there is no list of them.
    refine ⟨position, ?_⟩
    have hsame : { posting with positions := [] } = posting := by rw [← hnone]
    rw [hsame]
    rfl
  · -- The first distance is taken from zero.
    have hzero : (0 :: first :: others).Pairwise (· ≤ ·) :=
      List.pairwise_cons.mpr ⟨fun p _ => by rw [UInt32.le_iff_toNat_le]; exact Nat.zero_le _, h⟩
    rcases foldlM_positionStep (first :: others) 0 [] hzero with ⟨last, hfold⟩
    rcases readList_encode _ hfold rest (position + 1) with ⟨position', hread⟩
    refine ⟨position', ?_⟩
    rw [encodeList, if_neg (by simp [distances]), List.append_assoc, List.cons_append,
      List.singleton_append, decodeLists_positions hread, hnone, List.nil_append,
      List.append_nil, List.reverse_reverse]

/-- A posting is read back, with the news whether it is the last one. -/
theorem decode_encode {posting : Posting} (h : posting.Tidy) (last : Bool) (rest : Bytes)
    (position : Nat) :
    ∃ position', decode ⟨posting.encode last ++ rest, position⟩
      = (.ok (posting, !last), ⟨rest, position'⟩) := by
  simp only [Posting.encode, List.append_assoc, decode, Reader.u32_encode]
  obtain ⟨p₁, h₁⟩ := decodeLists_encode_metaIds
    { document := posting.document, occurrences := posting.occurrences, rank := posting.rank } rfl
    h.names
    (encodeList Marker.positions (distances 0 posting.positions)
      ++ ([if last = true then Marker.stop else Marker.continues] ++ rest))
    (position + (Varint.encode posting.document.toNat).length
      + (Varint.encode posting.occurrences.toNat).length
      + (Varint.encode posting.rank.toNat).length)
  rw [h₁]
  obtain ⟨p₂, h₂⟩ := decodeLists_encode_positions
    { document := posting.document, occurrences := posting.occurrences, rank := posting.rank,
      metaIds := posting.metaIds } rfl h.positions
    ([if last = true then Marker.stop else Marker.continues] ++ rest) p₁
  rw [h₂]
  -- Both lists are in, and what is left is the byte that closes the posting.
  refine ⟨p₂ + 1, ?_⟩
  cases last with
  | true => exact decodeLists_stop _ rest p₂
  | false => exact decodeLists_continues _ rest p₂

/-- Reading postings goes on behind the first one, if more are to come. -/
theorem readAll_of_decode {posting : Posting} {more : Bool} {r r' : Reader}
    (h : decode r = (.ok (posting, more), r')) :
    readAll r = if more then .ok posting :: readAll r' else [.ok posting] := by
  rw [readAll]
  split
  · rename_i hr
    rw [h] at hr
    exact absurd hr (by simp only [Prod.mk.injEq, reduceCtorEq, false_and, not_false_eq_true])
  · rename_i hr
    rw [h] at hr
    simp only [Prod.mk.injEq, Except.ok.injEq] at hr
    rcases hr with ⟨⟨rfl, rfl⟩, rfl⟩
    rfl

end Posting

namespace StoredWord

/-- The postings of a word are read back, if there are any. -/
theorem readAll_encodePostings {postings : List Posting} (hne : postings ≠ [])
    (h : ∀ p ∈ postings, p.Tidy) (rest : Bytes) (position : Nat) :
    Posting.readAll ⟨encodePostings postings ++ rest, position⟩ = postings.map .ok := by
  induction postings generalizing position with
  | nil => exact absurd rfl hne
  | cons posting others ih =>
    have hp := h posting List.mem_cons_self
    rcases others with _ | ⟨next, others⟩
    · -- The last posting is closed by `stop`, and what comes behind it is not looked at.
      rcases Posting.decode_encode hp true rest position with ⟨position', hd⟩
      rw [encodePostings, Posting.readAll_of_decode hd]
      rfl
    · obtain ⟨position', hd⟩ := Posting.decode_encode hp false
        (encodePostings (next :: others) ++ rest) position
      rw [encodePostings, List.append_assoc, Posting.readAll_of_decode hd,
        ih (by simp) fun p hp => h p (List.mem_cons_of_mem _ hp)]
      rfl

theorem stream_encodePostings {postings : List Posting} (hne : postings ≠ [])
    (h : ∀ p ∈ postings, p.Tidy) (word : String) (rest : Bytes) :
    stream ⟨word, encodePostings postings ++ rest⟩ = postings.map .ok :=
  readAll_encodePostings hne h rest 0

/-- The word of an entry is read back. -/
theorem parse_encode {word : String} (h : NulFree word) (postings : List Posting) (rest : Bytes) :
    parse (encode word postings ++ rest) = .ok ⟨word, encodePostings postings ++ rest⟩ := by
  simp only [parse, encode, List.append_assoc, Reader.text_nulClosed h]

end StoredWord

end Concordance
