import Concordance.Proofs.Posting.Delimited

/-!
# Lists of a Later Writer

A reader passes over lists that it knows nothing of.

A later writer may put lists of its own into a posting, wherever a list can begin: in front
of the ids, between them and the positions, and behind both. All that such a list has to keep
to is that its marker is none of the four that have a meaning already, and that what follows
are numbers and then the byte that closes a list. The marker may look like the beginning of a
number, and the numbers may be as large as numbers get. Since no number begins with the byte
that closes a list, the reader finds the end of a list without knowing what is in it.

What a posting has been given so far does not matter to this. So one list is passed over
wherever it stands (`decodeLists_foreign`), then any number of them, and a posting that was
padded with them is read as it was before.

## Main definitions

* `Marker.Known`: A byte that has a meaning in front of a list.
* `Posting.ForeignList`: A list under a marker of a later writer.
* `Posting.Padding`: Such lists at the places of a posting where a list can begin.
* `Posting.encodePadded`, `StoredWord.encodePadded`: The bytes with such lists put in.

## Theorems

* `Posting.decodeLists_foreign`: A list is passed over.
* `Posting.decode_encodePadded`: A posting with such lists is read back.
* `StoredWord.padded_alike`: A word with its postings is read as if there were no such lists.
-/

namespace Concordance

/-- Does a byte have a meaning where a list begins? -/
def Marker.Known (marker : UInt8) : Prop :=
  marker = stop ∨ marker = continues ∨ marker = metaIds ∨ marker = positions

instance (marker : UInt8) : Decidable (Marker.Known marker) :=
  inferInstanceAs (Decidable (_ ∨ _ ∨ _ ∨ _))

namespace Posting

/-- A list under a marker that a later writer has made up. -/
structure ForeignList where
  marker : UInt8
  values : List UInt64
  foreign : ¬ Marker.Known marker := by decide

/-- The bytes of such a list. -/
def ForeignList.encode (list : ForeignList) : Bytes :=
  list.marker :: list.values.flatMap (fun value => Varint.encode value.toNat) ++ [Marker.stop]

/-- Lists of a later writer in a posting: in front of its ids, between these and its positions,
    and behind both. -/
structure Padding where
  front : List ForeignList := []
  middle : List ForeignList := []
  back : List ForeignList := []

/-- The bytes of a posting with lists of a later writer put in. -/
def encodePadded (posting : Posting) (padding : Padding) (last : Bool) : Bytes :=
  Varint.encode posting.document.toNat ++ Varint.encode posting.occurrences.toNat
    ++ Varint.encode posting.rank.toNat
    ++ padding.front.flatMap ForeignList.encode
    ++ encodeList Marker.metaIds posting.metaIds
    ++ padding.middle.flatMap ForeignList.encode
    ++ encodeList Marker.positions (distances 0 posting.positions)
    ++ padding.back.flatMap ForeignList.encode
    ++ [if last then Marker.stop else Marker.continues]

/-- Nothing put in are the bytes as they are. -/
theorem encodePadded_nothing (posting : Posting) (last : Bool) :
    posting.encodePadded {} last = posting.encode last := by
  simp only [encodePadded, encode, List.flatMap_nil, List.append_nil]

/-- The numbers of a list that means nothing are passed over up to its end. -/
theorem readList_skip (values : List UInt64) (rest : Bytes) (position : Nat) :
    ∃ position', readList skipStep ()
        ⟨values.flatMap (fun value => Varint.encode value.toNat) ++ Marker.stop :: rest, position⟩
      = (.ok (), ⟨rest, position'⟩) := by
  induction values generalizing position with
  | nil => exact ⟨position + 1, readList_stop () rest position⟩
  | cons value values ih =>
    rw [List.flatMap_cons, List.append_assoc, readList_value value.toNat_lt rfl]
    exact ih _

/-- A list of a later writer is passed over, whatever was read before it. -/
theorem decodeLists_foreign (posting : Posting) (list : ForeignList) (rest : Bytes)
    (position : Nat) : ∃ position',
    decodeLists posting ⟨list.encode ++ rest, position⟩
      = decodeLists posting ⟨rest, position'⟩ := by
  rcases list with ⟨marker, values, hforeign⟩
  rw [Marker.Known, not_or, not_or, not_or] at hforeign
  rcases hforeign with ⟨hstop, hcontinues, hids, hpositions⟩
  rcases readList_skip values rest (position + 1) with ⟨position', hlist⟩
  -- One round reads the marker, which none of the four cases is for, and then the numbers.
  have hround : markerRound posting
      ⟨marker :: (values.flatMap (fun value => Varint.encode value.toNat) ++ Marker.stop :: rest),
        position⟩ = (.ok (.inl posting), ⟨rest, position'⟩) := by
    simp only [markerRound, Reader.andThen, Reader.u8_cons, if_neg hcontinues, if_neg hstop,
      if_neg hids, if_neg hpositions, hlist]
  refine ⟨position', (congrFun (decodeLists_rounds.eq posting) _).trans ?_⟩
  rw [ForeignList.encode, List.append_assoc, List.cons_append, List.singleton_append,
    Reader.andThen, hround]
  rfl

/-- So is any number of them. -/
theorem decodeLists_flatMap_foreign (posting : Posting) (lists : List ForeignList) (rest : Bytes)
    (position : Nat) : ∃ position',
    decodeLists posting ⟨lists.flatMap ForeignList.encode ++ rest, position⟩
      = decodeLists posting ⟨rest, position'⟩ := by
  induction lists generalizing position with
  | nil => exact ⟨position, rfl⟩
  | cons list lists ih =>
    rw [List.flatMap_cons, List.append_assoc]
    obtain ⟨position₁, hlist⟩ := decodeLists_foreign posting list
      (lists.flatMap ForeignList.encode ++ rest) position
    rw [hlist]
    exact ih position₁

/-- A posting with lists of a later writer is read back without them. -/
theorem decode_encodePadded {posting : Posting} (h : posting.Tidy) (padding : Padding)
    (last : Bool) (rest : Bytes) (position : Nat) :
    ∃ position', decode ⟨posting.encodePadded padding last ++ rest, position⟩
      = (.ok (posting, !last), ⟨rest, position'⟩) := by
  simp only [encodePadded, List.append_assoc, decode, Reader.u32_encode]
  obtain ⟨p₁, h₁⟩ := decodeLists_flatMap_foreign
    { document := posting.document, occurrences := posting.occurrences, rank := posting.rank }
    padding.front _ _
  rw [h₁]
  obtain ⟨p₂, h₂⟩ := decodeLists_encode_metaIds
    { document := posting.document, occurrences := posting.occurrences, rank := posting.rank } rfl
    h.names _ p₁
  rw [h₂]
  obtain ⟨p₃, h₃⟩ := decodeLists_flatMap_foreign
    { document := posting.document, occurrences := posting.occurrences, rank := posting.rank,
      metaIds := posting.metaIds } padding.middle _ p₂
  rw [h₃]
  obtain ⟨p₄, h₄⟩ := decodeLists_encode_positions
    { document := posting.document, occurrences := posting.occurrences, rank := posting.rank,
      metaIds := posting.metaIds } rfl h.positions _ p₃
  rw [h₄]
  obtain ⟨p₅, h₅⟩ := decodeLists_flatMap_foreign posting padding.back _ p₄
  rw [h₅]
  -- All lists are behind the reader, and what is left is the byte that closes the posting.
  refine ⟨p₅ + 1, ?_⟩
  cases last with
  | true => exact decodeLists_stop _ rest p₅
  | false => exact decodeLists_continues _ rest p₅

end Posting

namespace StoredWord

/-- The bytes of the postings of a word, each with lists of a later writer put in. -/
def encodePaddedPostings : List (Posting × Posting.Padding) → Bytes
  | [] => []
  | [(posting, padding)] => posting.encodePadded padding true
  | (posting, padding) :: next :: rest =>
    posting.encodePadded padding false ++ encodePaddedPostings (next :: rest)

/-- The bytes of a word with its postings, with lists of a later writer put in. -/
def encodePadded (word : String) (padded : List (Posting × Posting.Padding)) : Bytes :=
  nulClosed word ++ encodePaddedPostings padded

/-- The postings of a word are read back without lists of a later writer. -/
theorem readAll_encodePaddedPostings {padded : List (Posting × Posting.Padding)}
    (hne : padded ≠ []) (h : ∀ p ∈ padded, p.1.Tidy) (rest : Bytes) (position : Nat) :
    Posting.readAll ⟨encodePaddedPostings padded ++ rest, position⟩
      = padded.map fun p => .ok p.1 := by
  induction padded generalizing position with
  | nil => exact absurd rfl hne
  | cons first others ih =>
    rcases first with ⟨posting, padding⟩
    have ⟨hposting, hothers⟩ := List.forall_mem_cons.mp h
    rcases others with _ | ⟨next, others⟩
    · -- The last posting says that none is behind it, and what follows is left alone.
      rcases Posting.decode_encodePadded hposting padding true rest position with ⟨position', hd⟩
      rw [encodePaddedPostings, Posting.readAll_of_decode hd]
      rfl
    · obtain ⟨position', hd⟩ := Posting.decode_encodePadded hposting padding false
        (encodePaddedPostings (next :: others) ++ rest) position
      rw [encodePaddedPostings, List.append_assoc, Posting.readAll_of_decode hd,
        ih (List.cons_ne_nil _ _) hothers]
      rfl

/-- A word with its postings is read as if no list of a later writer had been put in, wherever
    lists can begin, however many there are, and whatever is behind the word. -/
theorem padded_alike {word : String} (hnul : NulFree word)
    {padded : List (Posting × Posting.Padding)} (hne : padded ≠ [])
    (h : TidyPostings (padded.map Prod.fst)) (behind : Bytes) :
    ∃ stored plain, parse (encodePadded word padded ++ behind) = .ok stored
      ∧ parse (encode word (padded.map Prod.fst) ++ behind) = .ok plain
      ∧ stored.word = plain.word ∧ stored.postings = plain.postings
      ∧ plain.word = word ∧ plain.postings = .ok (padded.map Prod.fst) := by
  have hstored : parse (encodePadded word padded ++ behind)
      = .ok ⟨word, encodePaddedPostings padded ++ behind⟩ := by
    simp only [parse, encodePadded, List.append_assoc, Reader.text_nulClosed hnul]
  -- The lists are passed over within each posting, so that the postings are the same.
  have hread : StoredWord.postings ⟨word, encodePaddedPostings padded ++ behind⟩
      = .ok (padded.map Prod.fst) := by
    rw [StoredWord.postings, stream, readAll_encodePaddedPostings hne
      (fun p hp => h.tidy p.1 (List.mem_map_of_mem hp)), ← collect_map_ok, List.map_map]
    rfl
  have hplain : StoredWord.postings ⟨word, encodePostings (padded.map Prod.fst) ++ behind⟩
      = .ok (padded.map Prod.fst) := by
    rw [StoredWord.postings, stream_encodePostings (mt List.map_eq_nil_iff.mp hne) h.tidy,
      collect_map_ok]
  exact ⟨_, _, hstored, parse_encode hnul _ behind, rfl, hread.trans hplain.symm, rfl, hplain⟩

/-- Markers that look like a letter and like the beginning of a number, lists without numbers
    and with the largest one, and a number that begins with a byte that closes a posting. -/
theorem padded_alike_of_markers :
    let first : Posting := { document := 1, occurrences := 2, metaIds := [4], positions := [3, 3] }
    let last : Posting := { document := 9, occurrences := 1, rank := 7 }
    let padded : List (Posting × Posting.Padding) := [
      (first, { front := [{ marker := 0x00, values := [] }]
                middle := [{ marker := 0xFF, values := [18446744073709551615, 0] }]
                back := [{ marker := 0x84, values := [128] }, { marker := 0x84, values := [] }] }),
      (last, { middle := [{ marker := 0x41, values := [500, 7] }] })]
    NulFree "café" ∧ padded ≠ [] ∧ TidyPostings (padded.map Prod.fst)
      ∧ ∃ stored plain, parse (encodePadded "café" padded ++ [0x80]) = .ok stored
        ∧ parse (encode "café" (padded.map Prod.fst) ++ [0x80]) = .ok plain
        ∧ stored.word = plain.word ∧ stored.postings = plain.postings
        ∧ plain.word = "café" ∧ plain.postings = .ok (padded.map Prod.fst) := by
  intro first last padded
  have hnul : NulFree "café" := by decide
  have hne : padded ≠ [] := List.cons_ne_nil _ _
  have htidy : TidyPostings (padded.map Prod.fst) := by
    refine ⟨fun p hp => ?_, by decide⟩
    rcases List.mem_cons.mp hp with rfl | hp
    · exact ⟨List.pairwise_singleton _ _, by decide⟩
    · rw [List.mem_singleton.mp hp]
      exact ⟨List.Pairwise.nil, by decide⟩
  exact ⟨hnul, hne, htidy, padded_alike hnul hne htidy [0x80]⟩

end StoredWord

end Concordance
