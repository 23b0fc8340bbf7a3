import Concordance.Proofs.Decoding
import Concordance.Proofs.Reader.Steady

/-!
# Word Entries Say Where They End

An entry has no length in front of it, and nothing in the file marks where it ends. So the
bytes of a word with its postings have to tell. Whatever follows them is not looked at, and
an entry that was cut off is never taken for a shorter one.

The second half follows from the first, once reading is known to be steady. If the part in
front of a cut could be read, it would be read in the same way with the rest put back. But
then the whole entry is read, and all of it is taken, so that nothing was cut off.

## Main definitions

* `Posting.listRound`, `Posting.markerRound`: What is done over and over to read a posting.

## Theorems

* `Posting.readList_rounds`, `Posting.decodeLists_rounds`: Reads of any length, round by round.
* `Posting.steady_decode`: A posting is read without a look at what is behind it.
* `StoredWord.encode_delimited`: The bytes of a word with its postings say where they end.
-/

namespace Concordance

namespace Posting

section ReadList

variable {σ : Type} {step : σ → Nat → Except Error σ}

/-- The next number of a list, or nothing where the list is closed. -/
def nextValue : Reader → Except Error (Option Nat) × Reader :=
  Reader.andThen (fun r => (r.peek, r)) fun b =>
    if b = Marker.stop then Reader.andThen Reader.u8 fun _ r => (.ok none, r)
    else Reader.andThen Reader.varint fun value r => (.ok (some value), r)

/-- One round of reading a list. -/
def listRound (step : σ → Nat → Except Error σ) (s : σ) : Reader → Except Error (σ ⊕ σ) × Reader :=
  Reader.andThen nextValue fun
    | none => fun r => (.ok (.inr s), r)
    | some value => Reader.andThen (fun r => (step s value, r)) fun s' r => (.ok (.inl s'), r)

/-- A list is read round by round, and a round that goes on has taken a number. -/
theorem readList_rounds (step : σ → Nat → Except Error σ) :
    Reader.Rounds (readList step) (listRound step) := by
  constructor
  · intro s
    funext r
    rw [readList_eq]
    simp only [listRound, nextValue, Reader.andThen]
    rcases hpeek : r.peek with e | b
    · rfl
    · -- The byte that closes a list is looked at, and then taken by itself.
      by_cases hstop : b = Marker.stop
      · simp only [if_pos hstop, Reader.andThen, Reader.u8, hpeek, Sum.elim_inr]
      · simp only [if_neg hstop, Reader.andThen]
        rcases r.varint with ⟨e | value, r'⟩
        · rfl
        · rcases hstep : step s value with e | s' <;>
            simp only [Reader.andThen, hstep, Sum.elim_inl]
  · intro s s' r r' h
    -- It has not come upon the end of the list, and so what it took is a number.
    rcases Reader.exists_of_andThen h with ⟨_ | value, r₁, hvalue, h⟩
    · simp only [Prod.mk.injEq, Except.ok.injEq, reduceCtorEq, false_and] at h
    rcases Reader.exists_of_andThen h with ⟨t, r₂, hstep, h⟩
    obtain ⟨-, rfl⟩ := Prod.mk.inj hstep
    obtain ⟨-, rfl⟩ := Prod.mk.inj h
    rcases Reader.exists_of_andThen hvalue with ⟨b, r₂, hpeek, hvalue⟩
    obtain ⟨-, rfl⟩ := Prod.mk.inj hpeek
    by_cases hstop : b = Marker.stop
    · rw [if_pos hstop] at hvalue
      rcases Reader.exists_of_andThen hvalue with ⟨-, r₃, -, h⟩
      simp only [Prod.mk.injEq, Except.ok.injEq, reduceCtorEq, false_and] at h
    · rw [if_neg hstop] at hvalue
      rcases Reader.exists_of_andThen hvalue with ⟨read, r₃, hread, h⟩
      obtain ⟨-, rfl⟩ := Prod.mk.inj h
      exact Reader.varint_length hread

theorem steady_nextValue : Reader.Steady nextValue := by
  refine Reader.steady_peek.andThen fun b => ?_
  by_cases hstop : b = Marker.stop
  · simp only [if_pos hstop]
    exact Reader.steady_u8.andThen fun _ => Reader.steady_ok _
  · simp only [if_neg hstop]
    exact Reader.steady_varint.andThen fun _ => Reader.steady_ok _

/-- A list is read without a look at what is behind it, if its steps only fail on numbers
    that are wrong. -/
theorem steady_readList (hstep : ∀ s value e, step s value = .error e → ∃ cause, e = .corrupt cause)
    (s : σ) : Reader.Steady (readList step s) := by
  refine (readList_rounds step).steady (fun s => steady_nextValue.andThen fun value => ?_) s
  rcases value with _ | value
  · exact Reader.steady_ok _
  · exact (Reader.steady_const (hstep s value)).andThen fun _ => Reader.steady_ok _

end ReadList

/-- A list of meta names is read without a look behind it. -/
theorem steady_readList_metaIds (ids : List UInt32) : Reader.Steady (readList metaStep ids) :=
  steady_readList (fun _ _ _ h => absurd h (by simp [metaStep])) ids

/-- A position that is too large is the fault of its number. -/
theorem positionStep_corrupt {state : UInt32 × List UInt32} {value : Nat} {e : Error}
    (h : positionStep state value = .error e) : ∃ cause, e = .corrupt cause := by
  rw [positionStep] at h
  split at h
  · exact absurd h (by simp)
  · exact ⟨_, (Except.error.inj h).symm⟩

/-- So is a list of positions. -/
theorem steady_readList_positions (state : UInt32 × List UInt32) :
    Reader.Steady (readList positionStep state) :=
  steady_readList (fun _ _ _ h => positionStep_corrupt h) state

/-- And so is a list that means nothing. -/
theorem steady_readList_skip : Reader.Steady (readList skipStep ()) :=
  steady_readList (fun _ _ _ h => absurd h (by simp [skipStep])) ()

/-- One round of reading the lists of a posting: a marker, and the list under it. -/
def markerRound (posting : Posting) : Reader → Except Error (Posting ⊕ Posting × Bool) × Reader :=
  Reader.andThen Reader.u8 fun marker =>
    if marker = Marker.continues then fun r => (.ok (.inr (posting, true)), r)
    else if marker = Marker.stop then fun r => (.ok (.inr (posting, false)), r)
    else if marker = Marker.metaIds then
      Reader.andThen (readList metaStep posting.metaIds) fun ids r =>
        (.ok (.inl { posting with metaIds := ids }), r)
    else if marker = Marker.positions then
      Reader.andThen (readList positionStep (0, [])) fun state r =>
        (.ok (.inl { posting with positions := posting.positions ++ state.2.reverse }), r)
    else Reader.andThen (readList skipStep ()) fun _ r => (.ok (.inl posting), r)

/-- A list behind a marker takes something as well. -/
theorem length_of_list {σ α : Type} {step : σ → Nat → Except Error σ} {s : σ} {f : σ → α}
    {r r' : Reader} {a : α}
    (h : Reader.andThen (readList step s) (fun t r => (.ok (f t), r)) r = (.ok a, r')) :
    r'.rest.length < r.rest.length := by
  rcases Reader.exists_of_andThen h with ⟨t, r₁, hlist, h⟩
  obtain ⟨-, rfl⟩ := Prod.mk.inj h
  exact readList_length hlist

/-- The lists of a posting are read marker by marker. -/
theorem decodeLists_rounds : Reader.Rounds decodeLists markerRound := by
  constructor
  · intro posting
    funext r
    rw [decodeLists_eq]
    simp only [markerRound, Reader.andThen]
    -- Both look at the marker first, and under each marker they read the same list.
    rcases r.u8 with ⟨e | marker, r₁⟩
    · rfl
    · simp only []
      by_cases hcontinues : marker = Marker.continues
      · simp only [if_pos hcontinues, Sum.elim_inr]
      by_cases hstop : marker = Marker.stop
      · simp only [if_neg hcontinues, if_pos hstop, Sum.elim_inr]
      by_cases hids : marker = Marker.metaIds
      · simp only [if_neg hcontinues, if_neg hstop, if_pos hids, Reader.andThen]
        rcases readList metaStep posting.metaIds r₁ with ⟨e | ids, r₂⟩ <;> rfl
      by_cases hpositions : marker = Marker.positions
      · simp only [if_neg hcontinues, if_neg hstop, if_neg hids, if_pos hpositions, Reader.andThen]
        rcases readList positionStep (0, []) r₁ with ⟨e | state, r₂⟩ <;> rfl
      · simp only [if_neg hcontinues, if_neg hstop, if_neg hids, if_neg hpositions, Reader.andThen]
        rcases readList skipStep () r₁ with ⟨e | state, r₂⟩ <;> rfl
  · intro posting next r r' h
    rcases Reader.exists_of_andThen h with ⟨marker, r₁, hmarker, h⟩
    refine Nat.lt_trans ?_ (Reader.u8_length hmarker)
    by_cases hcontinues : marker = Marker.continues
    · simp only [if_pos hcontinues, Prod.mk.injEq, Except.ok.injEq, reduceCtorEq, false_and] at h
    by_cases hstop : marker = Marker.stop
    · simp only [if_neg hcontinues, if_pos hstop, Prod.mk.injEq, Except.ok.injEq, reduceCtorEq,
        false_and] at h
    rw [if_neg hcontinues, if_neg hstop] at h
    split at h
    · exact length_of_list h
    · split at h
      · exact length_of_list h
      · exact length_of_list h

/-- The lists of a posting are read without a look at what is behind them. -/
theorem steady_decodeLists (posting : Posting) : Reader.Steady (decodeLists posting) := by
  refine decodeLists_rounds.steady
    (fun posting => Reader.steady_u8.andThen fun marker => ?_) posting
  by_cases hcontinues : marker = Marker.continues
  · simp only [if_pos hcontinues]
    exact Reader.steady_ok _
  by_cases hstop : marker = Marker.stop
  · simp only [if_neg hcontinues, if_pos hstop]
    exact Reader.steady_ok _
  simp only [if_neg hcontinues, if_neg hstop]
  split
  · exact (steady_readList_metaIds _).andThen fun _ => Reader.steady_ok _
  · split
    · exact (steady_readList_positions _).andThen fun _ => Reader.steady_ok _
    · exact steady_readList_skip.andThen fun _ => Reader.steady_ok _

/-- A posting is three numbers and then its lists. -/
theorem decode_eq : decode = Reader.andThen Reader.u32 fun document => Reader.andThen Reader.u32
    fun occurrences => Reader.andThen Reader.u32 fun rank =>
      decodeLists { document, occurrences, rank } := by
  funext r
  rw [decode, Reader.andThen]
  rcases r.u32 with ⟨e | document, r₁⟩
  · rfl
  · simp only [Reader.andThen]
    rcases r₁.u32 with ⟨e | occurrences, r₂⟩
    · rfl
    · simp only []
      rcases r₂.u32 with ⟨e | rank, r₃⟩ <;> rfl

/-- A posting is read without a look at what is behind it. -/
theorem steady_decode : Reader.Steady decode := by
  rw [decode_eq]
  exact Reader.steady_u32.andThen fun _ => Reader.steady_u32.andThen fun _ =>
    Reader.steady_u32.andThen fun _ => steady_decodeLists _

/-- Reading postings ends with one that can not be read. -/
theorem readAll_of_error {r r' : Reader} {e : Error} (h : decode r = (.error e, r')) :
    readAll r = [.error e] := by
  rw [readAll]
  split
  · rename_i hr
    rw [h] at hr
    simp only [Prod.mk.injEq, Except.error.injEq] at hr
    rw [hr.1]
  · rename_i hr
    rw [h] at hr
    exact absurd hr (by simp only [Prod.mk.injEq, reduceCtorEq, false_and, not_false_eq_true])

/-- Postings that can not be read are corrupt. -/
theorem readAll_corrupt {r : Reader} {e : Error} (h : .error e ∈ readAll r) :
    ∃ cause, e = .corrupt cause := by
  fun_induction readAll r with
  | case1 r e' r' hr =>
    rcases Except.error.inj (List.mem_singleton.mp h) with rfl
    exact steady_decode.corrupt hr
  | case2 r posting r' hr hlt ih =>
    rcases List.mem_cons.mp h with h | h
    · exact absurd h (by simp)
    · exact ih h
  | case3 => exact absurd (List.mem_singleton.mp h) (by simp)

end Posting

namespace StoredWord

theorem parse_corrupt {entry : Bytes} {e : Error} (h : parse entry = .error e) :
    ∃ cause, e = .corrupt cause := by
  rw [parse] at h
  rcases hword : Reader.text ⟨entry, 0⟩ with ⟨e' | word, r⟩
  · rw [hword] at h
    rcases Except.error.inj h with rfl
    exact Reader.steady_text.corrupt hword
  · rw [hword] at h
    exact absurd h (by simp)

theorem postings_corrupt {entry : StoredWord} {e : Error} (h : entry.postings = .error e) :
    ∃ cause, e = .corrupt cause :=
  Posting.readAll_corrupt (mem_of_collect_error h)

/-- Postings that were cut off can not all be read. -/
theorem collect_cut {postings : List Posting} (hne : postings ≠ []) (h : ∀ p ∈ postings, p.Tidy)
    {part behind : Bytes} (hcut : encodePostings postings = part ++ behind) (hbehind : behind ≠ [])
    (position : Nat) :
    ∃ cause, collect (Posting.readAll ⟨part, position⟩) = .error (.corrupt cause) := by
  induction postings generalizing part position with
  | nil => exact absurd rfl hne
  | cons posting others ih =>
    have hp := h posting List.mem_cons_self
    rcases hread : Posting.decode ⟨part, position⟩ with ⟨e | ⟨read, more⟩, r'⟩
    · -- The cut is in the first posting.
      rcases Posting.steady_decode.corrupt hread with ⟨cause, rfl⟩
      rw [Posting.readAll_of_error hread]
      exact ⟨cause, rfl⟩
    · -- What was read is the first posting, since it is read so from the whole.
      have hwhole := Posting.steady_decode.followed hread behind
      rw [Reader.followed, ← hcut] at hwhole
      rcases others with _ | ⟨next, others⟩
      · -- The last posting leaves nothing, but what was cut off would be left.
        rcases Posting.decode_encode hp true [] position with ⟨position', hencode⟩
        rw [encodePostings] at hwhole
        rw [List.append_nil, hwhole] at hencode
        have hrest := congrArg (fun result => result.2.rest) hencode
        exact absurd (List.append_eq_nil_iff.mp hrest).2 hbehind
      · -- Any other one leaves those behind it, and these were cut off.
        obtain ⟨position', hencode⟩ := Posting.decode_encode hp false
          (encodePostings (next :: others)) position
        rw [encodePostings, hencode] at hwhole
        simp only [Prod.mk.injEq, Except.ok.injEq, Bool.not_false] at hwhole
        rcases hwhole with ⟨⟨rfl, rfl⟩, hrest⟩
        have hrest := congrArg Reader.rest hrest
        obtain ⟨cause, hcause⟩ := ih (by simp) (fun p hp => h p (List.mem_cons_of_mem _ hp))
          hrest r'.position
        rw [Posting.readAll_of_decode hread, if_pos rfl, collect, hcause]
        exact ⟨cause, rfl⟩

/-- The bytes of a word with its postings say where they end. They are read back whatever
    follows them, and no part of them is read as a word with postings. -/
theorem encode_delimited {word : String} (hnul : NulFree word) {postings : List Posting}
    (hne : postings ≠ []) (h : TidyPostings postings) :
    (∀ behind, ∃ stored, parse (encode word postings ++ behind) = .ok stored
      ∧ stored.word = word ∧ stored.postings = .ok postings)
    ∧ ∀ part behind, encode word postings = part ++ behind → behind ≠ [] →
      ∃ cause, (parse part >>= StoredWord.postings) = .error (.corrupt cause) := by
  refine ⟨fun behind => ⟨_, parse_encode hnul postings behind, rfl, ?_⟩,
    fun part behind hcut hbehind => ?_⟩
  · rw [StoredWord.postings, stream_encodePostings hne h.tidy, collect_map_ok]
  · rcases hread : Reader.text ⟨part, 0⟩ with ⟨e | read, r⟩
    · -- The cut is in the word.
      rcases Reader.steady_text.corrupt hread with ⟨cause, rfl⟩
      refine ⟨cause, ?_⟩
      rw [parse, hread]
      rfl
    · -- It is behind the word, and the word is read as it is.
      have hwhole := Reader.steady_text.followed hread behind
      rw [Reader.followed, ← hcut, encode, Reader.text_nulClosed hnul] at hwhole
      have hrest := congrArg (fun result => result.2.rest) hwhole
      rcases collect_cut hne h.tidy hrest hbehind 0 with ⟨cause, hcause⟩
      refine ⟨cause, ?_⟩
      rw [parse, hread]
      exact hcause

/-- A word in two documents, with the largest numbers that there are. -/
theorem encode_delimited_of_two :
    let postings : List Posting := [
      { document := 0, occurrences := 2, rank := 7, metaIds := [0, 4294967295],
        positions := [128, 4294967295] },
      { document := 4294967295, occurrences := 2, positions := [3, 3] }]
    NulFree "café" ∧ postings ≠ [] ∧ TidyPostings postings
      ∧ (∀ behind, ∃ stored, parse (encode "café" postings ++ behind) = .ok stored
        ∧ stored.word = "café" ∧ stored.postings = .ok postings)
      ∧ ∀ part behind, encode "café" postings = part ++ behind → behind ≠ [] →
        ∃ cause, (parse part >>= StoredWord.postings) = .error (.corrupt cause) := by
  intro postings
  have hnul : NulFree "café" := by decide
  have hne : postings ≠ [] := List.cons_ne_nil _ _
  -- Meta ids ascend without two that are the same, where positions may repeat.
  have htidy : TidyPostings postings := by
    refine ⟨fun p hp => ?_, by decide⟩
    rcases List.mem_cons.mp hp with rfl | hp
    · have hnames : ([0, 4294967295] : List UInt32).Pairwise (· < ·) := by decide
      exact ⟨hnames, by decide⟩
    · rw [List.mem_singleton.mp hp]
      exact ⟨List.Pairwise.nil, by decide⟩
  exact ⟨hnul, hne, htidy, encode_delimited hnul hne htidy⟩

end StoredWord

end Concordance
