import Concordance.Proofs.Guarded.Cursor
import Concordance.Proofs.Posting.Delimited
import Concordance.Proofs.Record.Delimited
import Mathlib.Data.List.Forall2

/-!
# Entries With Every Step Guarded

Decoding the entries of an index, whatever their bytes are.

A record or a meta name is a fixed row of fields, and there is nothing to prove for a row but
that its fields are mirrored. The postings of a word are not so: how long a list is, how many
lists a posting has and how many postings there are is told by the bytes alone. The first two
are loops, and a loop is mirrored if its rounds are, and each of them takes something. The
second is what keeps bytes that never close a list from being read for ever. The postings
themselves are not put together before someone asks for all of them: they come one by one, and
each of them may be the one that is wrong.

Putting the positions together can not overflow, since the sum is looked at before it is used.
So the step of a list is the same here as there.

## Main definitions

* `Guarded.record`, `Guarded.metaName`, `Guarded.plainText`: Entries that are a row of fields.
* `Guarded.readList`, `Guarded.posting`: A list of numbers, and a posting.
* `Guarded.parse`, `Guarded.stream`: A word, and its postings.

## Theorems

* `Guarded.mirrors_readList`, `Guarded.mirrors_posting`: Reads of any length.
* `Guarded.safe_record`, `safe_metaName`, `safe_plainText`, `safe_parse`, `safe_postings`:
  Decoding an entry has no fault.
-/

namespace Concordance

namespace Guarded

/-- A record. -/
def record : Read Record := do
  let directory ← u32
  let name ← text
  let size ← varint
  let words ← u32
  let title ← text
  return { directory, name, size := UInt64.ofNat size, words, title }

/-- A meta name with its id. -/
def metaName : Read (String × UInt32) := do
  let name ← text
  let id ← u32
  return (name, id)

/-- A plain string off the front of its entry. -/
def plainText (entry : Bytes) : Except Error String :=
  match front text entry with
  | .error (.corrupt cause) => .error (.corrupt (.badString cause))
  | outcome => outcome

/-- The next number of a list, or nothing where the list is closed. -/
def listValue : Read (Option Nat) := do
  let b ← peek
  if b = Marker.stop then
    let _ ← u8
    return none
  else
    let value ← varint
    return some value

/-- The numbers of a list up to its end, each passed to `step`. -/
def readList {σ : Type} (step : σ → Nat → Except Error σ) : σ → Read σ :=
  loop fun s => do
    match ← listValue with
    | none => return .inr s
    | some value =>
      let s' ← step s value
      return .inl s'

/-- The lists of a posting up to the byte that closes it. -/
def lists : Posting → Read (Posting × Bool) :=
  loop fun posting => do
    let marker ← u8
    if marker = Marker.continues then return .inr (posting, true)
    else if marker = Marker.stop then return .inr (posting, false)
    else if marker = Marker.metaIds then
      let ids ← readList Posting.metaStep posting.metaIds
      return .inl { posting with metaIds := ids }
    else if marker = Marker.positions then
      let state ← readList Posting.positionStep (0, [])
      return .inl { posting with positions := posting.positions ++ state.2.reverse }
    else
      let _ ← readList Posting.skipStep ()
      return .inl posting

/-- A posting, and whether another one follows. -/
def posting : Read (Posting × Bool) := do
  let document ← u32
  let occurrences ← u32
  let rank ← u32
  lists { document, occurrences, rank }

/-- The postings from the cursor on, each as it can be read. Nothing follows an error, nor the
    posting that is closed as the last. One that takes no bytes would be followed by itself. -/
def stream (c : Cursor) : List (Except Error Posting) :=
  match posting c with
  | .error e => [.error e]
  | .ok ((read, more), c') =>
    if more then
      if c'.left < c.left then .ok read :: stream c' else [.ok read, .error .fault]
    else [.ok read]
termination_by c.left

/-- The word of an entry, with its postings left unread. -/
def parse (entry : Bytes) : Except Error StoredWord := do
  let (word, c) ← text ⟨entry, 0⟩
  let body ← part entry c.position entry.length
  return ⟨word, body⟩

/-- All postings of an entry. -/
def postings (stored : StoredWord) : Except Error (List Posting) :=
  collect (stream ⟨stored.body, 0⟩)

theorem mirrors_record : Mirrors record Record.read :=
  mirrors_u32.andThen fun _ => mirrors_text.andThen fun _ => mirrors_varint.andThen fun _ =>
    mirrors_u32.andThen fun _ => mirrors_text.andThen fun _ => mirrors_pure _

theorem mirrors_metaName : Mirrors metaName MetaName.read :=
  mirrors_text.andThen fun _ => mirrors_u32.andThen fun _ => mirrors_pure _

theorem mirrors_listValue : Mirrors listValue Posting.nextValue := by
  refine mirrors_peek.andThen fun b => ?_
  by_cases hstop : b = Marker.stop
  · simp only [if_pos hstop]
    exact mirrors_u8.andThen fun _ => mirrors_pure _
  · simp only [if_neg hstop]
    exact mirrors_varint.andThen fun _ => mirrors_pure _

section Lists

variable {σ : Type} {step : σ → Nat → Except Error σ}

/-- A list of any length, if its steps only fail on numbers that are wrong. -/
theorem mirrors_readList
    (hstep : ∀ s value e, step s value = .error e → ∃ cause, e = .corrupt cause) (s : σ) :
    Mirrors (readList step s) (Posting.readList step s) := by
  refine .loop (Posting.readList_rounds step) (fun s => mirrors_listValue.andThen fun value => ?_) s
  rcases value with _ | value
  · exact mirrors_pure _
  · exact fun bytes p hsize hp => Safe.agree (.refl (hstep s value)) fun s' _ => .value _ p hp

end Lists

theorem mirrors_metaIds (ids : List UInt32) :
    Mirrors (readList Posting.metaStep ids) (Posting.readList Posting.metaStep ids) :=
  mirrors_readList (fun _ _ _ h => absurd h (by simp [Posting.metaStep])) ids

theorem mirrors_positions (state : UInt32 × List UInt32) :
    Mirrors (readList Posting.positionStep state) (Posting.readList Posting.positionStep state) :=
  mirrors_readList (fun _ _ _ h => Posting.positionStep_corrupt h) state

theorem mirrors_skip :
    Mirrors (readList Posting.skipStep ()) (Posting.readList Posting.skipStep ()) :=
  mirrors_readList (fun _ _ _ h => absurd h (by simp [Posting.skipStep])) ()

/-- However many lists there are. -/
theorem mirrors_lists (posting : Posting) :
    Mirrors (lists posting) (Posting.decodeLists posting) := by
  refine .loop Posting.decodeLists_rounds (fun posting => mirrors_u8.andThen fun marker => ?_)
    posting
  by_cases hcontinues : marker = Marker.continues
  · simp only [if_pos hcontinues]
    exact mirrors_pure _
  by_cases hstop : marker = Marker.stop
  · simp only [if_neg hcontinues, if_pos hstop]
    exact mirrors_pure _
  simp only [if_neg hcontinues, if_neg hstop]
  split
  · exact (mirrors_metaIds _).andThen fun _ => mirrors_pure _
  · split
    · exact (mirrors_positions _).andThen fun _ => mirrors_pure _
    · exact mirrors_skip.andThen fun _ => mirrors_pure _

theorem mirrors_posting : Mirrors posting Posting.decode := by
  rw [Posting.decode_eq]
  exact mirrors_u32.andThen fun _ => mirrors_u32.andThen fun _ => mirrors_u32.andThen fun _ =>
    mirrors_lists _

/-- What comes of a row of results that come to the same. -/
theorem safe_collect {α : Type} {guarded plain : List (Except Error α)}
    (h : List.Forall₂ Safe guarded plain) : Safe (collect guarded) (collect plain) := by
  induction h with
  | nil => exact .value []
  | cons hfirst _ ih =>
    cases hfirst with
    | value a => exact ih.map (a :: ·)
    | corrupt cause => exact .corrupt cause

variable {entry : Bytes}

/-- The postings of an entry are gone through without a fault. -/
theorem safe_stream {bytes : Bytes} (hsize : bytes.length < UInt64.size) {p : Nat}
    (hp : p ≤ bytes.length) :
    List.Forall₂ Safe (stream ⟨bytes, p⟩) (Posting.readAll ⟨bytes.drop p, p⟩) := by
  -- On the bytes left, of which every posting takes some.
  induction hleft : bytes.length - p using Nat.strongRecOn generalizing p with
  | ind left ih =>
    subst hleft
    have hagree := mirrors_posting bytes p hsize hp
    generalize hposting : posting ⟨bytes, p⟩ = outcome at hagree
    generalize hread : Posting.decode ⟨bytes.drop p, p⟩ = outcome' at hagree
    cases hagree with
    | corrupt cause r =>
      rw [stream, hposting, Posting.readAll_of_error hread]
      exact .cons (.corrupt cause) .nil
    | value next q inside =>
      rcases next with ⟨read, more⟩
      rw [stream, hposting, Posting.readAll_of_decode hread]
      by_cases hmore : more = true
      · have hless := Posting.decode_length hread
        rw [List.length_drop, List.length_drop] at hless
        simp only [if_pos hmore]
        change List.Forall₂ Safe (if bytes.length - q < bytes.length - p then _ else _) _
        rw [if_pos hless]
        exact .cons (.value read) (ih _ hless inside rfl)
      · simp only [if_neg hmore]
        exact .cons (.value read) .nil

theorem safe_parse (hsize : entry.length < UInt64.size) :
    Safe (parse entry) (StoredWord.parse entry) := by
  have hagree := mirrors_text entry 0 hsize (Nat.zero_le _)
  rw [List.drop_zero] at hagree
  unfold parse StoredWord.parse
  generalize text ⟨entry, 0⟩ = outcome at hagree ⊢
  generalize Reader.text ⟨entry, 0⟩ = outcome' at hagree ⊢
  cases hagree with
  | corrupt cause r => exact .corrupt cause
  | value word q inside =>
    -- The word has stopped inside the entry, and its postings are what is left.
    change Safe (part entry q entry.length >>= fun body => .ok (⟨word, body⟩ : StoredWord)) _
    rw [part_eq inside (Nat.le_refl _), List.take_length]
    exact .value _

/-- What is left behind the word of an entry is no more than the entry. -/
theorem length_of_parse (hsize : entry.length < UInt64.size) {stored : StoredWord}
    (h : StoredWord.parse entry = .ok stored) : stored.body.length ≤ entry.length := by
  have hagree := mirrors_text entry 0 hsize (Nat.zero_le _)
  rw [List.drop_zero] at hagree
  unfold StoredWord.parse at h
  generalize text ⟨entry, 0⟩ = outcome at hagree
  generalize Reader.text ⟨entry, 0⟩ = outcome' at hagree h
  cases hagree with
  | corrupt cause r => exact absurd h (by simp)
  | value word q inside =>
    rw [← Except.ok.inj h, List.length_drop]
    exact Nat.sub_le _ _

theorem safe_postings {stored : StoredWord} (hsize : stored.body.length < UInt64.size) :
    Safe (postings stored) stored.postings := by
  have hstream := safe_stream hsize (Nat.zero_le _)
  rw [List.drop_zero] at hstream
  exact safe_collect hstream

theorem safe_record (hsize : entry.length < UInt64.size) :
    Safe (front record entry) (Record.decode entry) := by
  rw [Record.decode_eq]
  exact mirrors_record.safe hsize

theorem safe_metaName (hsize : entry.length < UInt64.size) :
    Safe (front metaName entry) (MetaName.decode entry) := by
  rw [MetaName.decode_eq]
  exact mirrors_metaName.safe hsize

theorem safe_plainText (hsize : entry.length < UInt64.size) :
    Safe (plainText entry) (decodeText entry) := by
  have hsafe := mirrors_text.safe hsize
  unfold plainText decodeText
  generalize front text entry = outcome at hsafe
  generalize Reader.text ⟨entry, 0⟩ = outcome' at hsafe
  rcases outcome' with ⟨e | read, r⟩
  · cases hsafe with
    | corrupt cause => exact .corrupt _
  · cases hsafe with
    | value => exact .value read

end Guarded

end Concordance
