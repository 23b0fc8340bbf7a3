import Concordance.Posting
import Concordance.Reader

/-!
# Stored Word Entries

The bytes of a word with its postings.

An entry is the word, closed by a NUL, and the postings behind it. A posting is
three numbers, then lists, each introduced by a marker of its own and closed by
`stop`, and finally a byte that says whether another posting follows. Positions
are stored as distances from the one before.

No number begins with the byte of `stop`, so a list can be read without knowing
its length. This also holds for a list with a marker that the reader has never
heard of: it is read and dropped, and so a later writer may add lists.

## Main definitions

* `Posting.encode`, `Posting.decode`: The bytes of a posting.
* `StoredWord`: A stored word and the bytes of its postings.
* `StoredWord.encode`, `StoredWord.parse`: The bytes of an entry.
* `StoredWord.stream`, `StoredWord.postings`: The postings of an entry, up to the
  first that can not be read, and all of them.
-/

namespace Concordance

namespace Marker

/-- Closes a list, and the last posting of a word. -/
def stop : UInt8 := 0x80

/-- Closes a posting that another one follows. -/
def continues : UInt8 := 0x81

/-- Opens the list of meta names. -/
def metaIds : UInt8 := 0x82

/-- Opens the list of positions. -/
def positions : UInt8 := 0x83

end Marker

/-- The values of a computation's steps, or its first error. -/
def collect {α : Type} : List (Except Error α) → Except Error (List α)
  | [] => .ok []
  | .error e :: _ => .error e
  | .ok a :: rest => (collect rest).map (a :: ·)

namespace Posting

/-- The distances between positions, starting from `previous`. -/
def distances (previous : UInt32) : List UInt32 → List UInt32
  | [] => []
  | position :: rest => (position - previous) :: distances position rest

/-- A list under its marker; an empty list is not written. -/
def encodeList (marker : UInt8) (values : List UInt32) : Bytes :=
  if values.isEmpty then []
  else marker :: values.flatMap (fun value => Varint.encode value.toNat) ++ [Marker.stop]

/-- The bytes of a posting, closed as the last one or as one with more to come. -/
def encode (posting : Posting) (last : Bool) : Bytes :=
  Varint.encode posting.document.toNat ++ Varint.encode posting.occurrences.toNat
    ++ Varint.encode posting.rank.toNat
    ++ encodeList Marker.metaIds posting.metaIds
    ++ encodeList Marker.positions (distances 0 posting.positions)
    ++ [if last then Marker.stop else Marker.continues]

/-- Reads the numbers of a list up to its end, and passes each to `step`. -/
def readList {σ : Type} (step : σ → Nat → Except Error σ) (s : σ) (r : Reader) :
    Except Error σ × Reader :=
  match r.peek with
  | .error e => (.error e, r)
  | .ok b =>
    if b = Marker.stop then (.ok s, r.forward 1)
    else
      match h : r.varint with
      | (.error e, r') => (.error e, r')
      | (.ok value, r') =>
        have := Reader.varint_length h
        match step s value with
        | .error e => (.error e, r')
        | .ok s' => readList step s' r'
termination_by r.rest.length

/-- A list of meta names: each value is cut to 32 bits. -/
def metaStep (ids : List UInt32) (value : Nat) : Except Error (List UInt32) :=
  .ok (IdSet.insert (UInt32.ofNat value) ids)

/-- A list of positions: the value is the distance from the position before, and
    the positions read so far are kept the nearest first. -/
def positionStep (state : UInt32 × List UInt32) (value : Nat) :
    Except Error (UInt32 × List UInt32) :=
  let position := state.1.toNat + value
  if position < UInt32.size then .ok (UInt32.ofNat position, UInt32.ofNat position :: state.2)
  else .error (.corrupt .positionOverflow)

/-- A list of an unknown kind: its values mean nothing. -/
def skipStep (_ : Unit) (_ : Nat) : Except Error Unit :=
  .ok ()

/-- A list that was read is gone from what is left, its end at the least. -/
theorem readList_length {σ : Type} {step : σ → Nat → Except Error σ} {s t : σ} {r r' : Reader}
    (h : readList step s r = (.ok t, r')) : r'.rest.length < r.rest.length := by
  fun_induction readList step s r with
  | case1 => simp only [Prod.mk.injEq, reduceCtorEq, false_and] at h
  | case2 s r hp =>
    simp only [Prod.mk.injEq] at h
    obtain ⟨-, rfl⟩ := h
    exact Reader.u8_length (b := Marker.stop) (by simp only [Reader.u8, hp])
  | case3 => simp only [Prod.mk.injEq, reduceCtorEq, false_and] at h
  | case4 => simp only [Prod.mk.injEq, reduceCtorEq, false_and] at h
  | case5 s r b hp hne value r₁ hv hlt s' hs ih => exact Nat.lt_trans (ih h) hlt

/-- Reads the lists of a posting up to the byte that closes it, and says whether
    another posting follows. -/
def decodeLists (posting : Posting) (r : Reader) : Except Error (Posting × Bool) × Reader :=
  match h : r.u8 with
  | (.error e, r') => (.error e, r')
  | (.ok marker, r') =>
    have := Reader.u8_length h
    if marker = Marker.continues then (.ok (posting, true), r')
    else if marker = Marker.stop then (.ok (posting, false), r')
    else if marker = Marker.metaIds then
      match h' : readList metaStep posting.metaIds r' with
      | (.error e, r'') => (.error e, r'')
      | (.ok ids, r'') =>
        have := readList_length h'
        decodeLists { posting with metaIds := ids } r''
    else if marker = Marker.positions then
      match h' : readList positionStep (0, []) r' with
      | (.error e, r'') => (.error e, r'')
      | (.ok (_, read), r'') =>
        have := readList_length h'
        -- Each list of positions begins at zero again, wherever the one before has ended.
        decodeLists { posting with positions := posting.positions ++ read.reverse } r''
    else
      -- The numbers are read for where the list ends.
      match h' : readList skipStep () r' with
      | (.error e, r'') => (.error e, r'')
      | (.ok (), r'') =>
        have := readList_length h'
        decodeLists posting r''
termination_by r.rest.length

/-- Reads a posting, and says whether another one follows. -/
def decode (r : Reader) : Except Error (Posting × Bool) × Reader :=
  match r.u32 with
  | (.error e, r₁) => (.error e, r₁)
  | (.ok document, r₁) =>
    match r₁.u32 with
    | (.error e, r₂) => (.error e, r₂)
    | (.ok occurrences, r₂) =>
      match r₂.u32 with
      | (.error e, r₃) => (.error e, r₃)
      | (.ok rank, r₃) => decodeLists { document, occurrences, rank } r₃

/-- Reading the lists takes at least the closing byte. -/
theorem decodeLists_length {posting p : Posting} {more : Bool} {r r' : Reader}
    (h : decodeLists posting r = (.ok (p, more), r')) : r'.rest.length < r.rest.length := by
  fun_induction decodeLists posting r with
  | case1 => simp only [Prod.mk.injEq, reduceCtorEq, false_and] at h
  | case2 =>
    simp only [Prod.mk.injEq] at h
    obtain ⟨-, rfl⟩ := h
    assumption
  | case3 =>
    simp only [Prod.mk.injEq] at h
    obtain ⟨-, rfl⟩ := h
    assumption
  | case4 => simp only [Prod.mk.injEq, reduceCtorEq, false_and] at h
  | case5 =>
    rename_i ih
    have := ih h
    omega
  | case6 => simp only [Prod.mk.injEq, reduceCtorEq, false_and] at h
  | case7 =>
    rename_i ih
    have := ih h
    omega
  | case8 => simp only [Prod.mk.injEq, reduceCtorEq, false_and] at h
  | case9 =>
    rename_i ih
    have := ih h
    omega

/-- A posting that was read is gone from what is left. -/
theorem decode_length {p : Posting} {more : Bool} {r r' : Reader}
    (h : decode r = (.ok (p, more), r')) : r'.rest.length < r.rest.length := by
  unfold decode at h
  rcases h₁ : r.u32 with ⟨_ | _, r₁⟩
  · simp only [h₁, Prod.mk.injEq, reduceCtorEq, false_and] at h
  rcases h₂ : r₁.u32 with ⟨_ | _, r₂⟩
  · simp only [h₁, h₂, Prod.mk.injEq, reduceCtorEq, false_and] at h
  rcases h₃ : r₂.u32 with ⟨_ | _, r₃⟩
  · simp only [h₁, h₂, h₃, Prod.mk.injEq, reduceCtorEq, false_and] at h
  simp only [h₁, h₂, h₃] at h
  have := Reader.u32_length h₁
  have := Reader.u32_length h₂
  have := Reader.u32_length h₃
  have := decodeLists_length h
  omega

/-- The postings from here on, each as it can be read. Nothing follows an error,
    nor the posting that is closed as the last. -/
def readAll (r : Reader) : List (Except Error Posting) :=
  match h : decode r with
  | (.error e, _) => [.error e]
  | (.ok (posting, more), r') =>
    have := decode_length h
    if more then .ok posting :: readAll r' else [.ok posting]
termination_by r.rest.length

end Posting

/-- A stored word, and the bytes that its postings begin with. -/
structure StoredWord where
  word : String
  body : Bytes
deriving DecidableEq, Repr

namespace StoredWord

/-- The bytes of the postings of a word. -/
def encodePostings : List Posting → Bytes
  | [] => []
  | [posting] => posting.encode true
  | posting :: next :: rest => posting.encode false ++ encodePostings (next :: rest)

/-- The bytes of a word with its postings. -/
def encode (word : String) (postings : List Posting) : Bytes :=
  nulClosed word ++ encodePostings postings

/-- Reads the word of an entry and leaves its postings unread. -/
def parse (entry : Bytes) : Except Error StoredWord :=
  match Reader.text ⟨entry, 0⟩ with
  | (.error e, _) => .error e
  | (.ok word, r) => .ok ⟨word, r.rest⟩

/-- The order of words in an index is that of their bytes. -/
def key (entry : StoredWord) : Bytes :=
  Utf8.bytes entry.word

/-- The postings of an entry, each as it can be read. -/
def stream (entry : StoredWord) : List (Except Error Posting) :=
  Posting.readAll ⟨entry.body, 0⟩

/-- All postings of an entry. -/
def postings (entry : StoredWord) : Except Error (List Posting) :=
  collect entry.stream

end StoredWord

end Concordance
