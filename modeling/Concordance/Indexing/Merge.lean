import Concordance.Posting.Codec
import Concordance.Segment
import Concordance.Total

/-!
# Merging

Many sources of words as one.

Each source has its words by ascending bytes, and a cursor stands at the first
one that was not taken yet. At every step the smallest of these words is taken
from all cursors that stand at it, and their postings are put one behind the
other in the order of the sources. Documents have their numbers from the whole
session and sources are in the order in which they were written, so the
postings stay in order. Where two sources share a document, because a run ended
in the middle of it, the two postings become one.

A source need not be what it should be. An entry that can not be read, words out
of order, and documents out of order all end the merge with an error, as soon as
a cursor comes to them.

## Main definitions

* `Cursor`: A source, from the word on that it stands at.
* `WordPostings`: A word with the postings of all sources.
* `Merge.take`: The postings of a word from all sources that are at it.
* `Merge.sources`: All words.

## Theorems

* `take_weight_lt`: A step that takes a word leaves less to do.
-/

namespace Concordance

/-- A word with the postings of all sources. -/
structure WordPostings where
  word : String
  postings : List Posting
deriving DecidableEq, Repr

/-- A source, from the word on that it stands at. The entries behind it are as
    they can be read. -/
structure Cursor where
  entry : StoredWord
  rest : List (Except Error StoredWord)

namespace Merge

/-- The entries of a source up to the first that can not be read or does not
    come after the one before it. -/
def inOrder (previous : Option StoredWord) :
    List (Except Error StoredWord) → List (Except Error StoredWord)
  | [] => []
  | .error e :: _ => [.error e]
  | .ok entry :: rest =>
    match previous with
    | none => .ok entry :: inOrder (some entry) rest
    | some before =>
      -- A word that is there twice is out of order as well.
      if entry.key ≤ before.key then [.error (.corrupt (.wordOrder entry.word before.word))]
      else .ok entry :: inOrder (some entry) rest

/-- The words of a source, as a cursor comes to them. -/
def stream (source : Segment) : List (Except Error StoredWord) :=
  inOrder none (source.entries.map (· >>= StoredWord.parse))

/-- Goes to the next word, if there is one. -/
def forward : List (Except Error StoredWord) → Except Error (Option Cursor)
  | [] => .ok none
  | .error e :: _ => .error e
  | .ok entry :: rest => .ok (some ⟨entry, rest⟩)

/-- Puts a posting behind others, which are given the last one first. -/
def append (read : List Posting) (posting : Posting) : Except Error (List Posting) :=
  match read with
  | [] => .ok [posting]
  | last :: before =>
    -- A run that ended within a document has left a part of it to the next one.
    if last.document = posting.document then .ok (last.extend posting :: before)
    else if posting.document < last.document then
      .error (.corrupt (.documentOrder posting.document.toNat last.document.toNat))
    else .ok (posting :: last :: before)

/-- Puts several postings behind others, each as it can be read. -/
def appendAll (read : List Posting) : List (Except Error Posting) → Except Error (List Posting)
  | [] => .ok read
  | .error e :: _ => .error e
  | .ok posting :: rest =>
    match append read posting with
    | .error e => .error e
    | .ok read => appendAll read rest

/-- The smallest word that a cursor stands at. -/
def smallest : List Cursor → Option StoredWord
  | [] => none
  | cursor :: rest =>
    match smallest rest with
    | none => some cursor.entry
    -- Of two cursors at the same word it is the first one that counts.
    | some entry => if entry.key < cursor.entry.key then some entry else some cursor.entry

/-- Takes a word from all cursors that stand at it: its postings behind those
    that were read before, the last one first, and the cursors afterwards. -/
def take (word : String) (read : List Posting) :
    List Cursor → Except Error (List Posting × List Cursor)
  | [] => .ok (read, [])
  | cursor :: rest =>
    if cursor.entry.word = word then
      match appendAll read cursor.entry.stream with
      | .error e => .error e
      | .ok read =>
        match forward cursor.rest with
        | .error e => .error e
        | .ok next =>
          match take word read rest with
          | .error e => .error e
          | .ok (read, cursors) => .ok (read, next.toList ++ cursors)
    else
      match take word read rest with
      | .error e => .error e
      | .ok (read, cursors) => .ok (read, cursor :: cursors)

/-- How many words cursors have left to come to. -/
def weight (cursors : List Cursor) : Nat :=
  total (fun cursor => cursor.rest.length + 1) cursors

/-- A cursor that has advanced has less to come to. -/
theorem forward_weight {rest : List (Except Error StoredWord)} {next : Option Cursor}
    (h : forward rest = .ok next) : weight next.toList ≤ rest.length := by
  cases rest with
  | nil =>
    simp only [forward, Except.ok.injEq] at h
    subst h
    simp [weight]
  | cons e rest =>
    cases e with
    | error e => simp only [forward, reduceCtorEq] at h
    | ok entry =>
      simp only [forward, Except.ok.injEq] at h
      subst h
      simp [weight]

/-- Taking a word never adds to what is left. -/
theorem take_weight_le {word : String} {cursors cursors' : List Cursor} {read read' : List Posting}
    (h : take word read cursors = .ok (read', cursors')) : weight cursors' ≤ weight cursors := by
  fun_induction take word read cursors generalizing read' cursors' with
  | case1 =>
    simp only [Except.ok.injEq, Prod.mk.injEq] at h
    obtain ⟨-, rfl⟩ := h
    exact Nat.le_refl _
  | case2 | case3 | case4 | case6 => simp only [reduceCtorEq] at h
  | case5 =>
    rename_i hadv _ _ hrest ih
    simp only [Except.ok.injEq, Prod.mk.injEq] at h
    obtain ⟨-, rfl⟩ := h
    have h₁ := forward_weight hadv
    have h₂ := ih hrest
    simp only [weight, total_append, total_cons] at *
    omega
  | case7 =>
    rename_i hrest ih
    simp only [Except.ok.injEq, Prod.mk.injEq] at h
    obtain ⟨-, rfl⟩ := h
    have := ih hrest
    simp only [weight, total_cons] at *
    omega

/-- Taking a word that some cursor stands at leaves less to do. -/
theorem take_weight_lt {word : String} {cursors cursors' : List Cursor} {read read' : List Posting}
    (h : take word read cursors = .ok (read', cursors'))
    (hmem : ∃ cursor ∈ cursors, cursor.entry.word = word) :
    weight cursors' < weight cursors := by
  fun_induction take word read cursors generalizing read' cursors' with
  | case1 => simp at hmem
  | case2 | case3 | case4 | case6 => simp only [reduceCtorEq] at h
  | case5 =>
    rename_i hadv _ _ hrest _
    simp only [Except.ok.injEq, Prod.mk.injEq] at h
    obtain ⟨-, rfl⟩ := h
    have h₁ := forward_weight hadv
    have h₂ := take_weight_le hrest
    simp only [weight, total_append, total_cons] at *
    omega
  | case7 =>
    rename_i hne _ _ hrest ih
    simp only [Except.ok.injEq, Prod.mk.injEq] at h
    obtain ⟨-, rfl⟩ := h
    obtain ⟨cursor, hc, hw⟩ := hmem
    rcases List.mem_cons.mp hc with rfl | hc
    · exact absurd hw hne
    · have := ih hrest ⟨cursor, hc, hw⟩
      simp only [weight, total_cons] at *
      omega

/-- The smallest word is the word of a cursor. -/
theorem smallest_mem {cursors : List Cursor} {entry : StoredWord}
    (h : smallest cursors = some entry) : ∃ cursor ∈ cursors, cursor.entry.word = entry.word := by
  fun_induction smallest cursors with
  | case1 => simp only [reduceCtorEq] at h
  | case2 cursor rest =>
    simp only [Option.some.injEq] at h
    exact ⟨cursor, List.mem_cons_self, by rw [h]⟩
  | case3 cursor rest other _ _ ih =>
    simp only [Option.some.injEq] at h
    obtain ⟨c, hc, hw⟩ := ih (by rw [← h]; assumption)
    exact ⟨c, List.mem_cons_of_mem _ hc, hw⟩
  | case4 cursor rest =>
    simp only [Option.some.injEq] at h
    exact ⟨cursor, List.mem_cons_self, by rw [h]⟩

/-- All words that cursors have left, each with its postings. -/
def all (cursors : List Cursor) : Except Error (List WordPostings) :=
  match hs : smallest cursors with
  | none => .ok []
  | some entry =>
    match ht : take entry.word [] cursors with
    | .error e => .error e
    | .ok (read, cursors') =>
      have := take_weight_lt ht (smallest_mem hs)
      match all cursors' with
      | .error e => .error e
      | .ok rest => .ok (⟨entry.word, read.reverse⟩ :: rest)
termination_by weight cursors

/-- All words of some sources, by ascending bytes, each with the postings of all
    sources. -/
def sources (sources : List Segment) : Except Error (List WordPostings) :=
  match collect (sources.map fun source => forward (stream source)) with
  | .error e => .error e
  | .ok cursors => all (cursors.filterMap id)

end Merge

end Concordance
