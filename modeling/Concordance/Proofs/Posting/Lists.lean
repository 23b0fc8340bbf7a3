import Concordance.Proofs.Posting.Anything
import Concordance.Proofs.Varint.Numeral

/-!
# The Lists of a Posting

What stands in the bytes of a posting, and which ids are stored in it.

After its three numbers a posting has any number of lists, in any order, and more than one of a
kind if need be. `Posting.Lays` says so about bytes, with no word about a reader. The byte that
closes a list can begin a number as well, with a zero digit, and in a list it never does: where a
list may close, it closes. This is all that it takes for bytes to be laid out in one way only
(`Rows.unique`), and so it makes sense to speak of the ids that are stored in them.

A reader goes through the bytes in just this way. The ids that it ends up with are those under
the marker for ids, in whichever list and at whichever place, each cut to 32 bits.

## Main definitions

* `Leads`: Bytes that begin with a number.
* `Row`, `Rows`: Bytes that begin with the numbers of a list, and with lists.
* `Posting.Lays`: Bytes that begin with a posting.
* `Posting.Stores`: An id that is stored in the posting that bytes begin with.

## Theorems

* `Rows.unique`: Bytes are laid out in one way.
* `Posting.exists_row_of_readList`, `Posting.exists_rows_of_decodeLists`: What a reader goes
  through.
* `Posting.mem_metaIds_iff_stores`: The ids of a posting that was read are those stored in it.
-/

namespace Concordance

/-- Bytes that begin with a number, and what comes behind it. -/
def Leads (bytes : Bytes) (value : Nat) (rest : Bytes) : Prop :=
  ∃ used, Varint.Numeral bytes value used ∧ rest = bytes.drop used

/-- Bytes that begin with numbers and then close a list, and what comes behind. -/
inductive Row : Bytes → List Nat → Bytes → Prop
  | close (rest : Bytes) : Row (Marker.stop :: rest) [] rest
  | value {bytes : Bytes} {value : Nat} {behind : Bytes} {values : List Nat} {rest : Bytes}
    (opens : bytes.head? ≠ some Marker.stop) (leads : Leads bytes value behind)
    (row : Row behind values rest) : Row bytes (value :: values) rest

/-- A list as it is stored: what it is a list of, and its numbers. -/
structure StoredList where
  marker : UInt8
  values : List Nat
deriving DecidableEq, Repr

/-- Bytes that begin with lists and then close a posting, and what comes behind. -/
inductive Rows : Bytes → List StoredList → Bytes → Prop
  | close {marker : UInt8} (closes : marker = Marker.stop ∨ marker = Marker.continues)
    (rest : Bytes) : Rows (marker :: rest) [] rest
  | list {marker : UInt8} {bytes : Bytes} {values : List Nat} {behind : Bytes}
    {lists : List StoredList} {rest : Bytes}
    (opens : ¬ (marker = Marker.stop ∨ marker = Marker.continues))
    (row : Row bytes values behind) (rows : Rows behind lists rest) :
    Rows (marker :: bytes) (⟨marker, values⟩ :: lists) rest

/-- There is one number that bytes begin with. -/
theorem Leads.unique {bytes rest rest' : Bytes} {value value' : Nat} (h : Leads bytes value rest)
    (h' : Leads bytes value' rest') : value = value' ∧ rest = rest' := by
  rcases h with ⟨used, hnumeral, rfl⟩
  rcases h' with ⟨used', hnumeral', rfl⟩
  have hdecode := (Varint.decode_iff_numeral.mpr hnumeral).symm.trans
    (Varint.decode_iff_numeral.mpr hnumeral')
  rcases Prod.mk.inj (Except.ok.inj hdecode) with ⟨rfl, rfl⟩
  exact ⟨rfl, rfl⟩

/-- There is one row of numbers. -/
theorem Row.unique {bytes rest rest' : Bytes} {values values' : List Nat}
    (h : Row bytes values rest) (h' : Row bytes values' rest') :
    values = values' ∧ rest = rest' := by
  induction h generalizing values' rest' with
  | close rest =>
    cases h' with
    | close => exact ⟨rfl, rfl⟩
    | value opens leads row => exact absurd rfl opens
  | value opens leads row ih =>
    cases h' with
    | close => exact absurd rfl opens
    | value opens' leads' row' =>
      rcases leads.unique leads' with ⟨rfl, rfl⟩
      rcases ih row' with ⟨rfl, rfl⟩
      exact ⟨rfl, rfl⟩

/-- Bytes are laid out in one way. -/
theorem Rows.unique {bytes rest rest' : Bytes} {lists lists' : List StoredList}
    (h : Rows bytes lists rest) (h' : Rows bytes lists' rest') :
    lists = lists' ∧ rest = rest' := by
  induction h generalizing lists' rest' with
  | close closes rest =>
    cases h' with
    | close closes' => exact ⟨rfl, rfl⟩
    | list opens row rows => exact absurd closes opens
  | list opens row rows ih =>
    cases h' with
    | close closes => exact absurd closes opens
    | list opens' row' rows' =>
      rcases row.unique row' with ⟨rfl, rfl⟩
      rcases ih rows' with ⟨rfl, rfl⟩
      exact ⟨rfl, rfl⟩

namespace Posting

/-- Bytes that begin with a posting: three numbers, and then lists. -/
def Lays (bytes : Bytes) (lists : List StoredList) (rest : Bytes) : Prop :=
  ∃ document occurrences rank behind₁ behind₂ behind₃, Leads bytes document behind₁
    ∧ Leads behind₁ occurrences behind₂ ∧ Leads behind₂ rank behind₃
    ∧ Rows behind₃ lists rest

theorem Lays.unique {bytes rest rest' : Bytes} {lists lists' : List StoredList}
    (h : Lays bytes lists rest) (h' : Lays bytes lists' rest') : lists = lists' := by
  obtain ⟨_, _, _, _, _, _, hdocument, hoccurrences, hrank, hrows⟩ := h
  obtain ⟨_, _, _, _, _, _, hdocument', hoccurrences', hrank', hrows'⟩ := h'
  rcases hdocument.unique hdocument' with ⟨-, rfl⟩
  rcases hoccurrences.unique hoccurrences' with ⟨-, rfl⟩
  rcases hrank.unique hrank' with ⟨-, rfl⟩
  exact (hrows.unique hrows').1

/-- An id is stored in the posting that bytes begin with: it is in some list of ids, as a number
    that is cut to 32 bits. -/
def Stores (bytes : Bytes) (id : UInt32) : Prop :=
  ∃ lists rest, Lays bytes lists rest ∧ ∃ list ∈ lists, list.marker = Marker.metaIds
    ∧ ∃ value ∈ list.values, UInt32.ofNat value = id

/-- The byte that a reader has in front of it, and what comes behind. -/
theorem rest_eq_of_peek {r : Reader} {b : UInt8} (h : r.peek = .ok b) :
    r.rest = b :: (r.forward 1).rest := by
  rw [Reader.peek] at h
  split at h
  · simp only [reduceCtorEq] at h
  · rename_i first behind hrest
    rw [← Except.ok.inj h, Reader.forward, hrest, List.drop_one, List.tail_cons]

theorem rest_eq_of_u8 {r r' : Reader} {b : UInt8} (h : r.u8 = (.ok b, r')) :
    r.rest = b :: r'.rest := by
  rw [Reader.u8] at h
  rcases hpeek : r.peek with e | first
  · simp only [hpeek, Prod.mk.injEq, reduceCtorEq, false_and] at h
  · simp only [hpeek, Prod.mk.injEq, Except.ok.injEq] at h
    rcases h with ⟨rfl, rfl⟩
    exact rest_eq_of_peek hpeek

theorem leads_of_varint {r r' : Reader} {value : Nat} (h : r.varint = (.ok value, r')) :
    Leads r.rest value r'.rest := by
  rw [Reader.varint] at h
  rcases hdecode : Varint.decode r.rest with e | ⟨v, used⟩
  · simp only [hdecode, Prod.mk.injEq, reduceCtorEq, false_and] at h
  · simp only [hdecode, Prod.mk.injEq, Except.ok.injEq] at h
    rcases h with ⟨rfl, rfl⟩
    exact ⟨used, Varint.decode_iff_numeral.mp hdecode, rfl⟩

theorem leads_of_u32 {r r' : Reader} {value : UInt32} (h : r.u32 = (.ok value, r')) :
    ∃ n, Leads r.rest n r'.rest := by
  rw [Reader.u32] at h
  rcases hread : r.varint with ⟨e | n, r₁⟩
  · simp only [hread, Prod.mk.injEq, reduceCtorEq, false_and] at h
  · simp only [hread] at h
    split at h
    · rcases Prod.mk.inj h with ⟨-, rfl⟩
      exact ⟨n, leads_of_varint hread⟩
    · simp only [Prod.mk.injEq, reduceCtorEq, false_and] at h

section ReadList

variable {σ : Type} {step : σ → Nat → Except Error σ}

/-- A list that was read is a row of numbers, and each of them was passed on. -/
theorem exists_row_of_readList {s t : σ} {r r' : Reader} (h : readList step s r = (.ok t, r')) :
    ∃ values, Row r.rest values r'.rest ∧ values.foldlM step s = .ok t := by
  fun_induction readList step s r with
  | case1 => simp only [Prod.mk.injEq, reduceCtorEq, false_and] at h
  | case2 s r hp =>
    rcases Prod.mk.inj h with ⟨ht, rfl⟩
    refine ⟨[], ?_, ht⟩
    rw [rest_eq_of_peek hp]
    exact Row.close _
  | case3 => simp only [Prod.mk.injEq, reduceCtorEq, false_and] at h
  | case4 => simp only [Prod.mk.injEq, reduceCtorEq, false_and] at h
  -- A number is read only where no list ends, so that its first byte is not the one that ends it.
  | case5 s r b hp hne value r₁ hv hlt s' hs ih =>
    rcases ih h with ⟨values, hrow, hfold⟩
    refine ⟨value :: values, Row.value ?_ (leads_of_varint hv) hrow, ?_⟩
    · rw [rest_eq_of_peek hp]
      exact fun heq => hne (Option.some.inj heq)
    · rw [List.foldlM_cons, hs]
      exact hfold

end ReadList

/-- The ids among some lists. -/
def idsOf (lists : List StoredList) : List UInt32 :=
  lists.flatMap fun list =>
    if list.marker = Marker.metaIds then list.values.map UInt32.ofNat else []

theorem mem_idsOf {lists : List StoredList} {id : UInt32} :
    id ∈ idsOf lists ↔ ∃ list ∈ lists, list.marker = Marker.metaIds
      ∧ ∃ value ∈ list.values, UInt32.ofNat value = id := by
  rw [idsOf, List.mem_flatMap]
  refine exists_congr fun list => and_congr_right fun _ => ?_
  split
  · rename_i hmarker
    rw [List.mem_map, and_iff_right hmarker]
  · rename_i hmarker
    exact ⟨fun h => absurd h List.not_mem_nil, fun h => absurd h.1 hmarker⟩

/-- The numbers of a list of ids are put into the set, each cut to 32 bits. -/
theorem foldlM_metaStep_eq (values : List Nat) (set : List UInt32) :
    values.foldlM metaStep set = .ok (IdSet.union set (values.map UInt32.ofNat)) := by
  induction values generalizing set with
  | nil => rfl
  | cons value values ih =>
    rw [List.foldlM_cons, metaStep]
    exact ih (IdSet.insert (UInt32.ofNat value) set)

theorem idsOf_metaIds (values : List Nat) (lists : List StoredList) :
    idsOf (⟨Marker.metaIds, values⟩ :: lists) = values.map UInt32.ofNat ++ idsOf lists := by
  rw [idsOf, List.flatMap_cons, if_pos rfl, idsOf]

theorem idsOf_of_ne {marker : UInt8} (h : ¬ marker = Marker.metaIds) (values : List Nat)
    (lists : List StoredList) : idsOf (⟨marker, values⟩ :: lists) = idsOf lists := by
  rw [idsOf, List.flatMap_cons, if_neg h, List.nil_append, idsOf]

/-- Lists that were read are there, and the ids among them were put into the set. -/
theorem exists_rows_of_decodeLists {posting read : Posting} {more : Bool} {r r' : Reader}
    (h : decodeLists posting r = (.ok (read, more), r')) :
    ∃ lists, Rows r.rest lists r'.rest
      ∧ read.metaIds = IdSet.union posting.metaIds (idsOf lists) := by
  fun_induction decodeLists posting r with
  | case1 | case4 | case6 | case8 => simp only [Prod.mk.injEq, reduceCtorEq, false_and] at h
  | case2 posting r r₁ hread =>
    simp only [Prod.mk.injEq, Except.ok.injEq] at h
    rcases h with ⟨⟨rfl, -⟩, rfl⟩
    rw [rest_eq_of_u8 hread]
    exact ⟨[], Rows.close (Or.inr rfl) _, rfl⟩
  | case3 posting r r₁ hread =>
    simp only [Prod.mk.injEq, Except.ok.injEq] at h
    rcases h with ⟨⟨rfl, -⟩, rfl⟩
    rw [rest_eq_of_u8 hread]
    exact ⟨[], Rows.close (Or.inl rfl) _, rfl⟩
  | case5 posting r₁ r₂ ids r₃ hread =>
    rename_i hmarker _ _ _ ih
    rcases ih h with ⟨lists, hrows, hids⟩
    rcases exists_row_of_readList hread with ⟨values, hrow, hfold⟩
    rw [foldlM_metaStep_eq, Except.ok.injEq] at hfold
    refine ⟨⟨Marker.metaIds, values⟩ :: lists, ?_, ?_⟩
    · rw [rest_eq_of_u8 hmarker]
      exact Rows.list (by decide) hrow hrows
    · -- Its ids were put in before those of the lists behind it.
      rw [hids, ← hfold, idsOf_metaIds, IdSet.union, IdSet.union, IdSet.union, List.foldl_append]
  | case7 =>
    rename_i hread _ hmarker _ _ _ _ ih
    rcases ih h with ⟨lists, hrows, hids⟩
    rcases exists_row_of_readList hread with ⟨values, hrow, -⟩
    refine ⟨⟨Marker.positions, values⟩ :: lists, ?_, ?_⟩
    · rw [rest_eq_of_u8 hmarker]
      exact Rows.list (by decide) hrow hrows
    · rw [hids, idsOf_of_ne (by decide)]
  -- A list with any other marker is read over, and has no ids.
  | case9 posting r marker behind =>
    rename_i hmarker _ hcontinues hstop hmeta _ _ hread _ ih
    rcases ih h with ⟨lists, hrows, hids⟩
    rcases exists_row_of_readList hread with ⟨values, hrow, -⟩
    refine ⟨⟨marker, values⟩ :: lists, ?_, ?_⟩
    · rw [rest_eq_of_u8 hmarker]
      exact Rows.list (not_or.mpr ⟨hstop, hcontinues⟩) hrow hrows
    · rw [hids, idsOf_of_ne hmeta]

/-- A posting that was read is there, and its ids are those of its lists. -/
theorem exists_lists_of_decode {read : Posting} {more : Bool} {r r' : Reader}
    (h : decode r = (.ok (read, more), r')) :
    ∃ lists, Lays r.rest lists r'.rest ∧ read.metaIds = IdSet.union [] (idsOf lists) := by
  rw [decode_eq] at h
  rcases Reader.exists_of_andThen h with ⟨document, r₁, hdocument, h⟩
  rcases Reader.exists_of_andThen h with ⟨occurrences, r₂, hoccurrences, h⟩
  rcases Reader.exists_of_andThen h with ⟨rank, r₃, hrank, h⟩
  rcases leads_of_u32 hdocument with ⟨_, hdocument⟩
  rcases leads_of_u32 hoccurrences with ⟨_, hoccurrences⟩
  rcases leads_of_u32 hrank with ⟨_, hrank⟩
  rcases exists_rows_of_decodeLists h with ⟨lists, hrows, hids⟩
  exact ⟨lists, ⟨_, _, _, _, _, _, hdocument, hoccurrences, hrank, hrows⟩, hids⟩

/-- The ids of a posting that was read are those that are stored in it. -/
theorem mem_metaIds_iff_stores {read : Posting} {more : Bool} {r r' : Reader}
    (h : decode r = (.ok (read, more), r')) {id : UInt32} :
    id ∈ read.metaIds ↔ Stores r.rest id := by
  rcases exists_lists_of_decode h with ⟨lists, hlays, hids⟩
  rw [hids, IdSet.mem_union, or_iff_right List.not_mem_nil, mem_idsOf]
  constructor
  · exact fun hmem => ⟨lists, _, hlays, hmem⟩
  · -- There are no other lists that could be there.
    rintro ⟨lists', rest, hlays', hmem⟩
    rw [hlays.unique hlays']
    exact hmem

end Posting

end Concordance
