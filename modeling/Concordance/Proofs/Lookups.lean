import Concordance.Proofs.Decoding
import Concordance.Proofs.Segment
import Concordance.Proofs.StopWords
import Mathlib.Data.List.TakeWhile

/-!
# Lookups in an Index

What an index says about a word, in terms of the lists that it was written from.

An entry is found by what it has before its first NUL, which is all of a text only if the
text has no NUL. So a stop word with a NUL in it is stored, but it is found by its front
part, and stands for that. The keys are in order all the same, since a NUL comes before
every other byte, and cutting at it keeps the order.

## Main definitions

* `storedKey`: The bytes that a text is found by.

## Theorems

* `Volume.hasKeys_stopWords`, `hasKeys_metaNames`, `hasKeys_words`: The keys of an index.
* `Volume.isStopWord_eq`: Whether a word is a stop word can be had for every word.
* `Volume.placeOf_eq`, `Volume.wordsWithPrefix_eq`: Words are found at their places.
* `Volume.nameId_eq`: Names are found if none has a NUL.
-/

namespace Concordance

/-- The bytes that a text is found by: those before its first NUL. -/
def storedKey (text : String) : Bytes :=
  (Utf8.bytes text).takeWhile fun b => b != 0

theorem storedKey_of_nulFree {text : String} (h : NulFree text) :
    storedKey text = Utf8.bytes text := by
  refine List.takeWhile_eq_self_iff.mpr fun b hb => bne_iff_ne.mpr ?_
  rintro rfl
  exact h.zero_notMem hb

/-- Cutting bytes at the first NUL keeps their order. -/
theorem cut_le_cut : ∀ {a b : Bytes}, a ≤ b →
    (a.takeWhile fun b => b != 0) ≤ b.takeWhile fun b => b != 0
  | [], _, _ => List.nil_le _
  | x :: a, [], h => absurd (List.nil_lt_cons x a) h
  | x :: a, y :: b, h => by
    have hle : ¬ (y < x ∨ y = x ∧ b < a) := fun hlt => h (List.cons_lt_cons_iff.mpr hlt)
    rw [not_or, not_and] at hle
    by_cases hx : x = 0
    · rw [hx, List.takeWhile_cons_of_neg (by decide)]
      exact List.nil_le _
    · -- A byte that is not less than another one is not zero either.
      have hy : y ≠ 0 := by
        rintro rfl
        have hpos : ¬ x ≤ 0 := fun hzero => hx (UInt8.le_antisymm hzero (UInt8.zero_le))
        exact hle.1 (UInt8.not_le.mp hpos)
      rw [List.takeWhile_cons_of_pos (by rw [bne_iff_ne]; exact hx),
        List.takeWhile_cons_of_pos (by rw [bne_iff_ne]; exact hy)]
      intro hlt
      rcases List.cons_lt_cons_iff.mp hlt with hless | ⟨rfl, hless⟩
      · exact hle.1 hless
      · exact cut_le_cut (hle.2 rfl) hless

/-- The key of an entry is what comes before its first NUL. -/
theorem untilNul_closed (bytes rest : Bytes) :
    untilNul (bytes ++ 0 :: rest) = .ok (bytes.takeWhile fun b => b != 0) := by
  have hmem : (bytes ++ 0 :: rest).contains (0 : UInt8) = true := by
    rw [List.contains_iff_mem]
    exact List.mem_append_right _ List.mem_cons_self
  rw [untilNul, if_pos hmem]
  clear hmem
  refine congrArg Except.ok ?_
  induction bytes with
  | nil => rfl
  | cons b bytes ih => rw [List.cons_append, List.takeWhile_cons, List.takeWhile_cons, ih]

/-- Entries are read back one by one, by a reader that stops by itself. -/
theorem Segment.read_of_entries {α β : Type} {segment : Segment} {as : List α}
    {encode : α → Bytes} {decode : Bytes → Except Error β} {value : α → β} {behind : Bytes}
    (h : ∀ a ∈ as, ∀ rest, decode (encode a ++ rest) = .ok (value a))
    (hentries : segment.entries = (followedBy behind (as.map encode)).map .ok) :
    segment.size = as.length
      ∧ ∀ i (hi : i < as.length), (segment.get i >>= decode) = .ok (value as[i]) := by
  have hread : (List.range segment.size).map (fun i => segment.get i >>= decode)
      = as.map fun a => .ok (value a) := by
    calc (List.range segment.size).map (fun i => segment.get i >>= decode)
        = segment.entries.map (· >>= decode) := by
          rw [Segment.entries, List.map_map]
          rfl
      _ = (followedBy behind (as.map encode)).map decode := by
          rw [hentries, List.map_map]
          rfl
      _ = as.map fun a => .ok (value a) := map_followedBy encode decode value h behind
  -- All entries are read at once, and the place of one is its place among all.
  have hsize : segment.size = as.length := by
    have hlength := congrArg List.length hread
    rw [List.length_map, List.length_map, List.length_range] at hlength
    exact hlength
  refine ⟨hsize, fun i hi => ?_⟩
  have hget := congrArg (·[i]?) hread
  simp only [List.getElem?_map, List.getElem?_range (hsize ▸ hi), List.getElem?_eq_getElem hi,
    Option.map_some, Option.some.injEq] at hget
  exact hget

/-- Entries have the keys that they were stored with, whatever comes behind them. -/
theorem Segment.hasKeys_of_entries {α : Type} {segment : Segment} {as : List α}
    {encode : α → Bytes} {key : α → Bytes} {behind : Bytes}
    (h : ∀ a ∈ as, ∀ rest, untilNul (encode a ++ rest) = .ok (key a))
    (hentries : segment.entries = (followedBy behind (as.map encode)).map .ok) :
    segment.HasKeys (as.map key) := by
  rcases Segment.read_of_entries h hentries with ⟨hsize, hkey⟩
  refine ⟨by rw [hsize, List.length_map], fun i hi => ?_⟩
  rw [List.length_map] at hi
  rw [List.getElem_map]
  exact hkey i hi

namespace Volume

variable {volume : Volume} {index : Index}

theorem hasKeys_stopWords (hsize : volume.bytes.length < UInt64.size)
    (hopen : Index.open? volume.bytes.toArray = .ok index) :
    (index.segment .stopWords).HasKeys (volume.stopWords.map storedKey) := by
  rcases volume.entries_of_open hsize hopen .stopWords with ⟨behind, hentries⟩
  refine Segment.hasKeys_of_entries (fun word _ rest => ?_) hentries
  rw [nulClosed, List.append_assoc, List.singleton_append]
  exact untilNul_closed _ _

theorem hasKeys_metaNames (hsize : volume.bytes.length < UInt64.size)
    (hopen : Index.open? volume.bytes.toArray = .ok index) :
    (index.segment .metaNames).HasKeys (volume.metaNames.map fun name => storedKey name.1) := by
  rcases volume.entries_of_open hsize hopen .metaNames with ⟨behind, hentries⟩
  refine Segment.hasKeys_of_entries (fun (name, id) _ rest => ?_) hentries
  show untilNul (nulClosed name ++ Varint.encode id.toNat ++ rest) = _
  rw [nulClosed, List.append_assoc, List.append_assoc, List.singleton_append]
  exact untilNul_closed _ _

theorem hasKeys_words (hsize : volume.bytes.length < UInt64.size)
    (hopen : Index.open? volume.bytes.toArray = .ok index) (hstorable : volume.words.Storable) :
    index.words.HasKeys (volume.words.map Prod.fst) := by
  rcases volume.entries_of_open hsize hopen .words with ⟨behind, hentries⟩
  refine Segment.hasKeys_of_entries (fun e he rest => ?_) hentries
  rcases hstorable.keys e he with ⟨word, hnul, hkey⟩
  rw [List.append_assoc, List.cons_append, ← hkey]
  exact untilNul_append hnul.zero_notMem _

variable {stops : StopWords} {words : List WordPostings}

/-- Whether a word is a stop word can be had for every word. -/
theorem isStopWord_eq (hsize : volume.bytes.length < UInt64.size)
    (hopen : Index.open? volume.bytes.toArray = .ok index)
    (hstops : volume.stopWords = stops.sorted)
    (word : String) :
    index.isStopWord word = .ok (stops.words.any fun v => storedKey v == Utf8.bytes word) := by
  have hsorted : (volume.stopWords.map storedKey).Pairwise (· ≤ ·) := by
    -- They were sorted by all of their bytes.
    rw [hstops]
    refine List.pairwise_map.mpr ((List.pairwise_mergeSort storedBefore_trans storedBefore_total
      stops.words).imp fun {a b} hab => ?_)
    rw [StopWords.storedBefore, decide_eq_true_eq] at hab
    exact cut_le_cut hab
  rw [Index.isStopWord, (hasKeys_stopWords hsize hopen).find hsorted]
  refine congrArg Except.ok ?_
  rw [Bool.eq_iff_iff, List.isSome_idxOf?, List.any_eq_true, List.mem_map, hstops]
  simp only [beq_iff_eq, StopWords.sorted, List.mem_mergeSort]

/-- A word is found at its place. -/
theorem placeOf_eq (hsize : volume.bytes.length < UInt64.size)
    (hopen : Index.open? volume.bytes.toArray = .ok index) (hstorable : volume.words.Storable)
    (hproper : volume.words.Proper) (hwords : volume.words = WordPostings.table words)
    (word : String) :
    index.placeOf word = .ok (words.findIdx? fun entry => entry.word == word) := by
  have hsorted : (volume.words.map Prod.fst).Pairwise (· ≤ ·) :=
    List.pairwise_map.mpr (hproper.ascend.imp fun hab => List.le_of_lt hab)
  have hsame : (fun entry : WordPostings => Utf8.bytes entry.word == Utf8.bytes word)
      = fun entry => entry.word == word := by
    funext entry
    rw [Bool.eq_iff_iff, beq_iff_eq, beq_iff_eq]
    exact ⟨fun h => Utf8.bytes_injective h, congrArg Utf8.bytes⟩
  rw [Index.placeOf, (hasKeys_words hsize hopen hstorable).find hsorted, hwords,
    WordPostings.table, List.map_map, List.idxOf?, List.findIdx?_map]
  exact congrArg (fun test => Except.ok (words.findIdx? test)) hsame

/-- The words that begin alike are found together. -/
theorem wordsWithPrefix_eq (hsize : volume.bytes.length < UInt64.size)
    (hopen : Index.open? volume.bytes.toArray = .ok index) (hstorable : volume.words.Storable)
    (hproper : volume.words.Proper) (hwords : volume.words = WordPostings.table words)
    (lead : String) :
    ∃ start stop, index.wordsWithPrefix lead = .ok (start, stop)
      ∧ (words.drop start).take (stop - start)
        = words.filter fun entry => (Utf8.bytes lead).isPrefixOf (Utf8.bytes entry.word) := by
  have hsorted : (volume.words.map Prod.fst).Pairwise (· ≤ ·) :=
    List.pairwise_map.mpr (hproper.ascend.imp fun hab => List.le_of_lt hab)
  obtain ⟨start, stop, hrange, hle, hstart, hstop⟩ :=
    (hasKeys_words hsize hopen hstorable).leadRange hsorted (Utf8.bytes lead)
  rw [hwords, WordPostings.table, List.map_map] at hstart hstop
  refine ⟨start, stop, hrange, ?_⟩
  rw [hstart.of_map.slice_eq hstop.of_map hle]
  refine List.filter_congr fun entry _ => ?_
  -- A front part that is neither less nor more than the lead is the lead.
  rw [Bool.eq_iff_iff, List.isPrefixOf_iff_prefix, List.prefix_iff_eq_take, Bool.and_eq_true,
    Bool.not_eq_true', decide_eq_false_iff_not, decide_eq_true_eq]
  exact ⟨fun hboth => List.le_antisymm hboth.1 hboth.2,
    fun heq => ⟨heq ▸ List.le_refl _, heq ▸ List.le_refl _⟩⟩

/-- A name is found with its id, if no name has a NUL. -/
theorem nameId_eq (hsize : volume.bytes.length < UInt64.size)
    (hopen : Index.open? volume.bytes.toArray = .ok index)
    (hnul : ∀ name ∈ volume.metaNames, NulFree name.1)
    (hsorted : volume.metaNames.Pairwise fun a b => Utf8.bytes a.1 ≤ Utf8.bytes b.1)
    (name : String) : index.nameId name = .ok (volume.metaNames.lookup name) := by
  have hkeys : volume.metaNames.map (fun name => storedKey name.1)
      = volume.metaNames.map fun name => Utf8.bytes name.1 :=
    List.map_congr_left fun name hname => storedKey_of_nulFree (hnul name hname)
  have hfind := (hasKeys_metaNames hsize hopen).find
    (by rw [hkeys]; exact List.pairwise_map.mpr hsorted) (Utf8.bytes name)
  rw [hkeys] at hfind
  rcases volume.entries_of_open hsize hopen .metaNames with ⟨behind, hentries⟩
  rcases Segment.read_of_entries
    (fun name hname => MetaName.decode_encode (hnul name hname) name.2) hentries with ⟨-, hread⟩
  rcases hplace : (volume.metaNames.map fun name => Utf8.bytes name.1).idxOf?
    (Utf8.bytes name) with _ | i
  · -- A name that no key is equal to is not in the list.
    have hlookup : volume.metaNames.lookup name = none := by
      rw [List.idxOf?_eq_none_iff] at hplace
      rw [List.lookup_eq_none_iff]
      intro entry hentry
      rw [bne_iff_ne]
      rintro rfl
      exact hplace (List.mem_map_of_mem hentry)
    rw [hplace] at hfind
    simp only [Index.nameId, hfind, hlookup, bind, Except.bind]
  · rw [hplace] at hfind
    rw [List.idxOf?_eq_some_iff] at hplace
    rcases hplace with ⟨hi, heq, hbefore⟩
    rw [List.length_map] at hi
    rw [List.getElem_map] at heq
    have hname : volume.metaNames[i].1 = name := Utf8.bytes_injective heq
    -- The first entry with the name is the one that a list looks up too.
    have hlookup : volume.metaNames.lookup name = some volume.metaNames[i].2 := by
      refine List.lookup_eq_some_iff.mpr ⟨volume.metaNames.take i, volume.metaNames.drop (i + 1),
        ?_, fun entry hentry => ?_⟩
      · rw [← hname, List.getElem_cons_drop, List.take_append_drop]
      · rcases List.mem_take_iff_getElem.mp hentry with ⟨j, hj, rfl⟩
        rw [bne_iff_ne]
        intro hsame
        refine hbefore j (by omega) ?_
        rw [List.getElem_map, hsame]
    rcases exists_of_bind (hread i hi) with ⟨entry, hentry, hdecode⟩
    simp only [Index.nameId, hfind, hlookup, bind, Except.bind, hentry, hdecode]

end Volume

end Concordance
