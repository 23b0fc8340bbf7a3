import Concordance.Proofs.Collect
import Concordance.Segment

/-!
# Lookups by Halving

What the lookups of a segment find, where its keys are in order.

A test that all keys up to some place pass, and no key behind it, splits the keys, and
the search by halving finds the place. It needs to be told nothing about the test but
that no key passes it behind one that fails. What lies between the places of two tests
is what passes the one and fails the other, and so every lookup comes to a filter.

Keys may follow each other that are equal. The first of them is found.

## Main definitions

* `Splits`: A test is passed up to a place, and failed from there on.
* `Segment.HasKeys`: The keys of all entries.

## Theorems

* `Segment.HasKeys.firstFailing`: The place at which a test splits the keys is found.
* `Segment.HasKeys.find`: The first entry with a key is found, if there is one.
* `Segment.HasKeys.leadRange`: The places around the entries whose keys begin alike.
-/

namespace Concordance

/-- A test is passed up to a place, and failed from there on. -/
structure Splits {α : Type} (as : List α) (test : α → Bool) (place : Nat) : Prop where
  le : place ≤ as.length
  before : ∀ i (h : i < as.length), i < place → test as[i] = true
  behind : ∀ i (h : i < as.length), place ≤ i → test as[i] = false

namespace Splits

variable {α : Type} {as : List α} {test other : α → Bool} {place place' : Nat}

/-- What comes before the place passes, and what comes behind it does not. -/
theorem filter_take (h : Splits as test place) :
    (as.take place).filter test = as.take place ∧ (as.drop place).filter test = [] := by
  constructor
  · refine List.filter_eq_self.mpr fun a ha => ?_
    rcases List.mem_take_iff_getElem.mp ha with ⟨i, hi, rfl⟩
    exact h.before i (by omega) (by omega)
  · refine List.filter_eq_nil_iff.mpr fun a ha => ?_
    rcases List.mem_drop_iff_getElem.mp ha with ⟨i, hi, rfl⟩
    rw [h.behind _ _ (Nat.le_add_right _ _)]
    exact Bool.false_ne_true

theorem take_eq (h : Splits as test place) : as.take place = as.filter test := by
  calc as.take place = (as.take place).filter test ++ (as.drop place).filter test := by
        rw [h.filter_take.1, h.filter_take.2, List.append_nil]
    _ = as.filter test := by rw [← List.filter_append, List.take_append_drop]

/-- The other test is failed up to the place, and passed from there on. -/
theorem drop_eq (h : Splits as test place) : as.drop place = as.filter fun a => !test a := by
  have hbefore : (as.take place).filter (fun a => !test a) = [] := by
    refine List.filter_eq_nil_iff.mpr fun a ha => ?_
    rcases List.mem_take_iff_getElem.mp ha with ⟨i, hi, rfl⟩
    rw [h.before i (by omega) (by omega)]
    exact Bool.false_ne_true
  have hbehind : (as.drop place).filter (fun a => !test a) = as.drop place := by
    refine List.filter_eq_self.mpr fun a ha => ?_
    rcases List.mem_drop_iff_getElem.mp ha with ⟨i, hi, rfl⟩
    rw [h.behind _ _ (Nat.le_add_right _ _)]
    rfl
  calc as.drop place
      = (as.take place).filter (fun a => !test a) ++ (as.drop place).filter (fun a => !test a) := by
        rw [hbefore, hbehind, List.nil_append]
    _ = as.filter fun a => !test a := by rw [← List.filter_append, List.take_append_drop]

/-- The elements up to another place are split as all of them are. -/
theorem take (h : Splits as test place) (hle : place ≤ place') :
    Splits (as.take place') test place := by
  refine ⟨?_, fun i hi hlt => ?_, fun i hi hge => ?_⟩
  · rw [List.length_take]
    exact Nat.le_min.mpr ⟨hle, h.le⟩
  · rw [List.length_take] at hi
    rw [List.getElem_take]
    exact h.before i (by omega) hlt
  · rw [List.length_take] at hi
    rw [List.getElem_take]
    exact h.behind i (by omega) hge

/-- What is true of images is true of what they are images of. -/
theorem of_map {β : Type} {bs : List β} {f : β → α} (h : Splits (bs.map f) test place) :
    Splits bs (fun b => test (f b)) place := by
  refine ⟨List.length_map f ▸ h.le, fun i hi hlt => ?_, fun i hi hge => ?_⟩
  · rw [← h.before i (by rw [List.length_map]; exact hi) hlt, List.getElem_map]
  · rw [← h.behind i (by rw [List.length_map]; exact hi) hge, List.getElem_map]

/-- What lies between the places of two tests passes the one and fails the other. -/
theorem slice_eq (h : Splits as test place) (h' : Splits as other place') (hle : place ≤ place') :
    (as.drop place).take (place' - place) = as.filter fun a => !test a && other a := by
  rw [← List.drop_take, (h.take hle).drop_eq, h'.take_eq, List.filter_filter]

/-- The place of a weaker test is not before that of a stronger one. -/
theorem le_of_imp (h : Splits as test place) (h' : Splits as other place')
    (himp : ∀ a, test a = true → other a = true) : place ≤ place' := by
  rcases Nat.lt_or_ge place' place with hlt | hge
  · have hlength := h.le
    have hpass := himp _ (h.before place' (by omega) hlt)
    rw [h'.behind place' _ (Nat.le_refl _)] at hpass
    exact absurd hpass Bool.false_ne_true
  · exact hge

end Splits

namespace Segment

variable {segment : Segment} {keys : List Bytes}

/-- The keys of all entries. -/
structure HasKeys (segment : Segment) (keys : List Bytes) : Prop where
  size : segment.size = keys.length
  key : ∀ i (h : i < keys.length), segment.key i = .ok keys[i]

namespace HasKeys

/-- Halving keeps to what is known of both ends, and so it ends at the place. -/
theorem search (h : segment.HasKeys keys) {test : Bytes → Bool}
    (hmono : keys.Pairwise fun a b => test b = true → test a = true) {low high : Nat}
    (hle : low ≤ high) (hhigh : high ≤ keys.length)
    (hbefore : ∀ i (hi : i < keys.length), i < low → test keys[i] = true)
    (hbehind : ∀ i (hi : i < keys.length), high ≤ i → test keys[i] = false) :
    ∃ place, segment.search test low high = .ok place ∧ Splits keys test place := by
  have hall := List.pairwise_iff_getElem.mp hmono
  fun_induction Segment.search segment test low high with
  | case1 low high hlt middle e hkey =>
    exact absurd ((h.key middle (by omega)).symm.trans hkey) (by simp)
  | case2 low high hlt middle key hkey htest ih =>
    -- What passes in the middle passes before it.
    have hmiddle : middle < keys.length := by omega
    rcases Except.ok.inj ((h.key middle hmiddle).symm.trans hkey) with rfl
    refine ih (by omega) hhigh (fun i hi hlt => ?_) hbehind
    rcases Nat.lt_or_eq_of_le (Nat.le_of_lt_succ hlt) with hless | rfl
    · exact hall i middle hi hmiddle hless htest
    · exact htest
  | case3 low high hlt middle key hkey htest ih =>
    -- What fails in the middle fails behind it.
    have hmiddle : middle < keys.length := by omega
    rcases Except.ok.inj ((h.key middle hmiddle).symm.trans hkey) with rfl
    refine ih (by omega) (by omega) hbefore (fun i hi hge => ?_)
    rcases Nat.lt_or_eq_of_le hge with hless | rfl
    · exact Bool.eq_false_iff.mpr fun hpass => htest (hall middle i hmiddle hi hless hpass)
    · exact Bool.eq_false_iff.mpr htest
  | case4 low high hnot =>
    have hsame : low = high := by omega
    exact ⟨low, rfl, by omega, hbefore, hsame ▸ hbehind⟩

/-- The place at which a test splits the keys is found. -/
theorem firstFailing (h : segment.HasKeys keys) {test : Bytes → Bool}
    (hmono : keys.Pairwise fun a b => test b = true → test a = true) :
    ∃ place, segment.firstFailing test = .ok place ∧ Splits keys test place := by
  rw [Segment.firstFailing, h.size]
  exact h.search hmono (Nat.zero_le _) (Nat.le_refl _) (fun i hi hlt => absurd hlt (by omega))
    (fun i hi hge => absurd hi (by omega))

/-- The places around the entries with a key are found. -/
theorem rangeOf (h : segment.HasKeys keys) (hsorted : keys.Pairwise (· ≤ ·)) (key : Bytes) :
    ∃ start stop, segment.rangeOf key = .ok (start, stop)
      ∧ Splits keys (fun k => decide (k < key)) start
      ∧ Splits keys (fun k => decide (k ≤ key)) stop := by
  obtain ⟨start, hstart, hsplits⟩ := h.firstFailing
    (hsorted.imp fun {a b} hab (hb : decide (b < key) = true) =>
      decide_eq_true (List.lt_of_le_of_lt hab (of_decide_eq_true hb)))
  obtain ⟨stop, hstop, hsplits'⟩ := h.firstFailing
    (hsorted.imp fun {a b} hab (hb : decide (b ≤ key) = true) =>
      decide_eq_true (List.le_trans hab (of_decide_eq_true hb)))
  refine ⟨start, stop, ?_, hsplits, hsplits'⟩
  rw [Segment.rangeOf, hstart, hstop]
  rfl

/-- The first entry with a key is found, if there is one. -/
theorem find (h : segment.HasKeys keys) (hsorted : keys.Pairwise (· ≤ ·)) (key : Bytes) :
    segment.find key = .ok (keys.idxOf? key) := by
  obtain ⟨start, stop, hrange, hstart, hstop⟩ := h.rangeOf hsorted key
  rw [Segment.find, hrange]
  refine congrArg Except.ok ?_
  show (if start < stop then some start else none) = keys.idxOf? key
  by_cases hlt : start < stop
  · -- What is at the first place is not less than the key, and not more.
    have hlength : start < keys.length := Nat.lt_of_lt_of_le hlt hstop.le
    have hle : keys[start] ≤ key := of_decide_eq_true (hstop.before start hlength hlt)
    have hnot : ¬ keys[start] < key :=
      of_decide_eq_false (hstart.behind start hlength (Nat.le_refl _))
    rw [if_pos hlt, eq_comm, List.idxOf?, List.findIdx?_eq_some_iff_getElem]
    refine ⟨hlength, beq_iff_eq.mpr (List.le_antisymm hle hnot), fun j hj heq => ?_⟩
    have hless := of_decide_eq_true (hstart.before j (by omega) hj)
    exact List.lt_irrefl key (beq_iff_eq.mp heq ▸ hless)
  · rw [if_neg hlt, eq_comm, List.idxOf?_eq_none_iff]
    intro hmem
    rcases List.mem_iff_getElem.mp hmem with ⟨i, hi, rfl⟩
    -- An entry with the key would lie between the places.
    rcases Nat.lt_or_ge i start with hless | hge
    · exact List.lt_irrefl _ (of_decide_eq_true (hstart.before i hi hless))
    · have hle := of_decide_eq_false (hstop.behind i hi (by omega))
      exact hle (List.le_refl _)

/-- What comes first among the front parts of two keys comes first among the keys. -/
theorem lt_of_take_lt : ∀ (n : Nat) (a b : Bytes), a.take n < b.take n → a < b
  | 0, _, _, h => absurd h (List.lt_irrefl _)
  | n + 1, [], [], h => absurd h (List.lt_irrefl _)
  | n + 1, [], y :: b, _ => List.nil_lt_cons y b
  | n + 1, x :: a, [], h => absurd h (List.not_lt_nil _)
  | n + 1, x :: a, y :: b, h => by
    rw [List.take_succ_cons, List.take_succ_cons, List.cons_lt_cons_iff] at h
    rw [List.cons_lt_cons_iff]
    exact h.imp id fun h => ⟨h.1, lt_of_take_lt n a b h.2⟩

/-- The places around the entries whose keys begin alike are found. -/
theorem leadRange (h : segment.HasKeys keys) (hsorted : keys.Pairwise (· ≤ ·)) (lead : Bytes) :
    ∃ start stop, segment.leadRange lead = .ok (start, stop) ∧ start ≤ stop
      ∧ Splits keys (fun k => decide (k.take lead.length < lead)) start
      ∧ Splits keys (fun k => decide (k.take lead.length ≤ lead)) stop := by
  have htake : ∀ {a b : Bytes}, a ≤ b → a.take lead.length ≤ b.take lead.length :=
    fun hab hlt => hab (lt_of_take_lt _ _ _ hlt)
  obtain ⟨start, hstart, hsplits⟩ := h.firstFailing
    (hsorted.imp fun {a b} hab (hb : decide (b.take lead.length < lead) = true) =>
      decide_eq_true (List.lt_of_le_of_lt (htake hab) (of_decide_eq_true hb)))
  obtain ⟨stop, hstop, hsplits'⟩ := h.firstFailing
    (hsorted.imp fun {a b} hab (hb : decide (b.take lead.length ≤ lead) = true) =>
      decide_eq_true (List.le_trans (htake hab) (of_decide_eq_true hb)))
  have hle : start ≤ stop := hsplits.le_of_imp hsplits' fun k hk =>
    decide_eq_true (List.le_of_lt (of_decide_eq_true hk))
  refine ⟨start, stop, ?_, hle, hsplits, hsplits'⟩
  rw [Segment.leadRange, hstart, hstop]
  exact congrArg (fun stop => Except.ok (start, stop)) (Nat.max_eq_right hle)

end HasKeys

end Segment

end Concordance
