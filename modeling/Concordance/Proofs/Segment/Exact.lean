import Concordance.Proofs.Segment

/-!
# Lookups and Looking Through

A lookup yields what looking through all keys would yield.

Two places come out of a lookup, and halving has found them one by one, each as the place
where a test stops to be passed. That they belong together is what is shown here. An entry
lies between them if and only if its key is the right one (`Spans`), so that nothing is left
out at either end of a run of equal keys, and where no key is the right one there is nothing
between them.

Even then the first place means something. It is the one at which the key would have to be
put in. This holds of a lookup by the first bytes of a key as well, although that one cuts
the keys before it compares them: what is cut off a key can not make it less than what it is
compared with (`take_lt_iff`). The two lookups begin at the same place.

## Main definitions

* `Spans`: Two places with everything of a kind between them, and nothing else.

## Theorems

* `Splits.spans`: What lies between the places of two tests.
* `take_lt_iff`: A key that is cut compares like the key.
* `Segment.HasKeys.lookups_exact`: What the lookups of a segment yield.
-/

namespace Concordance

/-- Everything of a kind lies between two places, and nothing else does. -/
structure Spans {α : Type} (as : List α) (P : α → Prop) (start stop : Nat) : Prop where
  le : start ≤ stop
  inside : stop ≤ as.length
  between : ∀ i (h : i < as.length), start ≤ i ∧ i < stop ↔ P as[i]

section Places

variable {α : Type} {as : List α} {test other : α → Bool} {P Q : α → Prop} {start stop : Nat}

/-- The elements before the place are those that pass the test. -/
theorem Splits.lt_iff (h : Splits as test start) {i : Nat} (hi : i < as.length) :
    i < start ↔ test as[i] = true := by
  constructor
  · exact h.before i hi
  · intro hpass
    refine Nat.lt_of_not_le fun hge => ?_
    rw [h.behind i hi hge] at hpass
    exact Bool.false_ne_true hpass

/-- Tests that no element can tell apart split a list at the same place. -/
theorem Splits.congr (h : Splits as test start) (hsame : ∀ a ∈ as, test a = other a) :
    Splits as other start := by
  refine ⟨h.le, fun i hi hlt => ?_, fun i hi hge => ?_⟩
  · rw [← hsame _ (List.getElem_mem hi)]
    exact h.before i hi hlt
  · rw [← hsame _ (List.getElem_mem hi)]
    exact h.behind i hi hge

/-- What lies between the places of two tests has failed the one and passes the other. -/
theorem Splits.spans (h : Splits as test start) (h' : Splits as other stop) (hle : start ≤ stop) :
    Spans as (fun a => test a = false ∧ other a = true) start stop := by
  refine ⟨hle, h'.le, fun i hi => ?_⟩
  rw [h'.lt_iff hi, ← Bool.not_eq_true, ← h.lt_iff hi, Nat.not_lt]

theorem Spans.congr (h : Spans as P start stop) (hsame : ∀ a, P a ↔ Q a) :
    Spans as Q start stop :=
  ⟨h.le, h.inside, fun i hi => (h.between i hi).trans (hsame _)⟩

/-- Where nothing is of the kind, there is nothing between the places. -/
theorem Spans.eq_of_forall_not (h : Spans as P start stop) (hnone : ∀ a ∈ as, ¬ P a) :
    start = stop := by
  refine Nat.le_antisymm h.le (Nat.le_of_not_lt fun hlt => ?_)
  have hi : start < as.length := Nat.lt_of_lt_of_le hlt h.inside
  exact hnone _ (List.getElem_mem hi) ((h.between start hi).mp ⟨Nat.le_refl _, hlt⟩)

end Places

/-- What is cut off a key does not make it less than what is no longer than the cut. -/
theorem take_lt_iff (key lead : Bytes) : key.take lead.length < lead ↔ key < lead := by
  constructor
  · intro hlt
    rw [← List.take_length (l := lead)] at hlt
    simp only [List.length_take, Nat.min_self] at hlt
    exact Segment.HasKeys.lt_of_take_lt _ _ _ hlt
  · intro hlt
    -- The front part of a key is not more than the key.
    have hfront : key.take lead.length ≤ key := (List.take_prefix _ _).le
    exact List.lt_of_le_of_lt hfront hlt

/-- What is neither less nor more than a key is equal to it. -/
theorem not_lt_and_le_iff_eq (key other : Bytes) :
    decide (key < other) = false ∧ decide (key ≤ other) = true ↔ key = other := by
  rw [decide_eq_false_iff_not, decide_eq_true_eq]
  constructor
  · rintro ⟨hnot, hle⟩
    exact List.le_antisymm hle hnot
  · rintro rfl
    exact ⟨List.lt_irrefl key, List.le_refl key⟩

namespace Segment.HasKeys

variable {segment : Segment} {keys : List Bytes}

/-- The lookups of a segment with readable keys in order yield what looking through its keys
    would. The entries with a key, and those with a key that begins with it, are the ones from
    the first place up to the second, and the first place is where the key would be put in. If
    no entry has the key, the second place is the same. -/
theorem lookups_exact (h : segment.HasKeys keys) (hsorted : keys.Pairwise (· ≤ ·)) (key : Bytes) :
    (∃ start stop, segment.rangeOf key = .ok (start, stop)
      ∧ Splits keys (fun k => decide (k < key)) start ∧ Spans keys (· = key) start stop
      ∧ (key ∉ keys → start = stop))
    ∧ segment.find key = .ok (keys.idxOf? key)
    ∧ ∃ start stop, segment.leadRange key = .ok (start, stop)
      ∧ Splits keys (fun k => decide (k < key)) start ∧ Spans keys (key <+: ·) start stop := by
  refine ⟨?_, h.find hsorted key, ?_⟩
  · obtain ⟨start, stop, hrange, hstart, hstop⟩ := h.rangeOf hsorted key
    have hle : start ≤ stop := hstart.le_of_imp hstop fun k hk =>
      decide_eq_true (List.le_of_lt (of_decide_eq_true hk))
    have hspans : Spans keys (· = key) start stop :=
      (hstart.spans hstop hle).congr fun k => not_lt_and_le_iff_eq k key
    refine ⟨start, stop, hrange, hstart, hspans, fun hnone => ?_⟩
    exact hspans.eq_of_forall_not fun k hk heq => hnone (heq ▸ hk)
  · obtain ⟨start, stop, hrange, hle, hstart, hstop⟩ := h.leadRange hsorted key
    refine ⟨start, stop, hrange, ?_, (hstart.spans hstop hle).congr fun k => ?_⟩
    · -- A key is less than the letters it is asked for if its own first letters are.
      refine hstart.congr fun k _ => ?_
      rw [decide_eq_decide]
      exact take_lt_iff k key
    · rw [not_lt_and_le_iff_eq, List.prefix_iff_eq_take, eq_comm]

/-- Two entries with the key "cat", the second of them with a byte behind its NUL, and one with
    the key "cats". -/
def catSegment : Segment where
  blob := ⟨toLittleEndian 8 3 ++ [32, 36, 41].flatMap (toLittleEndian 8)
    ++ [99, 97, 116, 0] ++ [99, 97, 116, 0, 7] ++ [99, 97, 116, 115, 0]⟩
  table := ⟨3, 8⟩

/-- The two are found by their key, and all three by their first two letters. -/
theorem lookups_exact_of_cats :
    let keys : List Bytes := [[99, 97, 116], [99, 97, 116], [99, 97, 116, 115]]
    catSegment.HasKeys keys ∧ keys.Pairwise (· ≤ ·)
      ∧ (∃ start stop, catSegment.rangeOf [99, 97, 116] = .ok (start, stop)
        ∧ Spans keys (· = [99, 97, 116]) start stop)
      ∧ catSegment.find [99, 97, 116] = .ok (some 0)
      ∧ ∃ start stop, catSegment.leadRange [99, 97] = .ok (start, stop)
        ∧ Spans keys ([99, 97] <+: ·) start stop := by
  intro keys
  have hkeys : catSegment.HasKeys keys := by
    refine ⟨rfl, fun i hi => ?_⟩
    match i, hi with
    | 0, _ | 1, _ | 2, _ => rfl
  have hsorted : keys.Pairwise (· ≤ ·) := by decide
  obtain ⟨⟨start, stop, hrange, -, hspans, -⟩, hfind, -⟩ :=
    hkeys.lookups_exact hsorted [99, 97, 116]
  obtain ⟨-, -, start', stop', hlead, -, hspans'⟩ := hkeys.lookups_exact hsorted [99, 97]
  exact ⟨hkeys, hsorted, ⟨start, stop, hrange, hspans⟩, hfind, start', stop', hlead, hspans'⟩

end Segment.HasKeys

end Concordance
