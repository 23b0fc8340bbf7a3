import Concordance.Proofs.Ascending
import Concordance.Query.Evaluation

/-!
# Scores Said Document by Document

What operations on scores do to the score of one document.

Scores are lists, but nothing about a result depends on more of them than what is
looked up for each document. So an operation is described by what is looked up
afterwards, and `lookup_update` says this for the one way in which a list is ever
extended. The order of a list is needed too, and only so that no document is there
twice, and it is kept by everything.

What `or` and `and` come to is then told for a document alone, from whether each operand
has it and with which score.

## Main definitions

* `Scores.sumOfAny`, `Scores.sumOfAll`: The scores of a document for several operands,
  added up if any of them has it, or if all do.

## Theorems

* `ByDocument.lookup_update`: What is looked up after an update.
* `Scores.lookup_union`, `Scores.lookup_inter`, `Scores.lookup_complement`: What is looked
  up in scores that were put together.
* `Scores.lookup_unionAll`, `Evaluation.lookup_meanScores`: The same for any number of
  operands.
-/

namespace Concordance

/-- What is looked up in a list of pairs with one more in front. -/
theorem lookup_cons_key {κ α : Type} [BEq κ] [LawfulBEq κ] [DecidableEq κ] (key : κ) (a : α)
    (m : List (κ × α)) (k : κ) :
    ((key, a) :: m).lookup k = if k = key then some a else m.lookup k := by
  by_cases h : k = key
  · rw [if_pos h, h, List.lookup_cons_self]
  · rw [if_neg h, List.lookup_cons, beq_false_of_ne h]

namespace KeysAscend

variable {α β : Type} {m : ByDocument α}

theorem cons_iff {document : UInt32} {a : α} :
    KeysAscend ((document, a) :: m) ↔ (∀ e ∈ m, document < e.1) ∧ KeysAscend m :=
  List.pairwise_cons

/-- A document before all others is not there. -/
theorem lookup_eq_none {document : UInt32} (h : ∀ e ∈ m, document < e.1) :
    m.lookup document = none := by
  rw [List.lookup_eq_none_iff]
  intro e he
  have hne : e.1 ≠ document := fun heq => UInt32.lt_irrefl _ (heq ▸ h e he)
  exact bne_iff_ne.mpr hne.symm

/-- Something is made of what there is for a document, or nothing. -/
theorem filterMap {f : UInt32 × α → Option (UInt32 × β)} {g : UInt32 → α → Option β}
    (hf : ∀ document a, f (document, a) = (g document a).map (Prod.mk document))
    (h : KeysAscend m) : KeysAscend (m.filterMap f) := by
  refine List.pairwise_filterMap.mpr (List.Pairwise.imp (fun {a b} hab a' ha' b' hb' => ?_) h)
  rcases a with ⟨document, a⟩
  rcases b with ⟨other, b⟩
  rw [hf] at ha' hb'
  rcases Option.map_eq_some_iff.mp ha' with ⟨_, -, rfl⟩
  rcases Option.map_eq_some_iff.mp hb' with ⟨_, -, rfl⟩
  exact hab

/-- It is looked up where that was. -/
theorem lookup_filterMap {f : UInt32 × α → Option (UInt32 × β)} {g : UInt32 → α → Option β}
    (hf : ∀ document a, f (document, a) = (g document a).map (Prod.mk document))
    (h : KeysAscend m) (document : UInt32) :
    (m.filterMap f).lookup document = (m.lookup document).bind (g document) := by
  induction m with
  | nil => rfl
  | cons e m ih =>
    rcases e with ⟨other, a⟩
    rcases cons_iff.mp h with ⟨hfirst, hrest⟩
    rw [lookup_cons_key]
    rcases hg : g other a with _ | b
    · rw [List.filterMap_cons_none (by rw [hf, hg]; rfl), ih hrest]
      by_cases heq : document = other
      · -- The document is dropped, and there is no other element for it behind.
        rw [if_pos heq, heq, lookup_eq_none hfirst, Option.bind_none, Option.bind_some, hg]
      · rw [if_neg heq]
    · rw [List.filterMap_cons_some (by rw [hf, hg]; rfl), lookup_cons_key]
      by_cases heq : document = other
      · rw [if_pos heq, if_pos heq, heq, Option.bind_some, hg]
      · rw [if_neg heq, if_neg heq, ih hrest]

/-- Something is made of all that there is. -/
theorem map {f : UInt32 × α → UInt32 × β} {g : α → β}
    (hf : ∀ document a, f (document, a) = (document, g a)) (h : KeysAscend m) :
    KeysAscend (m.map f) := by
  refine List.pairwise_map.mpr (List.Pairwise.imp (fun {a b} hab => ?_) h)
  rcases a with ⟨document, a⟩
  rcases b with ⟨other, b⟩
  rw [hf, hf]
  exact hab

theorem lookup_map {f : UInt32 × α → UInt32 × β} {g : α → β}
    (hf : ∀ document a, f (document, a) = (document, g a)) (m : ByDocument α)
    (document : UInt32) : (m.map f).lookup document = (m.lookup document).map g := by
  induction m with
  | nil => rfl
  | cons e m ih =>
    rcases e with ⟨other, a⟩
    rw [List.map_cons, hf, lookup_cons_key, lookup_cons_key, ih]
    split <;> rfl

end KeysAscend

namespace ByDocument

variable {α : Type} {m : ByDocument α} (document : UInt32) (initial : α) (f : α → α)

/-- An update adds no other document. -/
theorem mem_update {e : UInt32 × α} (h : e ∈ update document initial f m) :
    e.1 = document ∨ ∃ e' ∈ m, e'.1 = e.1 := by
  induction m with
  | nil =>
    rw [update, List.mem_singleton] at h
    exact Or.inl (by rw [h])
  -- The document is the first one, or before it, or somewhere behind.
  | cons first m ih =>
    rcases first with ⟨other, a⟩
    rw [update] at h
    split at h
    · rename_i heq
      rcases List.mem_cons.mp h with rfl | h
      · exact Or.inl heq
      · exact Or.inr ⟨e, List.mem_cons_of_mem _ h, rfl⟩
    · split at h
      · -- The document comes before the first one, so that all of the others stay.
        rcases List.mem_cons.mp h with rfl | h
        · exact Or.inl rfl
        · exact Or.inr ⟨e, h, rfl⟩
      · rcases List.mem_cons.mp h with rfl | h
        · exact Or.inr ⟨_, List.mem_cons_self, rfl⟩
        · rcases ih h with heq | ⟨e', he', heq⟩
          · exact Or.inl heq
          · exact Or.inr ⟨e', List.mem_cons_of_mem _ he', heq⟩

/-- An update keeps documents in order. -/
theorem keysAscend_update (h : KeysAscend m) : KeysAscend (update document initial f m) := by
  induction m with
  | nil => exact List.pairwise_singleton _ _
  | cons first m ih =>
    rcases first with ⟨other, a⟩
    rcases KeysAscend.cons_iff.mp h with ⟨hfirst, hrest⟩
    rw [update]
    split
    · exact KeysAscend.cons_iff.mpr ⟨hfirst, hrest⟩
    · rename_i hne
      -- The document is put before the first one, or into the others, which come behind that.
      split
      · rename_i hlt
        refine KeysAscend.cons_iff.mpr ⟨fun e he => ?_, h⟩
        rcases List.mem_cons.mp he with rfl | he
        · exact hlt
        · exact UInt32.lt_trans hlt (hfirst e he)
      · rename_i hlt
        refine KeysAscend.cons_iff.mpr ⟨fun e he => ?_, ih hrest⟩
        rcases mem_update document initial f he with heq | ⟨e', he', heq⟩
        · rw [heq]
          exact lt_of_not_lt (Ne.symm hne) hlt
        · rw [← heq]
          exact hfirst e' he'

/-- What is looked up after an update. -/
theorem lookup_update (h : KeysAscend m) (k : UInt32) :
    (update document initial f m).lookup k
      = if k = document then some (f ((m.lookup document).getD initial)) else m.lookup k := by
  induction m with
  | nil => rw [update, lookup_cons_key]; rfl
  | cons first m ih =>
    rcases first with ⟨other, a⟩
    rcases KeysAscend.cons_iff.mp h with ⟨hfirst, hrest⟩
    rw [update]
    split
    · rename_i heq
      rw [lookup_cons_key, lookup_cons_key, lookup_cons_key, heq, if_pos rfl, Option.getD_some]
      split <;> rfl
    · rename_i hne
      split
      · rename_i hlt
        -- The document goes in front of all others, so it was not there.
        have hnone : List.lookup document ((other, a) :: m) = none := by
          refine KeysAscend.lookup_eq_none fun e he => ?_
          rcases List.mem_cons.mp he with rfl | he
          · exact hlt
          · exact UInt32.lt_trans hlt (hfirst e he)
        rw [lookup_cons_key, hnone, Option.getD_none]
      · rw [lookup_cons_key, ih hrest, lookup_cons_key, lookup_cons_key, if_neg (Ne.symm hne)]
        by_cases hk : k = other
        · rw [if_pos hk, if_neg (by rw [hk]; exact hne), if_pos hk]
        · rw [if_neg hk, if_neg hk]

end ByDocument

namespace Scores

variable {scores others : Scores}

theorem keysAscend_add (h : KeysAscend scores) (document : UInt32) (score : Nat) :
    KeysAscend (scores.add document score) :=
  ByDocument.keysAscend_update document 0 _ h

/-- Adding to the score of a document leaves the others. -/
theorem lookup_add (h : KeysAscend scores) (document : UInt32) (score : Nat) (k : UInt32) :
    (scores.add document score).lookup k
      = if k = document then some ((scores.lookup document).getD 0 + score)
        else scores.lookup k :=
  ByDocument.lookup_update document 0 _ h k

theorem keysAscend_union (h : KeysAscend scores) (others : Scores) :
    KeysAscend (scores.union others) := by
  rw [union]
  induction others generalizing scores with
  | nil => exact h
  | cons e others ih => exact ih (keysAscend_add h e.1 e.2)

/-- The scores of a document in both are added up. -/
theorem lookup_union (h : KeysAscend scores) (h' : KeysAscend others) (k : UInt32) :
    (scores.union others).lookup k
      = (scores.lookup k).merge (· + ·) (others.lookup k) := by
  induction others generalizing scores with
  | nil =>
    rw [List.lookup_nil, Option.merge_none_right]
    rfl
  | cons e others ih =>
    rcases e with ⟨document, score⟩
    rcases KeysAscend.cons_iff.mp h' with ⟨hfirst, hrest⟩
    -- The first of the others is added, and the rest of them to that. It is not in the rest again.
    rw [show scores.union ((document, score) :: others)
      = (scores.add document score).union others from rfl,
      ih (keysAscend_add h document score) hrest, lookup_add h, lookup_cons_key]
    by_cases hk : k = document
    · rw [if_pos hk, if_pos hk, hk, KeysAscend.lookup_eq_none hfirst, Option.merge_none_right]
      rcases scores.lookup document with _ | a
      · rw [Option.getD_none, Nat.zero_add, Option.merge_none_left]
      · rfl
    · rw [if_neg hk, if_neg hk]

theorem keysAscend_inter (h : KeysAscend scores) (others : Scores) :
    KeysAscend (scores.inter others) :=
  h.filterMap (g := fun document score => (others.lookup document).map (score + ·))
    fun document score => by rw [Option.map_map]; rfl

/-- Only documents in both stay, and their scores are added up. -/
theorem lookup_inter (h : KeysAscend scores) (others : Scores) (k : UInt32) :
    (scores.inter others).lookup k
      = (scores.lookup k).bind fun score => (others.lookup k).map (score + ·) :=
  h.lookup_filterMap (g := fun document score => (others.lookup document).map (score + ·))
    (fun document score => by rw [Option.map_map]; rfl) k

theorem keysAscend_divide (h : KeysAscend scores) (n : Nat) : KeysAscend (scores.divide n) :=
  h.map (g := (· / n)) fun _ _ => rfl

theorem lookup_divide (scores : Scores) (n : Nat) (k : UInt32) :
    (scores.divide n).lookup k = (scores.lookup k).map (· / n) :=
  KeysAscend.lookup_map (g := (· / n)) (fun _ _ => rfl) scores k

/-- Ids below a number of documents are in the order of the numbers. -/
theorem keysAscend_complement (scores : Scores) {count : Nat} (hcount : count ≤ UInt32.size)
    (score : Nat) : KeysAscend (scores.complement count score) := by
  refine List.pairwise_filterMap.mpr (List.Pairwise.imp_of_mem
    (fun {a b} ha hb hab x hx y hy => ?_) List.pairwise_lt_range)
  rw [List.mem_range] at ha hb
  split at hx
  · exact absurd hx (by simp)
  · split at hy
    · exact absurd hy (by simp)
    · rw [← Option.some.inj hx, ← Option.some.inj hy, UInt32.lt_iff_toNat_lt,
        UInt32.toNat_ofNat_of_lt' (by omega), UInt32.toNat_ofNat_of_lt' (by omega)]
      exact hab

/-- The documents that were not there have one score. -/
theorem lookup_complement (scores : Scores) {count : Nat} (hcount : count ≤ UInt32.size)
    (score : Nat) (k : UInt32) :
    (scores.complement count score).lookup k
      = if k.toNat < count ∧ scores.lookup k = none then some score else none := by
  have hascend := keysAscend_complement scores hcount score
  -- The complement lists the documents that are not there, each with one score.
  have hmem : ∀ s, (k, s) ∈ scores.complement count score
      ↔ (k.toNat < count ∧ scores.lookup k = none) ∧ s = score := by
    intro s
    rw [complement, List.mem_filterMap]
    constructor
    · rintro ⟨i, hi, heq⟩
      rw [List.mem_range] at hi
      rcases hlookup : List.lookup (UInt32.ofNat i) scores with _ | other
      · rw [hlookup] at heq
        rcases Prod.mk.inj (Option.some.inj heq) with ⟨rfl, rfl⟩
        rw [UInt32.toNat_ofNat_of_lt' (by omega)]
        exact ⟨⟨hi, hlookup⟩, rfl⟩
      · rw [hlookup] at heq
        exact absurd heq (by simp)
    · rintro ⟨⟨hk, hnone⟩, rfl⟩
      refine ⟨k.toNat, List.mem_range.mpr hk, ?_⟩
      rw [UInt32.ofNat_toNat, hnone]
  by_cases h : k.toNat < count ∧ scores.lookup k = none
  · rw [if_pos h, hascend.lookup_eq_some_iff, hmem]
    exact ⟨h, rfl⟩
  · rw [if_neg h]
    rcases hlookup : (scores.complement count score).lookup k with _ | s
    · rfl
    · rw [hascend.lookup_eq_some_iff, hmem] at hlookup
      exact absurd hlookup.1 h

/-- The sum of the scores of a document that any operand has. -/
def sumOfAny (operands : List (Option Nat)) : Option Nat :=
  if operands.any Option.isSome then some (total (·.getD 0) operands) else none

/-- The sum of the scores of a document that all operands have. -/
def sumOfAll (operands : List (Option Nat)) : Option Nat :=
  if operands.all Option.isSome then some (total (·.getD 0) operands) else none

/-- Operands that do not have the document add nothing. -/
theorem total_of_none {operands : List (Option Nat)} (h : operands.any Option.isSome = false) :
    total (·.getD 0) operands = 0 := by
  induction operands with
  | nil => rfl
  | cons a operands ih =>
    rw [List.any_cons, Bool.or_eq_false_iff, Option.isSome_eq_false_iff,
      Option.isNone_iff_eq_none] at h
    rw [total_cons, ih h.2, h.1]
    rfl

theorem sumOfAny_cons (a : Option Nat) (operands : List (Option Nat)) :
    sumOfAny (a :: operands) = a.merge (· + ·) (sumOfAny operands) := by
  rw [sumOfAny, sumOfAny, List.any_cons, total_cons]
  rcases hany : operands.any Option.isSome with _ | _
  · rw [total_of_none hany]
    rcases a with _ | a <;> rfl
  · rcases a with _ | a
    · rw [Option.getD_none, Nat.zero_add]
      rfl
    · rfl

theorem sumOfAll_cons (a : Option Nat) (operands : List (Option Nat)) :
    sumOfAll (a :: operands) = a.bind fun score => (sumOfAll operands).map (score + ·) := by
  rw [sumOfAll, sumOfAll, List.all_cons, total_cons]
  rcases a with _ | a
  · rfl
  · rcases operands.all Option.isSome with _ | _ <;> rfl

theorem keysAscend_unionAll {operands : List Scores} (h : KeysAscend scores) :
    KeysAscend (operands.foldl union scores) := by
  induction operands generalizing scores with
  | nil => exact h
  | cons first operands ih => exact ih (keysAscend_union h first)

/-- What is looked up in the scores of any of several operands. -/
theorem lookup_unionAll {operands : List Scores} (h : KeysAscend scores)
    (h' : ∀ operand ∈ operands, KeysAscend operand) (k : UInt32) :
    (operands.foldl union scores).lookup k
      = (scores.lookup k).merge (· + ·) (sumOfAny (operands.map (List.lookup k))) := by
  induction operands generalizing scores with
  | nil => exact (Option.merge_none_right ..).symm
  | cons first operands ih =>
    have hfirst := h' first List.mem_cons_self
    rw [List.foldl_cons, ih (keysAscend_union h first) fun s hs => h' s (List.mem_cons_of_mem _ hs),
      lookup_union h hfirst, List.map_cons, sumOfAny_cons]
    exact Std.Associative.assoc _ _ _

theorem keysAscend_interAll {operands : List Scores} (h : KeysAscend scores) :
    KeysAscend (operands.foldl inter scores) := by
  induction operands generalizing scores with
  | nil => exact h
  | cons first operands ih => exact ih (keysAscend_inter h first)

/-- What is looked up in the scores of all of several operands. -/
theorem lookup_interAll {operands : List Scores} (h : KeysAscend scores) (k : UInt32) :
    (operands.foldl inter scores).lookup k
      = (scores.lookup k).bind fun score =>
        (sumOfAll (operands.map (List.lookup k))).map (score + ·) := by
  induction operands generalizing scores with
  | nil =>
    rw [List.foldl_nil]
    rcases scores.lookup k with _ | a <;> rfl
  | cons first operands ih =>
    rw [List.foldl_cons, ih (keysAscend_inter h first), lookup_inter h, List.map_cons,
      sumOfAll_cons]
    -- A sum over all needs every operand, so one that is missing ends it.
    rcases scores.lookup k with _ | a
    · rfl
    · rcases first.lookup k with _ | b
      · rfl
      · rcases sumOfAll (operands.map (List.lookup k)) with _ | c
        · rfl
        · exact congrArg some (Nat.add_assoc a b c)

end Scores

namespace Evaluation

variable {operands : List Scores} (h : ∀ operand ∈ operands, KeysAscend operand)
include h

theorem keysAscend_meanScores : KeysAscend (meanScores operands) := by
  rcases operands with _ | ⟨first, rest⟩
  · exact List.Pairwise.nil
  · exact Scores.keysAscend_divide (Scores.keysAscend_interAll (h first List.mem_cons_self)) _

/-- What is looked up in the mean scores of several operands. -/
theorem lookup_meanScores (hne : operands ≠ []) (k : UInt32) :
    (meanScores operands).lookup k
      = (Scores.sumOfAll (operands.map (List.lookup k))).map (· / operands.length) := by
  rcases List.exists_cons_of_ne_nil hne with ⟨first, rest, rfl⟩
  rw [meanScores, Scores.lookup_divide, Scores.lookup_interAll (h first List.mem_cons_self),
    ← Scores.sumOfAll_cons, List.length_cons]
  rfl

end Evaluation

end Concordance
