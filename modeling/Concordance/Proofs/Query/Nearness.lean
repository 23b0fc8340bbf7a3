import Concordance.Proofs.Query.Scores

/-!
# Words Near Each Other

What the scan for near positions finds, and what follows for two words.

The scan goes through two ascending lists once. If the positions in front are too far
apart, the smaller one is too far from everything behind the other one as well, and can be
passed over. This is the one step of `anyWithin_iff`, and it is the only place where the
order of positions matters.

`pairScores` goes through the documents of the left word first and adds those that only
the right one has. For a single document this is a choice between four cases, and
`pairOf` has them.

## Main definitions

* `Near`: Two positions are close enough.
* `Evaluation.pairOf`: The score of a document for two words.

## Theorems

* `anyWithin_iff`: The scan finds near positions if there are any.
* `Evaluation.lookup_pairScores`: What is looked up in the scores of two words.
-/

namespace Concordance

/-- Two positions are at most `distance` apart. -/
def Near (distance : Nat) (a b : UInt32) : Prop :=
  a.toNat ≤ b.toNat + distance ∧ b.toNat ≤ a.toNat + distance

instance (distance : Nat) (a b : UInt32) : Decidable (Near distance a b) :=
  inferInstanceAs (Decidable (_ ∧ _))

theorem gap_le_iff {distance : Nat} {a b : UInt32} : gap a b ≤ distance ↔ Near distance a b := by
  rw [gap, Near]
  split
  · rename_i hlt
    rw [UInt32.lt_iff_toNat_lt] at hlt
    omega
  · rename_i hlt
    rw [UInt32.lt_iff_toNat_lt] at hlt
    omega

theorem Near.symm {distance : Nat} {a b : UInt32} (h : Near distance a b) : Near distance b a :=
  ⟨h.2, h.1⟩

/-- What lies between two near positions is near to both. -/
theorem Near.of_le {distance : Nat} {a b c : UInt32} (hab : a ≤ b) (hbc : b ≤ c)
    (h : Near distance a c) : Near distance a b := by
  rw [UInt32.le_iff_toNat_le] at hab hbc
  rw [Near] at h ⊢
  omega

/-- Positions in order begin with the least. -/
theorem le_of_mem_cons {first x : UInt32} {rest : List UInt32}
    (h : (first :: rest).Pairwise (· ≤ ·)) (hx : x ∈ first :: rest) : first ≤ x := by
  rcases List.mem_cons.mp hx with rfl | hx
  · exact UInt32.le_refl _
  · exact (List.pairwise_cons.mp h).1 x hx

/-- The scan finds near positions if there are any. -/
theorem anyWithin_iff {distance : Nat} {as bs : List UInt32} (h : as.Pairwise (· ≤ ·))
    (h' : bs.Pairwise (· ≤ ·)) :
    anyWithin distance as bs = true ↔ ∃ a ∈ as, ∃ b ∈ bs, Near distance a b := by
  fun_induction anyWithin distance as bs with
  | case1 bs => simp
  | case2 a as => simp
  | case3 a as b bs hnear =>
    refine iff_of_true rfl ⟨a, List.mem_cons_self, b, List.mem_cons_self, ?_⟩
    exact gap_le_iff.mp hnear
  -- The first list has the smaller position, and it goes on.
  | case4 a as b bs hfar hlt ih =>
    rw [ih (List.pairwise_cons.mp h).2 h']
    constructor
    · rintro ⟨x, hx, y, hy, hnear⟩
      exact ⟨x, List.mem_cons_of_mem _ hx, y, hy, hnear⟩
    · rintro ⟨x, hx, y, hy, hnear⟩
      rcases List.mem_cons.mp hx with rfl | hx
      · -- All of the second list is as far away as its first position, or further.
        have hfirst : Near distance x b :=
          hnear.of_le (UInt32.le_of_lt hlt) (le_of_mem_cons h' hy)
        exact absurd (gap_le_iff.mpr hfirst) hfar
      · exact ⟨x, hx, y, hy, hnear⟩
  | case5 a as b bs hfar hlt ih =>
    rw [ih h (List.pairwise_cons.mp h').2]
    constructor
    · rintro ⟨x, hx, y, hy, hnear⟩
      exact ⟨x, hx, y, List.mem_cons_of_mem _ hy, hnear⟩
    · rintro ⟨x, hx, y, hy, hnear⟩
      rcases List.mem_cons.mp hy with rfl | hy
      · -- And so is all of the first list from a position that is not behind it.
        have hfirst : Near distance y a :=
          hnear.symm.of_le (UInt32.not_lt.mp hlt) (le_of_mem_cons h hx)
        exact absurd (gap_le_iff.mpr hfirst.symm) hfar
      · exact ⟨x, hx, y, hy, hnear⟩

namespace Evaluation

/-- The score of a document for two words, from its scores for each of them: if they are
    near in it, or, negated, if they are not. Negated, one of them is enough. -/
def pairOf (negated near : Bool) : Option Nat → Option Nat → Option Nat
  | some a, some b => if near = negated then none else some ((a + b) / 2)
  | some a, none => if negated then some a else none
  | none, some b => if negated then some b else none
  | none, none => none

/-- Does the scan find near positions in a document, given what there is for each word? -/
def scan (distance : Nat) : Option Sighting → Option Sighting → Bool
  | some a, some b => anyWithin distance a.positions b.positions
  | _, _ => false

/-- The score that a document has from the left word on. -/
def leftScore (distance : Nat) (negated : Bool) (right : ByDocument Sighting)
    (document : UInt32) (a : Sighting) : Option Nat :=
  pairOf negated (scan distance (some a) (right.lookup document)) (some a.score)
    ((right.lookup document).map Sighting.score)

/-- The score of a document that only the right word is in. -/
def rightScore (left : ByDocument Sighting) (document : UInt32) (b : Sighting) : Option Nat :=
  match left.lookup document with
  | some _ => none
  | none => some b.score

variable (distance : Nat) (negated : Bool) {left right : ByDocument Sighting}

/-- The left word goes first, and then what only the right one has. -/
theorem pairScores_eq : pairScores distance negated left right
    = if negated then
        Scores.union
          (left.filterMap fun e => (leftScore distance negated right e.1 e.2).map (Prod.mk e.1))
          (right.filterMap fun e => (rightScore left e.1 e.2).map (Prod.mk e.1))
      else left.filterMap fun e =>
        (leftScore distance negated right e.1 e.2).map (Prod.mk e.1) := by
  -- The two scans are `leftScore` and `rightScore`, which say it for one document.
  have hleft : (fun e : UInt32 × Sighting => match List.lookup e.1 right with
      | some b =>
        if anyWithin distance e.2.positions b.positions != negated then
          some (e.1, (e.2.score + b.score) / 2)
        else none
      | none => if negated then some (e.1, e.2.score) else none)
      = fun e => (leftScore distance negated right e.1 e.2).map (Prod.mk e.1) := by
    funext e
    rw [leftScore]
    rcases right.lookup e.1 with _ | b
    · rcases negated with _ | _ <;> rfl
    · dsimp only [Option.map_some, scan, pairOf]
      rcases anyWithin distance e.2.positions b.positions with _ | _ <;>
        rcases negated with _ | _ <;> rfl
  have hright : (fun e : UInt32 × Sighting => match List.lookup e.1 left with
      | some _ => none
      | none => some (e.1, e.2.score))
      = fun e => (rightScore left e.1 e.2).map (Prod.mk e.1) := by
    funext e
    rw [rightScore]
    rcases left.lookup e.1 with _ | a <;> rfl
  rw [← hleft, ← hright]
  rfl

theorem keysAscend_pairScores (h : KeysAscend left) :
    KeysAscend (pairScores distance negated left right) := by
  have hleft := h.filterMap (f := fun e =>
    (leftScore distance negated right e.1 e.2).map (Prod.mk e.1)) fun _ _ => rfl
  rw [pairScores_eq]
  split
  · exact Scores.keysAscend_union hleft _
  · exact hleft

/-- What is looked up in the scores of two words. -/
theorem lookup_pairScores (h : KeysAscend left) (h' : KeysAscend right) (k : UInt32) :
    (pairScores distance negated left right).lookup k
      = pairOf negated (scan distance (left.lookup k) (right.lookup k))
        ((left.lookup k).map Sighting.score) ((right.lookup k).map Sighting.score) := by
  have hleft := h.filterMap (f := fun e =>
    (leftScore distance negated right e.1 e.2).map (Prod.mk e.1)) fun _ _ => rfl
  have hright := h'.filterMap (f := fun e =>
    (rightScore left e.1 e.2).map (Prod.mk e.1)) fun _ _ => rfl
  have hofLeft := h.lookup_filterMap (f := fun e =>
    (leftScore distance negated right e.1 e.2).map (Prod.mk e.1)) (fun _ _ => rfl) k
  have hofRight := h'.lookup_filterMap (f := fun e =>
    (rightScore left e.1 e.2).map (Prod.mk e.1)) (fun _ _ => rfl) k
  rw [pairScores_eq]
  rcases negated with _ | _
  · -- For nearness only the documents of the left word are gone through.
    rw [if_neg Bool.false_ne_true, hofLeft]
    rcases left.lookup k with _ | a
    · rcases right.lookup k with _ | b <;> rfl
    · rfl
  · rw [if_pos rfl, Scores.lookup_union hleft hright, hofLeft, hofRight]
    rcases hl : left.lookup k with _ | a
    · rcases right.lookup k with _ | b
      · rfl
      · rw [Option.bind_none, Option.merge_none_left, Option.bind_some, rightScore, hl]
        rfl
    · -- A document of the left word gets nothing from the right one.
      have hnone : (right.lookup k).bind (rightScore left k) = none := by
        rcases right.lookup k with _ | b
        · rfl
        · rw [Option.bind_some, rightScore, hl]
      rw [hnone, Option.merge_none_right]
      rfl

end Evaluation

end Concordance
