import Concordance.Proofs.Query.Depth

/-!
# How Deep Calls Are Nested

No query makes functions call each other without end.

Distributing a tree and evaluating it go down the tree by calls, and a call that waits for another
one takes up room. How much of it there has to be is a property of the functions, and not of their
values. So a recursion is written as what is done with a call, given what other calls are answered.
It can then be followed to a certain depth, and whatever is beyond may be answered by anything. If
this does not change what a call is answered, then no call that it makes is beyond.

Evaluation makes calls for operands only, and needs as much room as the tree is deep. Distribution
goes down the tree on two ways, and then goes down the trees that it has made of two operands. It
does the last of these before it knows whether it will refuse the query. So negations below
nearness count as well here, though there are none where it succeeds.

## Main definitions

* `Recursion`: What is done with a call, given what other calls are answered.
* `Recursion.Within`: A call that is answered by so many calls inside each other.
* `QueryTree.distributing`: The recursion of distribution.
* `QueryTree.evaluating`: The recursion of evaluation.

## Theorems

* `QueryTree.distributing_answer`, `QueryTree.evaluating_eval`: The functions are what their
  recursions make them.
* `QueryTree.Solid.nested`: How deep distribution goes.
* `QueryTree.eval_within`: How deep evaluation goes.
* `Searcher.parse_shallow`: Trees of queries are only so deep, and so is all that is done with
  them.
-/

namespace Concordance

/-- What is done with a call, given what other calls are answered. -/
abbrev Recursion (α β : Type) := (α → β) → α → β

namespace Recursion

variable {α β : Type} {recursion : Recursion α β} {answer : α → β} {n m : Nat} {call : α}

/-- The answer to a call if calls are followed to a certain depth only. Those that are beyond it
    are answered by something else. -/
def follow (recursion : Recursion α β) (beyond : α → β) : Nat → α → β
  | 0 => beyond
  | n + 1 => recursion (recursion.follow beyond n)

/-- A call is answered by so many calls inside each other, itself among them. -/
def Within (recursion : Recursion α β) (answer : α → β) (n : Nat) (call : α) : Prop :=
  ∀ beyond, recursion.follow beyond n call = answer call

theorem follow_add (beyond : α → β) :
    recursion.follow beyond (n + m) = recursion.follow (recursion.follow beyond m) n := by
  induction n with
  | zero => rw [Nat.zero_add]; rfl
  | succ n ih => rw [Nat.succ_add, follow, ih]; rfl

/-- More depth does no harm. -/
theorem Within.mono (h : recursion.Within answer n call) (hle : n ≤ m) :
    recursion.Within answer m call := by
  intro beyond
  rw [← Nat.add_sub_cancel' hle, follow_add]
  exact h _

/-- A call is answered above the calls that it makes. -/
theorem within_of_calls (hpos : 0 < n) (hanswer : recursion answer call = answer call)
    (h : ∀ other : α → β, (∀ {c k}, recursion.Within answer k c → k < n → other c = answer c) →
      recursion other call = recursion answer call) : recursion.Within answer n call := by
  intro beyond
  obtain ⟨n, rfl⟩ := Nat.exists_eq_add_one.mpr hpos
  exact (h _ fun hc hk => hc.mono (Nat.le_of_lt_succ hk) beyond).trans hanswer

/-- Calls of a kind that have sizes are answered by so many calls, if calls of the same kind that
    one of them makes are smaller than itself. -/
theorem within_of_size {ι : Type} (make : ι → α) (size : ι → Nat) (hpos : ∀ i, 0 < size i)
    (hanswer : ∀ call, recursion answer call = answer call)
    (h : ∀ i (other : α → β), (∀ {c k}, recursion.Within answer k c → k < size i →
        other c = answer c) → (∀ j, size j < size i → other (make j) = answer (make j)) →
      recursion other (make i) = recursion answer (make i)) (i : ι) :
    recursion.Within answer (size i) (make i) := by
  generalize hn : size i = n
  induction n using Nat.strongRecOn generalizing i with
  | _ n ih =>
    subst hn
    exact within_of_calls (hpos i) (hanswer _) fun other hother =>
      h i other hother fun j hlt => hother (ih _ hlt j rfl) hlt

end Recursion

namespace QueryTree

/-- A call of one of the functions that distribute a tree. -/
inductive Call where
  | distribute (tree : QueryTree)
  | connect (negated : Bool) (left right : QueryTree)
  | spreadOver (negated : Bool) (right left : QueryTree)
  | beside (negated : Bool) (left right : QueryTree)
  | join (negated : Bool) (left right : QueryTree)
  | joinWord (negated : Bool) (left right : QueryTree)
  | lastWord (tree : QueryTree)
  | firstWord (tree : QueryTree)

/-- What is returned from it. -/
def Call.answer : Call → Except Error QueryTree
  | .distribute tree => tree.distribute
  | .connect negated left right => QueryTree.connect negated left right
  | .spreadOver negated right left => QueryTree.spreadOver negated right left
  | .beside negated left right => QueryTree.beside negated left right
  | .join negated left right => QueryTree.join negated left right
  | .joinWord negated left right => QueryTree.joinWord negated left right
  | .lastWord tree => tree.lastWord
  | .firstWord tree => tree.firstWord

/-- What each of these functions does, other calls apart. -/
def distributing : Recursion Call (Except Error QueryTree)
  | answer, .distribute tree =>
    match tree with
    | .and children => (collect (children.map fun c => answer (.distribute c))).map .and
    | .or children => (collect (children.map fun c => answer (.distribute c))).map .or
    | .not child => (answer (.distribute child)).map .not
    | .near negated left right => answer (.connect negated left right)
    | leaf => .ok leaf
  | answer, .connect negated left right =>
    match left with
    | .near n first last => do
      let pair ← answer (.connect negated last right)
      let before ← answer (.connect n first last)
      .ok (.and (before.conjuncts ++ pair.conjuncts))
    | left => do
      let left ← answer (.distribute left)
      let right ← answer (.distribute right)
      answer (.spreadOver negated right left)
  | answer, .spreadOver negated right left =>
    match left with
    | .not _ => .error (.malformed .nearNot)
    | .empty => if right.isNot then .error (.malformed .nearNot) else .ok right
    | .or children =>
      if right.isNot then .error (.malformed .nearNot)
      else if right.isEmpty then .ok (.or children)
      else (collect (children.map fun c => answer (.spreadOver negated right c))).map .or
    | .and children =>
      if right.isNot then .error (.malformed .nearNot)
      else if right.isEmpty then .ok (.and children)
      else (collect (children.map fun c => answer (.spreadOver negated right c))).map .and
    | link => answer (.beside negated link right)
  | answer, .beside negated left right =>
    match right with
    | .not _ => .error (.malformed .nearNot)
    | .empty => .ok left
    | .or children => (collect (children.map fun c => answer (.beside negated left c))).map .or
    | .and children => (collect (children.map fun c => answer (.beside negated left c))).map .and
    | link => answer (.join negated left link)
  | answer, .join negated left right =>
    match left with
    | .near _ _ _ => do
      let last ← answer (.lastWord left)
      let link ← answer (.joinWord negated last right)
      .ok (.and [left, link])
    | _ => answer (.joinWord negated left right)
  | answer, .joinWord negated left right =>
    match right with
    | .near _ _ _ => do
      let first ← answer (.firstWord right)
      .ok (.and [.near negated left first, right])
    | _ => .ok (.near negated left right)
  | answer, .lastWord tree =>
    match tree with
    | .word w => .ok (.word w)
    | .near _ _ right => answer (.lastWord right)
    | .and children =>
      match children.getLast? with
      | none => .error (.malformed .emptyChain)
      | some child => answer (.lastWord child)
    | _ => .error (.malformed .chainOfNoWord)
  | answer, .firstWord tree =>
    match tree with
    | .word w => .ok (.word w)
    | .near _ left _ => answer (.firstWord left)
    | .and children =>
      match children.head? with
      | none => .error (.malformed .emptyChain)
      | some child => answer (.firstWord child)
    | _ => .error (.malformed .chainOfNoWord)

-- A call says which case it is, so the recursion is opened wherever a call stands.
attribute [local simp] distributing

theorem lastWordOfAll_eq (children : List QueryTree) : lastWordOfAll children
    = match children.getLast? with
      | none => .error (.malformed .emptyChain)
      | some child => child.lastWord := by
  induction children with
  | nil => rfl
  | cons child rest ih =>
    cases rest with
    | nil => rfl
    | cons next rest => rw [lastWordOfAll, ih, List.getLast?_cons_cons]

/-- The functions are what their recursion makes them. -/
theorem distributing_answer (call : Call) : distributing Call.answer call = call.answer := by
  cases call with
  | distribute tree =>
    cases tree <;> simp only [distributing, Call.answer, QueryTree.distribute, distributeAll_eq]
  | connect negated left right =>
    cases left with
    | near n first last =>
      -- A chain: its end is connected before the chain itself is.
      simp only [distributing, Call.answer, connect_near]
      rcases QueryTree.connect negated last right with e | pair
      · rfl
      · rcases QueryTree.connect n first last with e | before <;> rfl
    | _ =>
      simp only [distributing, Call.answer]
      rw [connect_eq (by simp)]
      rcases QueryTree.distribute _ with e | left'
      · rfl
      · rcases right.distribute with e | right' <;> rfl
  | spreadOver negated right left =>
    cases left <;> simp only [distributing, Call.answer, QueryTree.spreadOver, spreadOverAll_eq]
  | beside negated left right =>
    cases right <;> simp only [distributing, Call.answer, QueryTree.beside, besideAll_eq]
  | join negated left right =>
    cases left with
    | near n first last =>
      simp only [distributing, Call.answer, QueryTree.join]
      rcases (QueryTree.near n first last).lastWord with e | word
      · rfl
      · show (QueryTree.joinWord negated word right >>= _) = _
        simp only [bind, Except.bind]
        rcases QueryTree.joinWord negated word right with e | link <;> rfl
    | _ => simp only [distributing, Call.answer, QueryTree.join]
  | joinWord negated left right =>
    cases right with
    | near n first last =>
      simp only [distributing, Call.answer, QueryTree.joinWord]
      rcases (QueryTree.near n first last).firstWord with e | word <;> rfl
    | _ => simp only [distributing, Call.answer, QueryTree.joinWord]
  | lastWord tree =>
    cases tree <;> simp only [distributing, Call.answer, QueryTree.lastWord, lastWordOfAll_eq]
  | firstWord tree =>
    cases tree with
    | and children => cases children <;> rfl
    | _ => rfl

section Depths

variable {n : Nat} {negated : Bool} {tree left right : QueryTree} {children : List QueryTree}
  {wrap : List QueryTree → QueryTree}

theorem one_le_depth (tree : QueryTree) : 1 ≤ tree.depth := by
  cases tree <;> rw [depth] <;> exact Nat.le_add_left _ _

/-- An operand is less deep than the tree. -/
theorem depth_lt_of_mem (hwrap : wrap = .and ∨ wrap = .or) {child : QueryTree}
    (h : child ∈ children) : child.depth < (wrap children).depth := by
  rw [depth_gather hwrap]
  exact Nat.lt_succ_of_le (depthOfAll_le.mp (Nat.le_refl _) child h)

/-- Calls for all operands are answered, if those for less deep trees are. -/
theorem map_calls {make : QueryTree → Call} {other : Call → Except Error QueryTree}
    (hwrap : wrap = .and ∨ wrap = .or)
    (h : ∀ c : QueryTree, c.depth < (wrap children).depth →
      other (make c) = Call.answer (make c)) :
    (children.map fun c => other (make c)) = children.map fun c => Call.answer (make c) :=
  List.map_congr_left fun c hc => h c (depth_lt_of_mem hwrap hc)

/-- The end of a chain is found within its depth. -/
theorem lastWord_within (tree : QueryTree) :
    distributing.Within Call.answer tree.depth (.lastWord tree) := by
  refine Recursion.within_of_size Call.lastWord depth one_le_depth distributing_answer ?_ tree
  intro tree other _ hless
  cases tree with
  | and children =>
    simp only [distributing]
    rcases hlast : children.getLast? with _ | child
    · rfl
    · exact hless child (depth_lt_of_mem (.inl rfl) (List.mem_of_getLast? hlast))
  | near negated left right =>
    exact hless right (by rw [depth]; omega)
  | _ => rfl

/-- So is its beginning. -/
theorem firstWord_within (tree : QueryTree) :
    distributing.Within Call.answer tree.depth (.firstWord tree) := by
  refine Recursion.within_of_size Call.firstWord depth one_le_depth distributing_answer ?_ tree
  intro tree other _ hless
  cases tree with
  | and children =>
    simp only [distributing]
    rcases hfirst : children.head? with _ | child
    · rfl
    · exact hless child (depth_lt_of_mem (.inl rfl) (List.mem_of_head? hfirst))
  | near negated left right =>
    exact hless left (by rw [depth]; omega)
  | _ => rfl

theorem joinWord_within :
    distributing.Within Call.answer (right.depth + 1) (.joinWord negated left right) := by
  refine Recursion.within_of_calls (Nat.succ_pos _) (distributing_answer _) fun other hother => ?_
  cases right with
  | near n first last =>
    simp [hother (firstWord_within _) (Nat.lt_succ_self _)]
  | _ => rfl

/-- Two links are joined at their ends. -/
theorem join_within :
    distributing.Within Call.answer (left.depth + right.depth + 1) (.join negated left right) := by
  refine Recursion.within_of_calls (Nat.succ_pos _) (distributing_answer _) fun other hother => ?_
  have hpos := left.one_le_depth
  have hword : ∀ word, other (.joinWord negated word right)
      = Call.answer (.joinWord negated word right) := fun word =>
    hother joinWord_within (by omega)
  cases left with
  | near n first last =>
    simp [hword, hother (lastWord_within (.near n first last)) (by omega)]
  | _ => exact hword _

/-- Nearness of a link goes down the tree that it is put beside. -/
theorem beside_within (negated : Bool) (left right : QueryTree) :
    distributing.Within Call.answer (left.depth + right.depth + 2)
      (.beside negated left right) := by
  refine Recursion.within_of_size (Call.beside negated left)
    (fun right => left.depth + right.depth + 2) (fun _ => Nat.succ_pos _) distributing_answer ?_
    right
  intro right other hother hless
  cases right with
  | and children =>
    simp [map_calls (.inl rfl) fun c (hlt : c.depth < (QueryTree.and children).depth) =>
      hless c (by omega)]
  | or children =>
    simp [map_calls (.inr rfl) fun c (hlt : c.depth < (QueryTree.or children).depth) =>
      hless c (by omega)]
  | word w => exact hother join_within (Nat.lt_succ_self _)
  | near m first last => exact hother join_within (Nat.lt_succ_self _)
  | _ => rfl

/-- Nearness of two trees goes down one of them, and then the other. -/
theorem spreadOver_within (negated : Bool) (right left : QueryTree) :
    distributing.Within Call.answer (right.depth + left.depth + 3)
      (.spreadOver negated right left) := by
  refine Recursion.within_of_size (Call.spreadOver negated right)
    (fun left => right.depth + left.depth + 3) (fun _ => Nat.succ_pos _) distributing_answer ?_
    left
  intro left other hother hless
  cases left with
  | and children =>
    simp [map_calls (.inl rfl) fun c (hlt : c.depth < (QueryTree.and children).depth) =>
      hless c (by omega)]
  | or children =>
    simp [map_calls (.inr rfl) fun c (hlt : c.depth < (QueryTree.or children).depth) =>
      hless c (by omega)]
  -- From a leaf on it is the other tree that is gone down.
  | word w => exact hother (beside_within negated (.word w) right) (by omega)
  | near m first last =>
    exact hother (beside_within negated (.near m first last) right) (by omega)
  | _ => rfl

end Depths

/-- A bound on how deep the calls go that distribute a tree. -/
def callDepth (tree : QueryTree) : Nat :=
  2 * tree.operators + 2 * tree.negations + 5

/-- A tree that is distributed by so many calls inside each other, and so is nearness of it to such
    a tree. -/
structure Nested (tree : QueryTree) : Prop where
  distribute : distributing.Within Call.answer tree.callDepth (.distribute tree)
  connect : ∀ negated (right : QueryTree), right.Solid →
    distributing.Within Call.answer right.callDepth (.distribute right) →
      distributing.Within Call.answer
        (2 * (tree.operators + right.operators) + 2 * max tree.negations right.negations + 6)
        (.connect negated tree right)

/-- For a tree that is no chain the first is enough. What its operands become is no deeper than
    their operators and negations make it, and so nearness of them does not go deeper either. -/
theorem Nested.of_distribute {tree : QueryTree} (hsolid : tree.Solid)
    (h : ∀ n first last, tree ≠ .near n first last)
    (hd : distributing.Within Call.answer tree.callDepth (.distribute tree)) : tree.Nested := by
  refine ⟨hd, fun negated right hright hr => ?_⟩
  refine Recursion.within_of_calls (Nat.succ_pos _) (distributing_answer _) fun other hother => ?_
  have hleft : other (.distribute tree) = tree.distribute := hother hd (by rw [callDepth]; omega)
  have hright' : other (.distribute right) = right.distribute :=
    hother hr (by rw [callDepth]; omega)
  -- The two trees that were made are only so deep, which bounds the calls for both of them.
  have hspread : ∀ left' right', tree.distribute = .ok left' → right.distribute = .ok right' →
      other (.spreadOver negated right' left')
        = QueryTree.spreadOver negated right' left' := by
    intro left' right' hdone hafter
    have hdeep := hsolid.shallow.distribute left' hdone
    have hdeep' := hright.shallow.distribute right' hafter
    rw [shallowness] at hdeep hdeep'
    exact hother (spreadOver_within negated right' left') (by omega)
  -- A tree that is no chain is distributed first, and the other operand after it.
  have hboth : ∀ answer : Call → Except Error QueryTree,
      distributing answer (.connect negated tree right)
        = answer (.distribute tree) >>= fun left' => answer (.distribute right) >>= fun right' =>
          answer (.spreadOver negated right' left') := by
    intro answer
    cases tree with
    | near n first last => exact absurd rfl (h n first last)
    | _ => rfl
  rw [hboth, hboth, hleft, hright']
  rcases hdone : tree.distribute with e | left'
  · simp only [Call.answer, hdone, bind, Except.bind]
  · rcases hafter : right.distribute with e | right'
    · simp only [Call.answer, hdone, hafter, bind, Except.bind]
    · simp only [Call.answer, hdone, hafter, bind, Except.bind]
      exact hspread left' right' hdone hafter

/-- A chain is distributed link by link, and has an operator more than either of them. -/
theorem Nested.near {n : Bool} {first last : QueryTree} (hlast : last.Solid) (hf : first.Nested)
    (hl : last.Nested) : (QueryTree.near n first last).Nested := by
  have hlink := hf.connect n last hlast hl.distribute
  refine ⟨?_, fun negated right hright hr => ?_⟩
  · -- The chain itself is distributed by connecting its parts.
    refine Recursion.within_of_calls (Nat.succ_pos _) (distributing_answer _) fun other hother =>
      hother hlink ?_
    rw [callDepth, operators_near, negations]
    omega
  · have hnext := hl.connect negated right hright hr
    refine Recursion.within_of_calls (Nat.succ_pos _) (distributing_answer _) fun other hother => ?_
    rw [operators_near, negations] at hother
    simp [hother hlink (by omega), hother hnext (by omega)]

/-- Distribution goes no deeper than operators and negations make it. -/
theorem Solid.nested {tree : QueryTree} (h : tree.Solid) : tree.Nested := by
  have hgather : ∀ {wrap : List QueryTree → QueryTree} {children : List QueryTree},
      wrap = .and ∨ wrap = .or → (∀ c ∈ children, c.Nested) →
        distributing.Within Call.answer (wrap children).callDepth
          (.distribute (wrap children)) := by
    intro wrap children hwrap hall
    refine Recursion.within_of_calls (Nat.succ_pos _) (distributing_answer _) fun other hother => ?_
    have hsame : (children.map fun c => other (.distribute c))
        = children.map fun c => Call.answer (.distribute c) := by
      refine List.map_congr_left fun c hc => hother (hall c hc).distribute ?_
      have hoperators := operators_le_total hc
      have hnegations := negationsOfAll_le.mp (Nat.le_refl _) c hc
      rw [callDepth, callDepth, operators_gather hwrap, negations_gather hwrap]
      omega
    rcases hwrap with rfl | rfl <;> simp [hsame]
  have hnot : ∀ {child : QueryTree},
      distributing.Within Call.answer child.callDepth (.distribute child) →
        distributing.Within Call.answer (QueryTree.not child).callDepth
          (.distribute (.not child)) := by
    intro child hchild
    refine Recursion.within_of_calls (Nat.succ_pos _) (distributing_answer _) fun other hother => ?_
    have hlt : child.callDepth < (QueryTree.not child).callDepth := by
      rw [callDepth, callDepth, operators_not, negations]
      omega
    simp [hother hchild hlt]
  have hleaf : ∀ {tree : QueryTree}, (∀ answer, distributing answer (.distribute tree) = .ok tree) →
      distributing.Within Call.answer tree.callDepth (.distribute tree) := fun hleaf =>
    Recursion.within_of_calls (Nat.succ_pos _) (distributing_answer _) fun other _ =>
      (hleaf other).trans (hleaf _).symm
  -- Which of these a node is comes from the shape of the tree.
  induction h with
  | word w => exact .of_distribute (.word w) (by simp) (hleaf fun _ => rfl)
  | and hne hall ih => exact .of_distribute (.and hne hall) (by simp) (hgather (.inl rfl) ih)
  | or hne hall ih => exact .of_distribute (.or hne hall) (by simp) (hgather (.inr rfl) ih)
  | notEmpty => exact .of_distribute .notEmpty (by simp) (hnot (hleaf fun _ => rfl))
  | not hchild ih => exact .of_distribute (.not hchild) (by simp) (hnot ih.distribute)
  | near _ hlast ihf ihl => exact ihf.near hlast ihl

section Evaluating

variable {evaluation : Evaluation}

/-- The answers for several operands. Each begins with the words that were passed over before. -/
def evalEach (answer : QueryTree × WordSet → Except Error (Scores × WordSet)) (ignored : WordSet) :
    List QueryTree → Except Error (List Scores × WordSet)
  | [] => .ok ([], ignored)
  | child :: rest =>
    match answer (child, ignored) with
    | .error e => .error e
    | .ok (scores, ignored) => (evalEach answer ignored rest).map fun (others, ignored) =>
      (scores :: others, ignored)

/-- What evaluation does, other calls apart. Words and nearness of words call for none. -/
def evaluating (evaluation : Evaluation) :
    Recursion (QueryTree × WordSet) (Except Error (Scores × WordSet))
  | answer, (tree, ignored) =>
    match tree with
    | .and children => (evalEach answer ignored children).map fun (scores, ignored) =>
      (Evaluation.meanScores scores, ignored)
    | .or children => (evalEach answer ignored children).map fun (scores, ignored) =>
      (scores.foldl Scores.union [], ignored)
    | .not child => (answer (child, ignored)).map fun (scores, ignored) =>
      (Scores.complement scores evaluation.index.numDocuments Rank.absence, ignored)
    | _ => tree.eval evaluation ignored

/-- The answer to a call is the value of the function. -/
def evalCall (evaluation : Evaluation) (call : QueryTree × WordSet) :
    Except Error (Scores × WordSet) :=
  call.1.eval evaluation call.2

theorem evalEach_evalCall (ignored : WordSet) (children : List QueryTree) :
    evalEach (evalCall evaluation) ignored children = evalAll evaluation ignored children := by
  induction children generalizing ignored with
  | nil => rfl
  | cons child rest ih =>
    rw [evalEach, evalAll_cons, evalCall]
    rcases child.eval evaluation ignored with e | ⟨scores, passed⟩
    · rfl
    · simp only [ih]
      rfl

theorem evalEach_congr {answer other : QueryTree × WordSet → Except Error (Scores × WordSet)}
    {children : List QueryTree}
    (h : ∀ c ∈ children, ∀ ignored, other (c, ignored) = answer (c, ignored))
    (ignored : WordSet) : evalEach other ignored children = evalEach answer ignored children := by
  induction children generalizing ignored with
  | nil => rfl
  | cons child rest ih =>
    have hrest := ih fun c hc => h c (List.mem_cons_of_mem _ hc)
    simp only [evalEach, h child List.mem_cons_self, hrest]

/-- Evaluation is what its recursion makes it. -/
theorem evaluating_eval (call : QueryTree × WordSet) :
    evaluating evaluation (evalCall evaluation) call = evalCall evaluation call := by
  rcases call with ⟨tree, ignored⟩
  cases tree with
  | and children =>
    rw [evaluating, evalEach_evalCall, evalCall, eval_and]
  | or children =>
    rw [evaluating, evalEach_evalCall, evalCall, eval_or]
  | not child =>
    rw [evaluating, evalCall, evalCall, eval_not]
  | _ => rfl

/-- Evaluation goes as deep as the tree. -/
theorem eval_within (evaluation : Evaluation) (tree : QueryTree) (ignored : WordSet) :
    (evaluating evaluation).Within (evalCall evaluation) tree.depth (tree, ignored) := by
  refine Recursion.within_of_size id (fun call => call.1.depth)
    (fun call => call.1.one_le_depth) evaluating_eval ?_ (tree, ignored)
  intro ⟨tree, ignored⟩ other _ hless
  -- All children are below the node, whatever was reported before them.
  have hgather : ∀ {wrap : List QueryTree → QueryTree} {children : List QueryTree},
      wrap = .and ∨ wrap = .or → tree = wrap children →
        evalEach other ignored children = evalEach (evalCall evaluation) ignored children := by
    rintro wrap children hwrap rfl
    exact evalEach_congr (fun c hc passed => hless (c, passed) (depth_lt_of_mem hwrap hc)) ignored
  cases tree with
  | and children => simp only [id, evaluating, hgather (.inl rfl) rfl]
  | or children => simp only [id, evaluating, hgather (.inr rfl) rfl]
  | not child =>
    have hchild := hless (child, ignored) (by simp only [depth]; exact Nat.lt_succ_self _)
    simp only [id] at hchild
    simp only [id, evaluating, hchild]
  | _ => rfl

end Evaluating

end QueryTree

namespace Parser

variable {lookup : Lookup}

/-- Distributing a tree that was read goes no deeper than its operators and negations make it. -/
theorem parse_nested {tokens : List Token} {tree : QueryTree} {ignored : WordSet}
    (h : parse lookup tokens = .ok (tree, ignored)) :
    QueryTree.distributing.Within QueryTree.Call.answer tree.callDepth (.distribute tree) := by
  rcases parse_keeps kept_solid h with ⟨-, rfl | hsolid⟩
  · exact Recursion.within_of_calls (Nat.succ_pos _) (QueryTree.distributing_answer _)
      fun _ _ => rfl
  · exact hsolid.nested.distribute

end Parser

/-- Whatever the index and the words that are asked for, a query that is read makes a tree with
    only so many operators, which is only so deep, and the tree that is evaluated is not much
    deeper. So calls are only so deep as well, both where the one tree is made of the other, and
    where it is evaluated. -/
theorem Searcher.parse_shallow :
    (∀ (lookup : Parser.Lookup) (tokens : List Token) (tree : QueryTree) (ignored : WordSet),
        Parser.parse lookup tokens = .ok (tree, ignored) →
          tree.depth ≤ 2 * 256 + 1 ∧ tree.operators ≤ 256
          ∧ QueryTree.distributing.Within QueryTree.Call.answer (4 * 256 + 5) (.distribute tree))
      ∧ ∀ (searcher : Searcher) (query : String) (tree : QueryTree) (ignored : WordSet),
        searcher.parse query = .ok (tree, ignored) →
          tree.depth ≤ 3 * 256 + 1
          ∧ ∀ (evaluation : Evaluation) (passed : WordSet), (QueryTree.evaluating evaluation).Within
              (QueryTree.evalCall evaluation) (3 * 256 + 1) (tree, passed) := by
  have hlimit : Parser.depthLimit = 256 := rfl
  refine ⟨fun lookup tokens tree ignored h => ?_, fun searcher query tree ignored h => ?_⟩
  · have hcounted := Parser.parse_counted h
    have hdepth := tree.depth_le
    have hnested := Parser.parse_nested h
    refine ⟨by omega, by omega, hnested.mono ?_⟩
    rw [QueryTree.callDepth]
    omega
  · -- The tree that is evaluated is the one that was read, with its nearness pushed down.
    rcases parse_eq_ok_iff.mp h with ⟨tokens, read, -, hread, hnode⟩
    have hcounted := Parser.parse_counted hread
    have hdepth := Parser.parse_distribute_depth hread hnode
    rw [QueryTree.shallowness] at hdepth
    have hdeep : tree.depth ≤ 3 * 256 + 1 := by omega
    exact ⟨hdeep, fun evaluation passed =>
      (QueryTree.eval_within evaluation tree passed).mono hdeep⟩

open Grammar in
/-- A negation of a group with a chain in it, which is split, in an index that has nothing in it. -/
theorem Searcher.parse_shallow_chain :
    ∃ index tree node, Index.open? (List.replicate 40 0).toArray = .ok index
      ∧ Parser.parse ⟨index, id, {}⟩ [.not, .openParen, .word "cat", .near, .word "dog", .near,
          .word "bird", .closeParen, .finish] = .ok (tree, [])
      ∧ tree.depth = 4 ∧ tree.operators = 2
      ∧ Searcher.parse ⟨index, {}, id⟩ "not (cat near dog near bird)" = .ok (node, [])
      ∧ (tree.depth ≤ 2 * 256 + 1 ∧ tree.operators ≤ 256
        ∧ QueryTree.distributing.Within QueryTree.Call.answer (4 * 256 + 5) (.distribute tree))
      ∧ node.depth ≤ 3 * 256 + 1
      ∧ ∀ (evaluation : Evaluation) (passed : WordSet), (QueryTree.evaluating evaluation).Within
          (QueryTree.evalCall evaluation) (3 * 256 + 1) (node, passed) := by
  rcases exists_nothing with ⟨index, hopen, hnothing⟩
  have hdescribes := Vocabulary.describes_nothing hnothing id {}
  let query : Query := .chain (.plain (.not (.plain (.group (.chain (.plain (.word "cat"))
    (.cons .near (.plain (.word "dog")) (.cons .near (.plain (.word "bird")) .nil))))))) .nil
  let leaf (word : String) : WordLeaf := ⟨word, 0, 0, none⟩
  let tree : QueryTree := .not (.near false (.near false (.word (leaf "cat")) (.word (leaf "dog")))
    (.word (leaf "bird")))
  let node : QueryTree := .not (.and [.near false (.word (leaf "cat")) (.word (leaf "dog")),
    .near false (.word (leaf "dog")) (.word (leaf "bird"))])
  have hread : Parser.parse ⟨index, id, {}⟩ (query.spelling ++ [.finish]) = .ok (tree, []) :=
    parse_spelling hdescribes query (by decide) (by decide)
  have htokens : tokenize (Text.fold "not (cat near dog near bird)")
      = .ok (query.spelling ++ [.finish]) :=
    eq_ok_of_toOption (by decide +kernel)
  -- The chain of three words is split into its two links.
  have hlink : ∀ left right : WordLeaf, QueryTree.connect false (.word left) (.word right)
      = .ok (.near false (.word left) (.word right)) := fun left right => by
    have hnear := QueryTree.distribute_words false left right
    rwa [QueryTree.distribute] at hnear
  have hnode : tree.distribute = .ok node := by
    rw [QueryTree.distribute, QueryTree.distribute, QueryTree.connect_near, hlink, hlink]
    rfl
  have hsearch : Searcher.parse ⟨index, {}, id⟩ "not (cat near dog near bird)" = .ok (node, []) :=
    parse_eq_ok_iff.mpr ⟨_, tree, htokens, hread, hnode⟩
  exact ⟨index, tree, node, hopen, hread, rfl, rfl, hsearch, parse_shallow.1 _ _ _ _ hread,
    parse_shallow.2 _ _ _ _ hsearch⟩

end Concordance
