import Concordance.Proofs.Collect
import Concordance.Proofs.Query.Grammar
import Concordance.Proofs.WordSet
import Mathlib.Data.List.Basic

/-!
# Reading Queries

The parser accepts what its grammar derives, and finds the derivation.

The two directions are proved apart, and along different things. That tokens which are
derived are read is an induction on the derivation, since it says what the parser should
do next: `Query.read` and its siblings. That tokens which are read are derived is an
induction on the tokens that are left, as the parser itself is: `query_outcome` and its
siblings. These look at failures as well, so that each function of the parser is opened
once.

Of a chain, both say how it goes on from an operand in the middle, where what was read so
far is there as a tree only. `Chain.Builds` ties that tree to the operands.

How deep a query may be nested is counted from the outside. The nodes are counted through
the whole query, so that a limit is passed or kept by a part only with all parts before it.

## Main definitions

* `Grammar.Vocabulary.Describes`, `DescribesWords`: Lookups succeed, and say what a vocabulary
  says.
* `Grammar.Query.Described`: Those that a query takes do.
* `Grammar.Vocabulary.Agrees`: Lookups that succeed say what a vocabulary says.
* `Grammar.Taken`: Tokens were taken, and all limits kept.

## Theorems

* `Grammar.Query.read`: What is derived is read.
* `Grammar.query_outcome`: What is read is derived, and failures are malformed queries or
  failures of lookups.
* `Grammar.parse_agrees`, `Grammar.parse_derived`: The same of whole queries.
-/

namespace Concordance

namespace Grammar

open Concordance.Parser

/-- All lookups in an index succeed, and say what a vocabulary says. -/
structure Vocabulary.Describes (vocabulary : Vocabulary) (lookup : Lookup) : Prop where
  nameId : ∀ name, lookup.index.nameId name = .ok (vocabulary.nameId name)
  placeOf : ∀ word, lookup.index.placeOf word = .ok (vocabulary.placeOf word)
  placesFrom : ∀ lead, lookup.index.wordsWithPrefix lead = .ok (vocabulary.placesFrom lead)
  isStopWord : ∀ word, lookup.index.isStopWord word = .ok (vocabulary.isStopWord word)
  stemmer : lookup.stemmer = vocabulary.stemmer
  sizes : lookup.sizes = vocabulary.sizes

variable {vocabulary : Vocabulary} {lookup : Lookup}

/-- Lookups of words succeed, and say what a vocabulary says. Those of names may fail. -/
structure Vocabulary.DescribesWords (vocabulary : Vocabulary) (lookup : Lookup) : Prop where
  placeOf : ∀ word, lookup.index.placeOf word = .ok (vocabulary.placeOf word)
  placesFrom : ∀ lead, lookup.index.wordsWithPrefix lead = .ok (vocabulary.placesFrom lead)
  isStopWord : ∀ word, lookup.index.isStopWord word = .ok (vocabulary.isStopWord word)
  stemmer : lookup.stemmer = vocabulary.stemmer
  sizes : lookup.sizes = vocabulary.sizes

theorem Vocabulary.Describes.words (h : vocabulary.Describes lookup) :
    vocabulary.DescribesWords lookup :=
  ⟨h.placeOf, h.placesFrom, h.isStopWord, h.stemmer, h.sizes⟩

theorem Vocabulary.Describes.filterOf_eq (h : vocabulary.Describes lookup) (name : String) :
    Parser.filterOf lookup name = .ok (vocabulary.filterOf name) := by
  rw [Parser.filterOf, h.nameId, Vocabulary.filterOf]
  cases vocabulary.nameId name <;> rfl

namespace Vocabulary.DescribesWords

theorem stemOf_eq (h : vocabulary.DescribesWords lookup) (word : String) :
    stemOf lookup word
      = .ok (if vocabulary.skips word then none else some (vocabulary.stemmer word)) := by
  rw [stemOf, h.sizes, h.isStopWord, h.stemmer, Vocabulary.skips]
  by_cases hcheck : (Word.check vocabulary.sizes word).isSome
  · rw [if_pos hcheck, hcheck]
    rfl
  · rw [if_neg hcheck, Bool.eq_false_iff.mpr hcheck, Bool.false_or]
    rcases hword : vocabulary.isStopWord word with _ | _
    · simp only [h.isStopWord, Bool.false_or]
      by_cases hstem : vocabulary.stemmer word = word
      · rw [if_pos hstem, hstem, hword]
        rfl
      · rw [if_neg hstem]
        cases vocabulary.isStopWord (vocabulary.stemmer word) <;> rfl
    · rfl

theorem entriesOf_eq (h : vocabulary.DescribesWords lookup) (filter : NameFilter) (word : String) :
    entriesOf lookup filter word
      = .ok (if filter = .unknown then (0, 0) else vocabulary.entries word) := by
  rw [entriesOf, h.placeOf, Vocabulary.entries]
  split
  · rfl
  · cases vocabulary.placeOf word <;> rfl

/-- A word is a leaf with the entries of its stem, unless it is skipped. -/
theorem wordLeaf_eq (h : vocabulary.DescribesWords lookup) (filter : NameFilter) (word : String) :
    wordLeaf lookup filter word
      = .ok ((Primary.word word).tree vocabulary filter,
        if vocabulary.skips word then some word else none) := by
  rw [wordLeaf, h.stemOf_eq, Primary.tree]
  cases vocabulary.skips word with
  | true => rfl
  | false =>
    rw [if_neg Bool.false_ne_true, if_neg Bool.false_ne_true, if_neg Bool.false_ne_true]
    simp only [h.entriesOf_eq]
    rfl

theorem wildcardLeaf_eq (h : vocabulary.DescribesWords lookup) (filter : NameFilter)
    (lead : String) :
    wildcardLeaf lookup filter lead = .ok ((Primary.wildcard lead).tree vocabulary filter) := by
  have hentries : entriesFrom lookup filter lead
      = .ok (if filter = .unknown then (0, 0) else vocabulary.placesFrom lead) := by
    rw [entriesFrom, h.placesFrom]
    split <;> rfl
  rw [wildcardLeaf, hentries]
  rfl

end Vocabulary.DescribesWords

section Lookups

variable (vocabulary lookup)

mutual

/-- The lookups that reading a query takes all succeed, and say what a vocabulary says. Other
    lookups may fail. -/
def Query.Described : Query → Prop
  | .chain first rest => first.Described ∧ rest.Described

def Links.Described : Links → Prop
  | .nil => True
  | .cons _ next rest => next.Described ∧ rest.Described

def Operand.Described : Operand → Prop
  | .named name primary =>
    Parser.filterOf lookup name = .ok (vocabulary.filterOf name) ∧ primary.Described
  | .plain primary => primary.Described

def Primary.Described : Primary → Prop
  | .group query => query.Described
  | .not operand => operand.Described
  | .word text => ∀ filter, wordLeaf lookup filter text
    = .ok ((Primary.word text).tree vocabulary filter,
      if vocabulary.skips text then some text else none)
  | .wildcard lead =>
    ∀ filter, wildcardLeaf lookup filter lead = .ok ((Primary.wildcard lead).tree vocabulary filter)

end

end Lookups

mutual

/-- If all lookups succeed, then so do those that a query takes. -/
theorem Vocabulary.Describes.query (h : vocabulary.Describes lookup) :
    ∀ query : Query, query.Described vocabulary lookup
  | .chain first rest => ⟨h.operand first, h.links rest⟩

theorem Vocabulary.Describes.links (h : vocabulary.Describes lookup) :
    ∀ rest : Links, rest.Described vocabulary lookup
  | .nil => trivial
  | .cons _ next rest => ⟨h.operand next, h.links rest⟩

theorem Vocabulary.Describes.operand (h : vocabulary.Describes lookup) :
    ∀ operand : Operand, operand.Described vocabulary lookup
  | .named name primary => ⟨h.filterOf_eq name, h.primary primary⟩
  | .plain primary => h.primary primary

theorem Vocabulary.Describes.primary (h : vocabulary.Describes lookup) :
    ∀ primary : Primary, primary.Described vocabulary lookup
  | .group query => h.query query
  | .not operand => h.operand operand
  | .word text => fun filter => h.words.wordLeaf_eq filter text
  | .wildcard lead => fun filter => h.words.wildcardLeaf_eq filter lead

end

theorem report_eq (progress : Progress) (word : String) (skips : Bool) :
    progress.report (if skips then some word else none)
      = { progress with ignored := progress.ignored.union (if skips then [word] else []) } := by
  cases skips <;> rfl

theorem chainLinks_single (op : Operator) (tree : QueryTree) : chainLinks [(op, tree)] = 0 :=
  Nat.le_zero.mp (chainLinks_le (op, tree) [])

/-- What follows an operand does not make it a name. -/
theorem Links.head?_ne_equals (more : Links) {rest : List Token} (h : operator rest = none) :
    (more.spelling ++ rest).head? ≠ some .equals := by
  cases more with
  | nil =>
    intro heq
    rcases rest with _ | ⟨token, rest⟩
    · exact absurd heq (by simp [Links.spelling])
    · rcases Option.some.inj heq with rfl
      exact absurd h (by simp [operator])
  | cons relop next more =>
    rcases relop <;> rcases next with ⟨name, primary⟩ | (query | operand | text | lead) <;>
      simp [Links.spelling, Relop.spelling, Operand.spelling, Primary.spelling]

mutual

/-- A query that is derived is read. -/
theorem Query.read (query : Query) (h : query.Described vocabulary lookup) (scope : Scope)
    {rest : List Token} (links : Nat) (ignored : WordSet) (hrest : operator rest = none)
    (hnesting : scope.nesting + query.nesting ≤ depthLimit)
    (hlinks : links + query.links vocabulary scope.filter ≤ depthLimit) :
    ∃ hlt, Parser.query lookup scope ⟨query.spelling ++ rest, links, ignored⟩
      = .ok (query.tree vocabulary scope.filter, ⟨⟨rest,
        links + query.links vocabulary scope.filter,
        ignored.union (query.skipped vocabulary)⟩, hlt⟩) := by
  cases query with
  | chain first more =>
    rw [Query.Described] at h
    rw [Query.nesting] at hnesting
    rw [Query.links] at hlinks
    -- The first operand is read, and then the chain goes on from its tree.
    obtain ⟨hlt, hfirst⟩ := first.read h.1 scope links ignored (more.head?_ne_equals hrest)
      (by omega) (by omega)
    obtain ⟨hle, hchain⟩ := more.read h.2 scope (links + first.links vocabulary scope.filter)
      (ignored.union (first.skipped vocabulary)) hrest
      (Chain.Builds.first .and (first.tree vocabulary scope.filter)) (by omega)
      (by rw [List.singleton_append]; omega)
    rw [chainLinks_single] at hchain
    rw [Query.spelling, List.append_assoc, Query.links, Query.tree, Query.skipped,
      WordSet.union_append, ← Nat.add_assoc, ← Nat.add_assoc]
    refine ⟨Nat.lt_of_le_of_lt hle hlt, ?_⟩
    rw [Parser.query]
    simp only [hfirst, Nat.add_zero] at hchain ⊢
    simp only [hchain]
    rfl

/-- The operands of a chain that are derived are read. -/
theorem Links.read (more : Links) (h : more.Described vocabulary lookup) (scope : Scope)
    {rest : List Token} (base : Nat) (ignored : WordSet) {sofar : Chain}
    {done : List (Operator × QueryTree)} (hrest : operator rest = none)
    (hbuilds : sofar.Builds done) (hnesting : scope.nesting + more.nesting ≤ depthLimit)
    (hlinks : base + more.links vocabulary scope.filter
      + chainLinks (done ++ more.operands vocabulary scope.filter) ≤ depthLimit) :
    ∃ hle, Parser.chain lookup scope sofar
        ⟨more.spelling ++ rest, base + chainLinks done, ignored⟩
      = .ok (chainTree (done ++ more.operands vocabulary scope.filter), ⟨⟨rest,
        base + more.links vocabulary scope.filter
          + chainLinks (done ++ more.operands vocabulary scope.filter),
        ignored.union (more.skipped vocabulary)⟩, hle⟩) := by
  cases more with
  | nil =>
    -- The chain ends where there is no operator.
    refine ⟨Nat.le_refl _, ?_⟩
    rw [Parser.chain]
    simp only [Links.spelling, List.nil_append, hrest, hbuilds.tree, Links.operands,
      List.append_nil, Links.links, Nat.add_zero, Links.skipped]
    rfl
  | cons relop next more =>
    rw [Links.Described] at h
    rw [Links.nesting] at hnesting
    rw [Links.links, Links.operands] at hlinks
    rw [List.append_cons] at hlinks
    -- A limit that the whole chain keeps is kept at each of its operands.
    have hmono := chainLinks_le_append
      (done ++ [(relop.operator, next.tree vocabulary scope.filter)])
      (more.operands vocabulary scope.filter)
    have hop := relop.operator_spelling next (more.spelling ++ rest)
    have hfits : base + chainLinks done + next.links vocabulary scope.filter ≤ depthLimit := by
      have := chainLinks_le_append done [(relop.operator, next.tree vocabulary scope.filter)]
      omega
    obtain ⟨cost, hcost, hextend⟩ := hbuilds.extend relop.operator
      (next.tree vocabulary scope.filter) hfits
    -- The parser takes the operand from behind the operator, which it drops by its size.
    have hnext := next.read h.1 scope (base + chainLinks done) ignored
      (more.head?_ne_equals hrest) (by omega) (by omega)
    rw [show next.spelling ++ (more.spelling ++ rest) = (relop.spelling
      ++ (next.spelling ++ (more.spelling ++ rest))).drop relop.spelling.length
      from List.drop_left.symm] at hnext
    obtain ⟨hlt, hnext⟩ := hnext
    rcases hextend with ⟨longer, hlonger, hle, hbuilds'⟩ | ⟨hmany, -⟩
    · obtain ⟨hle', hmore⟩ := more.read h.2 scope (base + next.links vocabulary scope.filter)
        (ignored.union (next.skipped vocabulary)) hrest hbuilds' (by omega) (by omega)
      have hlinks' : base + next.links vocabulary scope.filter
          + chainLinks (done ++ [(relop.operator, next.tree vocabulary scope.filter)])
          = base + chainLinks done + next.links vocabulary scope.filter + cost := by
        omega
      rw [hlinks'] at hmore
      rw [Links.spelling, List.append_assoc, List.append_assoc, Links.links, Links.operands,
        Links.skipped, WordSet.union_append, ← Nat.add_assoc, List.append_cons]
      refine ⟨by simp only [List.length_append]; omega, ?_⟩
      rw [Parser.chain]
      simp only [hop, hnext, hlonger, hmore]
    · -- The nodes were more than the whole chain takes.
      exact absurd hmany (by omega)

/-- An operand that is derived is read. -/
theorem Operand.read (operand : Operand) (h : operand.Described vocabulary lookup) (scope : Scope)
    {rest : List Token} (links : Nat) (ignored : WordSet) (hrest : rest.head? ≠ some .equals)
    (hnesting : scope.nesting + operand.nesting ≤ depthLimit)
    (hlinks : links + operand.links vocabulary scope.filter ≤ depthLimit) :
    ∃ hlt, Parser.operand lookup scope ⟨operand.spelling ++ rest, links, ignored⟩
      = .ok (operand.tree vocabulary scope.filter, ⟨⟨rest,
        links + operand.links vocabulary scope.filter,
        ignored.union (operand.skipped vocabulary)⟩, hlt⟩) := by
  cases operand with
  | named name primary =>
    rw [Operand.Described] at h
    obtain ⟨hlt, hprimary⟩ := primary.read h.2 { scope with filter := vocabulary.filterOf name }
      links ignored hrest hnesting hlinks
    rw [Operand.spelling]
    refine ⟨Nat.lt_succ_of_lt (Nat.lt_succ_of_lt hlt), ?_⟩
    rw [Parser.operand]
    simp only [List.cons_append, h.1, hprimary]
    rfl
  | plain primary =>
    rw [Operand.Described] at h
    obtain ⟨hlt, hprimary⟩ := primary.read h scope links ignored hrest hnesting hlinks
    rw [Operand.spelling]
    refine ⟨hlt, ?_⟩
    rw [Parser.operand]
    split
    · -- A word behind which there is an equals sign would be a name.
      rename_i name behind ht
      cases primary with
      | word text =>
        have hbehind : rest = .equals :: behind := (List.cons.inj ht).2
        exact absurd (congrArg List.head? hbehind) hrest
      | _ => exact absurd (List.cons.inj ht).1 (by simp)
    · exact hprimary

/-- A primary that is derived is read. -/
theorem Primary.read (primary : Primary) (h : primary.Described vocabulary lookup) (scope : Scope)
    {rest : List Token} (links : Nat) (ignored : WordSet) (hrest : rest.head? ≠ some .equals)
    (hnesting : scope.nesting + primary.nesting ≤ depthLimit)
    (hlinks : links + primary.links vocabulary scope.filter ≤ depthLimit) :
    ∃ hlt, Parser.primary lookup scope ⟨primary.spelling ++ rest, links, ignored⟩
      = .ok (primary.tree vocabulary scope.filter, ⟨⟨rest,
        links + primary.links vocabulary scope.filter,
        ignored.union (primary.skipped vocabulary)⟩, hlt⟩) := by
  cases primary with
  | group query =>
    rw [Primary.Described] at h
    rw [Primary.nesting] at hnesting
    -- The query ends at the bracket, which is no operator.
    have hclose : operator (.closeParen :: rest) = none := rfl
    obtain ⟨hlt, hquery⟩ := query.read h
      { scope with nesting := scope.nesting + 1, groups := scope.groups + 1 } links ignored hclose
      (by show scope.nesting + 1 + query.nesting ≤ depthLimit; omega) hlinks
    rw [Primary.spelling, List.cons_append, List.append_assoc]
    refine ⟨Nat.lt_succ_of_lt (Nat.lt_of_succ_lt hlt), ?_⟩
    rw [Parser.primary]
    simp only [List.singleton_append]
    rw [if_neg (by omega)]
    simp only [hquery]
    rfl
  | not operand =>
    rw [Primary.Described] at h
    rw [Primary.nesting] at hnesting
    obtain ⟨hlt, hoperand⟩ := operand.read h { scope with nesting := scope.nesting + 1 } links
      ignored hrest (by show scope.nesting + 1 + operand.nesting ≤ depthLimit; omega) hlinks
    rw [Primary.spelling]
    refine ⟨Nat.lt_succ_of_lt hlt, ?_⟩
    rw [Parser.primary]
    simp only [List.cons_append]
    rw [if_neg (by omega)]
    simp only [hoperand]
    rfl
  | word text =>
    rw [Primary.Described] at h
    rw [Primary.spelling]
    refine ⟨Nat.lt_succ_self _, ?_⟩
    rw [Parser.primary]
    simp only [List.cons_append, List.nil_append, h, report_eq]
    rfl
  | wildcard lead =>
    rw [Primary.Described] at h
    rw [Primary.spelling]
    refine ⟨Nat.lt_succ_self _, ?_⟩
    rw [Parser.primary]
    simp only [List.cons_append, List.nil_append, h]
    rfl

end

/-- What was read is refused, or it is something with a property. -/
def Outcome {α : Type} (refused : Error → Prop) (holds : α → Prop) : Except Error α → Prop
  | .error e => refused e
  | .ok a => holds a

theorem Outcome.imp {α : Type} {refused : Error → Prop} {holds holds' : α → Prop}
    {result : Except Error α} (h : Outcome refused holds result) (himp : ∀ a, holds a → holds' a) :
    Outcome refused holds' result := by
  rcases result with e | a
  · exact h
  · exact himp a h

/-- What was read was refused, or there is something that has the property. -/
theorem Outcome.cases {α : Type} {refused : Error → Prop} {holds : α → Prop}
    {result : Except Error α} (h : Outcome refused holds result) :
    (∃ e, result = .error e ∧ refused e) ∨ ∃ a, result = .ok a ∧ holds a := by
  rcases result with e | a
  · exact .inl ⟨e, rfl, h⟩
  · exact .inr ⟨a, rfl, h⟩

/-- A vocabulary agrees with an index if lookups that succeed say what it says. Those that fail
    have errors of some kind, and malformed queries are of that kind too. -/
structure Vocabulary.Agrees (vocabulary : Vocabulary) (lookup : Lookup) (refused : Error → Prop) :
    Prop where
  malformed : ∀ cause, refused (.malformed cause)
  filterOf : ∀ name, Outcome refused (· = vocabulary.filterOf name) (Parser.filterOf lookup name)
  wordLeaf : ∀ filter word, Outcome refused (· = ((Primary.word word).tree vocabulary filter,
    if vocabulary.skips word then some word else none)) (Parser.wordLeaf lookup filter word)
  wildcardLeaf : ∀ filter lead, Outcome refused (· = (Primary.wildcard lead).tree vocabulary filter)
    (Parser.wildcardLeaf lookup filter lead)

/-- One that describes the words of an index agrees with it, if it agrees on names. -/
theorem Vocabulary.DescribesWords.agrees {refused : Error → Prop}
    (h : vocabulary.DescribesWords lookup) (hmalformed : ∀ cause, refused (.malformed cause))
    (hnames : ∀ name,
      Outcome refused (· = vocabulary.filterOf name) (Parser.filterOf lookup name)) :
    vocabulary.Agrees lookup refused where
  malformed := hmalformed
  filterOf := hnames
  wordLeaf filter word := by
    rw [h.wordLeaf_eq]
    exact rfl
  wildcardLeaf filter lead := by
    rw [h.wildcardLeaf_eq]
    exact rfl

/-- If names are described as well, then all that can be wrong is the form of a query. -/
theorem Vocabulary.Describes.agrees (h : vocabulary.Describes lookup) :
    vocabulary.Agrees lookup fun e => ∃ cause, e = .malformed cause := by
  refine h.words.agrees (fun cause => ⟨cause, rfl⟩) fun name => ?_
  rw [h.filterOf_eq]
  exact rfl

/-- Tokens were taken, words were reported, and all limits kept. -/
structure Taken (scope : Scope) (progress later : Progress) (spelling : List Token)
    (nesting links : Nat) (skipped : List String) : Prop where
  tokens : progress.tokens = spelling ++ later.tokens
  nesting : scope.nesting + nesting ≤ depthLimit
  links : later.links = progress.links + links
  limit : later.links ≤ depthLimit
  ignored : later.ignored = progress.ignored.union skipped

variable {scope : Scope} {progress later last : Progress} {spelling spelling' : List Token}
  {nesting nesting' links links' : Nat} {skipped skipped' : List String} {refused : Error → Prop}

/-- Tokens were taken twice. -/
theorem Taken.append (h : Taken scope progress later spelling nesting links skipped)
    (h' : Taken scope later last spelling' nesting' links' skipped') :
    Taken scope progress last (spelling ++ spelling') (max nesting nesting') (links + links')
      (skipped ++ skipped') where
  tokens := by rw [h.tokens, h'.tokens, List.append_assoc]
  nesting := by
    have := h.nesting
    have := h'.nesting
    omega
  links := by rw [h'.links, h.links, Nat.add_assoc]
  limit := h'.limit
  ignored := by rw [h'.ignored, h.ignored, WordSet.union_append]

/-- One operand of a chain was taken, and then all others. The operators inside the operands
    are counted apart from those that join them, which belong to the chain as a whole. -/
theorem Taken.cons {relop : Relop} {next : Operand} {more : Links} {size base cost : Nat}
    {done : List (Operator × QueryTree)}
    (hspelling : progress.tokens = relop.spelling ++ progress.tokens.drop size)
    (h : Taken scope { progress with tokens := progress.tokens.drop size } later next.spelling
      next.nesting (next.links vocabulary scope.filter) (next.skipped vocabulary))
    (h' : Taken scope
      { { later with links := later.links + cost } with
        links := base + next.links vocabulary scope.filter } last more.spelling more.nesting
      (more.links vocabulary scope.filter
        + chainLinks (done ++ [(relop.operator, next.tree vocabulary scope.filter)]
          ++ more.operands vocabulary scope.filter))
      (more.skipped vocabulary)) :
    let chain := Links.cons relop next more
    Taken scope { progress with links := base } last chain.spelling chain.nesting
      (chain.links vocabulary scope.filter
        + chainLinks (done ++ chain.operands vocabulary scope.filter))
      (chain.skipped vocabulary) where
  tokens := by
    have htokens : progress.tokens.drop size = next.spelling ++ later.tokens := h.tokens
    have htokens' : later.tokens = more.spelling ++ last.tokens := h'.tokens
    show progress.tokens = _
    rw [hspelling, htokens, htokens', Links.spelling, List.append_assoc, List.append_assoc]
  nesting := by
    have := h.nesting
    have := h'.nesting
    rw [Links.nesting]
    omega
  links := by
    have hlast : last.links = _ := h'.links
    show last.links = base + _
    -- The operators that join are counted over the whole chain, so that the operand which was taken
    -- moves from the rest to what is done.
    rw [hlast, Links.operands, ← List.append_cons, Links.links, Nat.add_assoc, Nat.add_assoc]
  limit := h'.limit
  ignored := by
    have hignored : later.ignored = progress.ignored.union (next.skipped vocabulary) := h.ignored
    have hignored' : last.ignored = later.ignored.union (more.skipped vocabulary) := h'.ignored
    show last.ignored = progress.ignored.union _
    rw [hignored', hignored, Links.skipped, WordSet.union_append]

/-- A query was taken, and there are brackets around it. -/
theorem Taken.group {query : Query} {rest behind : List Token} {groups : Nat}
    (hopen : progress.tokens = .openParen :: rest) (hclose : later.tokens = .closeParen :: behind)
    (h : Taken { scope with nesting := scope.nesting + 1, groups } { progress with tokens := rest }
      later query.spelling query.nesting links skipped) :
    Taken scope progress { later with tokens := behind } (Primary.group query).spelling
      (Primary.group query).nesting links skipped where
  tokens := by
    have htokens : rest = query.spelling ++ later.tokens := h.tokens
    rw [hopen, htokens, hclose, Primary.spelling, List.cons_append, List.append_assoc]
    rfl
  nesting := by
    have hnesting : scope.nesting + 1 + query.nesting ≤ depthLimit := h.nesting
    rw [Primary.nesting]
    omega
  links := h.links
  limit := h.limit
  ignored := h.ignored

/-- An operand was taken, and there is a negation in front of it. -/
theorem Taken.not {operand : Operand} {rest : List Token}
    (hnot : progress.tokens = .not :: rest)
    (h : Taken { scope with nesting := scope.nesting + 1 } { progress with tokens := rest } later
      operand.spelling operand.nesting links skipped) :
    Taken scope progress later (Primary.not operand).spelling (Primary.not operand).nesting links
      skipped where
  tokens := hnot.trans (congrArg (Token.not :: ·) h.tokens)
  nesting := by
    have hnesting : scope.nesting + 1 + operand.nesting ≤ depthLimit := h.nesting
    rw [Primary.nesting]
    omega
  links := h.links
  limit := h.limit
  ignored := h.ignored

mutual

/-- What is read as a query is derived. -/
theorem query_outcome (h : vocabulary.Agrees lookup refused) (scope : Scope) (progress : Progress)
    (hscope : scope.nesting ≤ depthLimit) (hlimit : progress.links ≤ depthLimit) :
    Outcome refused (fun result => ∃ query : Query, result.1 = query.tree vocabulary scope.filter
        ∧ operator result.2.1.tokens = none
        ∧ Taken scope progress result.2.1 query.spelling query.nesting
          (query.links vocabulary scope.filter) (query.skipped vocabulary))
      (Parser.query lookup scope progress) := by
  rw [Parser.query]
  rcases (operand_outcome h scope progress hscope hlimit).cases with
    ⟨e, hoperand, hrefused⟩ | ⟨⟨tree, later, hlater⟩, hoperand, first, rfl, htaken⟩
  · -- Whatever is wrong with the first operand is wrong with the query.
    simp only [hoperand]
    exact hrefused
  · -- The chain starts from one operand, which no operator has joined to anything yet.
    have hmore := chain_outcome h scope later later.links
      (Chain.Builds.first .and (first.tree vocabulary scope.filter))
      (by rw [chainLinks_single, Nat.add_zero]) hscope htaken.limit
    simp only [hoperand]
    rcases hmore.cases with
      ⟨e, hchain, hrefused⟩ | ⟨⟨tree, last, hlast⟩, hchain, more, rfl, hend, htaken'⟩
    · simp only [hchain]
      exact hrefused
    · simp only [hchain]
      exact ⟨.chain first more, rfl, hend, htaken.append htaken'⟩
termination_by 4 * progress.tokens.length + 3
decreasing_by
  all_goals simp_wf
  all_goals omega

theorem chain_outcome (h : vocabulary.Agrees lookup refused) (scope : Scope) (progress : Progress)
    {sofar : Chain} {done : List (Operator × QueryTree)} (base : Nat)
    (hbuilds : sofar.Builds done) (hlinks : progress.links = base + chainLinks done)
    (hscope : scope.nesting ≤ depthLimit) (hlimit : progress.links ≤ depthLimit) :
    Outcome refused (fun result => ∃ more : Links,
        result.1 = chainTree (done ++ more.operands vocabulary scope.filter)
        ∧ operator result.2.1.tokens = none
        ∧ Taken scope { progress with links := base } result.2.1 more.spelling more.nesting
          (more.links vocabulary scope.filter
            + chainLinks (done ++ more.operands vocabulary scope.filter))
          (more.skipped vocabulary))
      (Parser.chain lookup scope sofar progress) := by
  rw [Parser.chain]
  rcases hop : operator progress.tokens with _ | ⟨op, size⟩
  · have htree : sofar.tree = chainTree (done ++ Links.nil.operands vocabulary scope.filter) := by
      rw [Links.operands, List.append_nil, hbuilds.tree]
    have hnone : progress.links
        = base + (Links.nil.links vocabulary scope.filter
          + chainLinks (done ++ Links.nil.operands vocabulary scope.filter)) := by
      rw [Links.operands, List.append_nil, Links.links, Nat.zero_add, hlinks]
    exact ⟨.nil, htree, hop, rfl, hscope, hnone, hlimit, rfl⟩
  · rcases exists_relop hop with ⟨relop, rfl, hspelling⟩
    have hskipped : (progress.tokens.drop size).length ≤ progress.tokens.length := by
      rw [List.length_drop]
      omega
    simp only
    rcases (operand_outcome h scope { progress with tokens := progress.tokens.drop size } hscope
      hlimit).cases with ⟨e, hnext, hrefused⟩ | ⟨⟨tree, later, hlater⟩, hnext, next, rfl, htaken⟩
    · simp only [hnext]
      exact hrefused
    · simp only [hnext]
      -- Joining the operand costs a node of the tree or none, and may be one node too many.
      obtain ⟨cost, hcost, hextend⟩ := hbuilds.extend relop.operator
        (next.tree vocabulary scope.filter) htaken.limit
      rcases hextend with ⟨longer, hlonger, hle, hbuilds'⟩ | ⟨-, hmany⟩
      · have hlinks' : later.links = progress.links + next.links vocabulary scope.filter :=
          htaken.links
        have hless : later.tokens.length < progress.tokens.length :=
          Nat.lt_of_lt_of_le hlater hskipped
        -- The links of the operand go to the base, those that join it are of the chain.
        have hmore := chain_outcome h scope { later with links := later.links + cost }
          (base + next.links vocabulary scope.filter) hbuilds' (by simp only; omega) hscope hle
        simp only at hlonger
        simp only [hlonger]
        rcases hmore.cases with
          ⟨e, hchain, hrefused⟩ | ⟨⟨tree, last, hlast⟩, hchain, more, rfl, hend, htaken'⟩
        · simp only [hchain]
          exact hrefused
        · have hoperands : done ++ [(relop.operator, next.tree vocabulary scope.filter)]
              ++ more.operands vocabulary scope.filter
              = done ++ (Links.cons relop next more).operands vocabulary scope.filter := by
            rw [Links.operands, ← List.append_cons]
          simp only [hchain]
          exact ⟨.cons relop next more, congrArg chainTree hoperands, hend,
            htaken.cons hspelling htaken'⟩
      · simp only at hmany
        simp only [hmany]
        exact h.malformed _
termination_by 4 * progress.tokens.length + 2
decreasing_by
  all_goals simp_wf
  all_goals omega

theorem operand_outcome (h : vocabulary.Agrees lookup refused) (scope : Scope) (progress : Progress)
    (hscope : scope.nesting ≤ depthLimit) (hlimit : progress.links ≤ depthLimit) :
    Outcome refused (fun result => ∃ operand : Operand,
        result.1 = operand.tree vocabulary scope.filter
        ∧ Taken scope progress result.2.1 operand.spelling operand.nesting
          (operand.links vocabulary scope.filter) (operand.skipped vocabulary))
      (Parser.operand lookup scope progress) := by
  rw [Parser.operand]
  split
  · -- A name, for which the words behind it are looked up.
    rename_i name rest ht
    rcases (h.filterOf name).cases with ⟨e, hfilter, hrefused⟩ | ⟨filter, hfilter, rfl⟩
    · simp only [hfilter]
      exact hrefused
    simp only [hfilter]
    have hrest : rest.length < progress.tokens.length := by
      rw [ht, List.length_cons, List.length_cons]
      omega
    rcases (primary_outcome h { scope with filter := vocabulary.filterOf name }
      { progress with tokens := rest } hscope hlimit).cases with
      ⟨e, hprimary, hrefused⟩ | ⟨⟨tree, later, hlater⟩, hprimary, primary, rfl, htaken⟩
    · simp only [hprimary]
      exact hrefused
    · simp only [hprimary]
      have htokens := ht.trans (congrArg (.word name :: .equals :: ·) htaken.tokens)
      exact ⟨.named name primary, rfl, htokens, htaken.nesting, htaken.links, htaken.limit,
        htaken.ignored⟩
  · -- No name, so that the words are looked up in the scope as it is.
    exact (primary_outcome h scope progress hscope hlimit).imp
      fun _ ⟨primary, htree, htaken⟩ => ⟨.plain primary, htree, htaken⟩
termination_by 4 * progress.tokens.length + 1
decreasing_by
  all_goals simp_wf
  all_goals omega

theorem primary_outcome (h : vocabulary.Agrees lookup refused) (scope : Scope) (progress : Progress)
    (hscope : scope.nesting ≤ depthLimit) (hlimit : progress.links ≤ depthLimit) :
    Outcome refused (fun result => ∃ primary : Primary,
        result.1 = primary.tree vocabulary scope.filter
        ∧ Taken scope progress result.2.1 primary.spelling primary.nesting
          (primary.links vocabulary scope.filter) (primary.skipped vocabulary))
      (Parser.primary lookup scope progress) := by
  rw [Parser.primary]
  split
  · -- Where the tokens end there is no primary.
    exact h.malformed _
  · exact h.malformed _
  · -- A group, which has to be closed behind the query that is in it.
    rename_i rest ht
    have hrest : rest.length < progress.tokens.length := by
      rw [ht]
      exact Nat.lt_succ_self _
    split
    · exact h.malformed _
    · rename_i hdeep
      rcases (query_outcome h
        { scope with nesting := scope.nesting + 1, groups := scope.groups + 1 }
        { progress with tokens := rest } (Nat.le_of_not_lt hdeep) hlimit).cases with
        ⟨e, hquery, hrefused⟩ | ⟨⟨tree, later, hlater⟩, hquery, query, rfl, -, htaken⟩
      · simp only [hquery]
        exact hrefused
      · simp only [hquery]
        split
        · rename_i behind hclose
          exact ⟨.group query, rfl, htaken.group ht hclose⟩
        · exact h.malformed _
  · -- A negation, which counts as nesting.
    rename_i rest ht
    have hrest : rest.length < progress.tokens.length := by
      rw [ht]
      exact Nat.lt_succ_self _
    split
    · exact h.malformed _
    · rename_i hdeep
      rcases (operand_outcome h { scope with nesting := scope.nesting + 1 }
        { progress with tokens := rest } (Nat.le_of_not_lt hdeep) hlimit).cases with
        ⟨e, hoperand, hrefused⟩ | ⟨⟨tree, later, hlater⟩, hoperand, operand, rfl, htaken⟩
      · simp only [hoperand]
        exact hrefused
      · simp only [hoperand]
        exact ⟨.not operand, rfl, htaken.not ht⟩
  · -- A word, which is reported if it is skipped.
    rename_i text rest ht
    rcases (h.wordLeaf scope.filter text).cases with ⟨e, hword, hrefused⟩ | ⟨result, hword, rfl⟩
    · simp only [hword]
      exact hrefused
    · simp only [hword, report_eq]
      exact ⟨.word text, rfl, ht, hscope, rfl, hlimit, rfl⟩
  · -- A wildcard, which never is.
    rename_i lead rest ht
    rcases (h.wildcardLeaf scope.filter lead).cases with
      ⟨e, hwildcard, hrefused⟩ | ⟨tree, hwildcard, rfl⟩
    · simp only [hwildcard]
      exact hrefused
    · simp only [hwildcard]
      exact ⟨.wildcard lead, rfl, ht, hscope, rfl, hlimit, rfl⟩
  · exact h.malformed _
termination_by 4 * progress.tokens.length + 0
decreasing_by
  all_goals simp_wf
  all_goals omega

end

/-- A query that has the tokens, and no group or negation and no node too many, is what they
    are read as. -/
theorem parse_described (query : Query) (h : query.Described vocabulary lookup)
    (hnesting : query.nesting ≤ depthLimit) (hlinks : query.links vocabulary .any ≤ depthLimit) :
    parse lookup (query.spelling ++ [.finish])
      = .ok (query.tree vocabulary .any, WordSet.union [] (query.skipped vocabulary)) := by
  have hend : operator [.finish] = none := rfl
  obtain ⟨hlt, hread⟩ := query.read h {} 0 [] hend (by simpa using hnesting) (by simpa using hlinks)
  obtain ⟨token, rest, hspelling, htoken⟩ := query.exists_cons
  unfold parse
  split
  · rename_i hnil
    rw [hspelling] at hnil
    exact absurd hnil (List.cons_ne_nil _ _)
  · rename_i hfinish
    rw [hspelling] at hfinish
    exact absurd (List.cons.inj hfinish).1 htoken
  · simp only [hread]

/-- So it is wherever all lookups succeed. -/
theorem parse_spelling (h : vocabulary.Describes lookup) (query : Query)
    (hnesting : query.nesting ≤ depthLimit) (hlinks : query.links vocabulary .any ≤ depthLimit) :
    parse lookup (query.spelling ++ [.finish])
      = .ok (query.tree vocabulary .any, WordSet.union [] (query.skipped vocabulary)) :=
  parse_described query (h.query query) hnesting hlinks

/-- Whatever is read is derived, with the words that are reported. -/
theorem parse_agrees (h : vocabulary.Agrees lookup refused) {tokens : List Token}
    (hend : .finish ∉ tokens) :
    Outcome refused (fun result => ∃ query : Query, query.spelling = tokens
        ∧ query.nesting ≤ depthLimit ∧ query.links vocabulary .any ≤ depthLimit
        ∧ result = (query.tree vocabulary .any, WordSet.union [] (query.skipped vocabulary)))
      (parse lookup (tokens ++ [.finish])) := by
  unfold parse
  split
  · exact h.malformed _
  · exact h.malformed _
  · rcases (query_outcome h {} { tokens := tokens ++ [.finish] } (Nat.zero_le _)
      (Nat.zero_le _)).cases with
      ⟨e, hquery, hrefused⟩ | ⟨⟨tree, last, hlast⟩, hquery, query, rfl, hnone, htaken⟩
    · simp only [hquery]
      exact hrefused
    · -- What was taken and what is left are all tokens, so that nothing but the end may be left.
      have htokens : tokens ++ [.finish] = query.spelling ++ last.tokens := htaken.tokens
      have hlinks : last.links = 0 + query.links vocabulary .any := htaken.links
      have hlimit : last.links ≤ depthLimit := htaken.limit
      have hnesting : 0 + query.nesting ≤ depthLimit := htaken.nesting
      simp only [hquery]
      split
      · -- The end is not in what was read, so that it is left.
        rename_i hnil
        rw [hnil, List.append_nil] at htokens
        exact absurd (htokens ▸ List.mem_concat_self) query.finish_notMem
      · rename_i behind hfinish
        rw [hfinish] at htokens
        have hsame := ((List.append_cons_inj_of_notMem hend List.not_mem_nil).mp htokens).1
        exact ⟨query, hsame.symm, by omega, by omega, Prod.ext rfl htaken.ignored⟩
      · exact h.malformed _
      · exact h.malformed _

/-- And what is not read is malformed, if all lookups succeed. -/
theorem parse_outcome (h : vocabulary.Describes lookup) {tokens : List Token}
    (hend : .finish ∉ tokens) :
    Outcome (fun e => ∃ cause, e = .malformed cause) (fun result => ∃ query : Query,
        query.spelling = tokens ∧ query.nesting ≤ depthLimit
        ∧ query.links vocabulary .any ≤ depthLimit ∧ result.1 = query.tree vocabulary .any)
      (parse lookup (tokens ++ [.finish])) :=
  (parse_agrees h.agrees hend).imp fun _ ⟨query, hspelling, hnesting, hlinks, hresult⟩ =>
    ⟨query, hspelling, hnesting, hlinks, congrArg Prod.fst hresult⟩

/-- Tokens are read just if they are derived, as long as the nesting and the operators are
    within bounds, and what they are read as is what a derivation of them asks for. All that
    may be wrong with a query is its form. -/
theorem parse_derived (h : vocabulary.Describes lookup) (tokens : List Token)
    (hend : .finish ∉ tokens) :
    (∀ tree ignored, parse lookup (tokens ++ [.finish]) = .ok (tree, ignored) →
        ∃ query : Query, query.spelling = tokens ∧ tree = query.tree vocabulary .any)
      ∧ (∀ query : Query, query.spelling = tokens → query.nesting ≤ 256 → query.operators ≤ 256 →
        parse lookup (tokens ++ [.finish])
          = .ok (query.tree vocabulary .any, WordSet.union [] (query.skipped vocabulary)))
      ∧ ∀ e, parse lookup (tokens ++ [.finish]) = .error e → ∃ cause, e = .malformed cause := by
  have houtcome := parse_outcome h hend
  refine ⟨fun tree ignored hparse => ?_, fun query hspelling hnesting hoperators => ?_,
    fun e hparse => ?_⟩
  · rw [hparse] at houtcome
    rcases houtcome with ⟨query, hspelling, -, -, htree⟩
    exact ⟨query, hspelling, htree⟩
  · -- Only operators whose two sides have words are counted, and these are no more than all.
    have hlinks := Nat.le_trans (query.links_le vocabulary .any) hoperators
    rw [← hspelling]
    exact parse_spelling h query hnesting hlinks
  · rw [hparse] at houtcome
    exact houtcome

/-- Lookups in an index that has nothing in it find nothing. -/
theorem Vocabulary.describes_nothing {index : Index}
    (h : ∀ kind, (index.segment kind).size = 0) (stemmer : String → String) (sizes : Word.Sizes) :
    Vocabulary.Describes ⟨fun _ => none, fun _ => none, fun _ => (0, 0), fun _ => false, stemmer,
      sizes⟩ ⟨index, stemmer, sizes⟩ := by
  -- A search among no entries ends before its first step, whatever it is for.
  have hfirst : ∀ kind test, (index.segment kind).firstFailing test = .ok 0 := by
    intro kind test
    rw [Segment.firstFailing, h, Segment.search]
    rfl
  have hfind : ∀ kind key, (index.segment kind).find key = .ok none := by
    intro kind key
    rw [Segment.find, Segment.rangeOf, hfirst, hfirst]
    rfl
  refine ⟨fun name => ?_, fun word => hfind _ _, fun lead => ?_, fun word => ?_, rfl, rfl⟩
  · rw [Index.nameId, hfind]
    rfl
  · rw [Index.wordsWithPrefix, Segment.leadRange]
    rw [show index.words = index.segment .words from rfl, hfirst, hfirst]
    rfl
  · rw [Index.isStopWord, hfind]
    rfl

/-- There is such an index. -/
theorem exists_nothing : ∃ index, Index.open? (List.replicate 40 0).toArray = .ok index
    ∧ ∀ kind, (index.segment kind).size = 0 := by
  let tables : Sections OffsetTable := ⟨⟨0, 8⟩, ⟨0, 16⟩, ⟨0, 24⟩, ⟨0, 32⟩, ⟨0, 40⟩⟩
  have htables : readTables (List.replicate 40 0).toArray = .ok tables :=
    eq_ok_of_toOption (by decide +kernel)
  refine ⟨⟨(List.replicate 40 0).toArray, tables⟩, ?_, fun kind => ?_⟩
  · rw [Index.open?, htables]
    rfl
  · cases kind <;> rfl

/-- A query with a group, a name, a negation and a word that is too short, put to an index
    that has nothing in it. -/
theorem parse_derived_group :
    let tokens : List Token := [.openParen, .word "cat", .or, .word "x", .closeParen, .not, .near,
      .word "in", .equals, .wildcard "do", .not, .word "dog"]
    let tree : QueryTree := .and [.near true (.word ⟨"cat", 0, 0, none⟩) (.word ⟨"do", 0, 0, none⟩),
      .not (.word ⟨"dog", 0, 0, none⟩)]
    ∃ index, Index.open? (List.replicate 40 0).toArray = .ok index
      ∧ .finish ∉ tokens
      ∧ parse ⟨index, id, {}⟩ (tokens ++ [.finish]) = .ok (tree, ["x"]) := by
  intro tokens tree
  rcases exists_nothing with ⟨index, hopen, hnothing⟩
  have hend : .finish ∉ tokens := by decide
  let query : Query := .chain
    (.plain (.group (.chain (.plain (.word "cat")) (.cons .or (.plain (.word "x")) .nil))))
    (.cons .notNear (.named "in" (.wildcard "do"))
      (.cons .implied (.plain (.not (.plain (.word "dog")))) .nil))
  have hread := (parse_derived (Vocabulary.describes_nothing hnothing id {}) tokens hend).2.1 query
    rfl (by decide) (by decide)
  exact ⟨index, hopen, hend, hread.trans rfl⟩

end Grammar

end Concordance
