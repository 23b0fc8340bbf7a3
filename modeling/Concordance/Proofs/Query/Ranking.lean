import Concordance.Proofs.Indexing.Finished
import Concordance.Proofs.Query.Leaves

/-!
# How Documents Are Listed

The order of a result, and the pages that it is cut into.

A score that matched is never zero. The rank of a posting is at least one, a sum has something
to add, and a mean is taken over as many scores as it is divided by. Negation gives a score of
its own, and nearness adds two scores before it halves them. So the best score of a result is
not zero either, and on a scale on which it has a hundred no other score is above that. This is
why neither the cut of a rank to its range nor that of the quotient to so many bits does
anything, but for the lower end of the range.

Documents are in a result once, so that no two of them can change places in it. A page is a
slice, and depends on no other choice about pages than its own start and size.

All this is so of an index that a session has written, whatever the session had found in an
older file. Words that can not be read make a search fail, but a search that succeeds has read
nothing that is not as it should be.

## Main definitions

* `Scores.best`: The best of several scores.
* `Ranking`: A listing of documents by rank.
* `Searcher.paged`: A searcher that is asked for a page.
* `Searcher.pages`: Pages behind each other.

## Theorems

* `QueryTree.Spread.one_le_scoreIn`: No document matches with a score of zero.
* `Searcher.ranking_rankScores`: Scores that are not zero are ranked as they should be.
* `Searcher.listed_of_pages`: Pages behind each other list what one page does.
* `Session.finish_ranks`: Searches in an index that was written list a ranking.
-/

namespace Concordance

namespace Scores

variable {operands : List (Option Nat)} {score : Nat}

/-- A sum of scores that are not zero is not zero. -/
theorem one_le_sumOfAny (h : ∀ score, some score ∈ operands → 1 ≤ score)
    (hsum : sumOfAny operands = some score) : 1 ≤ score := by
  induction operands generalizing score with
  | nil => exact absurd hsum (by simp [sumOfAny])
  | cons first operands ih =>
    rw [sumOfAny_cons] at hsum
    have hrest : ∀ {score}, sumOfAny operands = some score → 1 ≤ score := fun hsum =>
      ih (fun s hs => h s (List.mem_cons_of_mem _ hs)) hsum
    -- A score that is missing adds nothing, and if all others are missing the first one is the sum.
    rcases first with _ | a
    · rw [Option.merge_none_left] at hsum
      exact hrest hsum
    · have ha := h a List.mem_cons_self
      rcases hothers : sumOfAny operands with _ | b
      · rw [hothers, Option.merge_none_right] at hsum
        rwa [← Option.some.inj hsum]
      · rw [hothers] at hsum
        have hsame : a + b = score := Option.some.inj hsum
        omega

/-- It is at least as many as the scores. -/
theorem length_le_sumOfAll (h : ∀ score, some score ∈ operands → 1 ≤ score)
    (hsum : sumOfAll operands = some score) : operands.length ≤ score := by
  induction operands generalizing score with
  | nil => exact Nat.zero_le _
  | cons first operands ih =>
    rw [sumOfAll_cons] at hsum
    rcases Option.bind_eq_some_iff.mp hsum with ⟨a, rfl, hsum⟩
    rcases Option.map_eq_some_iff.mp hsum with ⟨b, hothers, rfl⟩
    have ha := h a List.mem_cons_self
    have hb := ih (fun s hs => h s (List.mem_cons_of_mem _ hs)) hothers
    rw [List.length_cons]
    omega

end Scores

/-- Two scores that are not zero have a mean that is not zero. -/
theorem Evaluation.one_le_pairOf {negated near : Bool} {left right : Option Nat} {score : Nat}
    (hleft : ∀ score, left = some score → 1 ≤ score)
    (hright : ∀ score, right = some score → 1 ≤ score)
    (h : pairOf negated near left right = some score) : 1 ≤ score := by
  -- Of two scores a mean is taken, and one alone is there only for negated nearness.
  rcases left with _ | a
  · rcases right with _ | b
    · exact absurd h (by simp [pairOf])
    · rw [pairOf] at h
      split at h
      · exact hright score h
      · exact absurd h (by simp)
  · rcases right with _ | b
    · rw [pairOf] at h
      split at h
      · exact hleft score h
      · exact absurd h (by simp)
    · have ha := hleft a rfl
      have hb := hright b rfl
      rw [pairOf] at h
      split at h
      · exact absurd h (by simp)
      · have hsame : (a + b) / 2 = score := Option.some.inj h
        omega

/-- A document that matches a leaf has a posting there, and no posting has a rank of zero. -/
theorem Setting.one_le_wordScore {setting : Setting}
    (h : ∀ entry ∈ setting.words, ∀ p ∈ entry.postings, 1 ≤ p.rank.toNat) {leaf : WordLeaf}
    {document : UInt32} {score : Nat} (hscore : setting.wordScore leaf document = some score) :
    1 ≤ score := by
  rw [wordScore] at hscore
  split at hscore
  · exact absurd hscore (by simp)
  · rename_i hne
    -- The document has a posting in an entry of the leaf, which is a word of the setting.
    rcases List.exists_cons_of_ne_nil hne with ⟨first, rest, heq⟩
    have hfirst : first ∈ setting.postingsIn leaf document := heq ▸ List.mem_cons_self
    rw [postingsIn, List.mem_filter, postings, List.mem_filter, List.mem_flatMap] at hfirst
    rcases hfirst with ⟨⟨⟨entry, hentry, hfirst⟩, -⟩, -⟩
    have hrank := h entry
      (List.mem_of_mem_drop (List.mem_of_mem_take (List.mem_filter.mp hentry).1)) first hfirst
    rw [heq, total_cons] at hscore
    have hsame := Option.some.inj hscore
    omega

namespace QueryTree

theorem mem_scoresIn {setting : Setting} {document : UInt32} {children : List QueryTree}
    {score : Option Nat} (h : score ∈ scoresIn setting document children) :
    ∃ c ∈ children, c.scoreIn setting document = score := by
  induction children with
  | nil =>
    rw [scoresIn] at h
    exact absurd h List.not_mem_nil
  | cons child rest ih =>
    rw [scoresIn] at h
    rcases List.mem_cons.mp h with rfl | h
    · exact ⟨child, List.mem_cons_self, rfl⟩
    · rcases ih h with ⟨c, hc, hscore⟩
      exact ⟨c, List.mem_cons_of_mem _ hc, hscore⟩

/-- No document matches with a score of zero. -/
theorem Spread.one_le_scoreIn {P : WordLeaf → Prop} {tree : QueryTree} (htree : tree.Spread P)
    {setting : Setting} (h : ∀ entry ∈ setting.words, ∀ p ∈ entry.postings, 1 ≤ p.rank.toNat)
    {document : UInt32} {score : Nat} (hscore : tree.scoreIn setting document = some score) :
    1 ≤ score := by
  induction htree generalizing score with
  | empty => exact absurd hscore (by simp [scoreIn])
  | word _ =>
    rw [scoreIn] at hscore
    exact Setting.one_le_wordScore h hscore
  | @and children hne _ ih =>
    rw [scoreIn] at hscore
    rcases Option.map_eq_some_iff.mp hscore with ⟨sum, hsum, rfl⟩
    have hle := Scores.length_le_sumOfAll (fun score hmem => by
      rcases mem_scoresIn hmem with ⟨c, hc, hscore⟩
      exact ih c hc hscore) hsum
    rw [length_scoresIn] at hle
    -- The sum is at least as many as the operands, by which it is divided.
    exact (Nat.one_le_div_iff (List.length_pos_iff.mpr hne)).mpr hle
  | or _ ih =>
    rw [scoreIn] at hscore
    refine Scores.one_le_sumOfAny (fun score hmem => ?_) hscore
    rcases mem_scoresIn hmem with ⟨c, hc, hscore⟩
    exact ih c hc hscore
  | not _ _ =>
    rw [scoreIn] at hscore
    split at hscore
    · rw [← Option.some.inj hscore]
      decide
    · exact absurd hscore (by simp)
  | near _ _ =>
    rw [scoreIn] at hscore
    exact Evaluation.one_le_pairOf (fun score => Setting.one_le_wordScore h)
      (fun score => Setting.one_le_wordScore h) hscore

end QueryTree

/-- The best of several scores. -/
def Scores.best (scores : Scores) : Nat :=
  (scores.map Prod.snd).foldl max 0

/-- A listing of the documents that have scores: each of them once, with its rank on the scale of
    the best score, the better ranks first, and documents with the same rank by their ids. -/
structure Ranking (scores : Scores) (ranked : List (UInt32 × Nat)) : Prop where
  rank : ∀ document rank, (document, rank) ∈ ranked
    ↔ ∃ score, scores.lookup document = some score ∧ rank = max 1 (100 * score / scores.best)
  distinct : (ranked.map Prod.fst).Nodup
  sorted : ranked.Pairwise fun a b => b.2 < a.2 ∨ a.2 = b.2 ∧ a.1 < b.1
  bounds : ∀ hit ∈ ranked, 1 ≤ hit.2 ∧ hit.2 ≤ 100
  monotone : ∀ hit ∈ ranked, ∀ other ∈ ranked, ∀ score score',
    scores.lookup hit.1 = some score → scores.lookup other.1 = some score' → score ≤ score' →
      hit.2 ≤ other.2
  first : ∀ hit, ranked.head? = some hit → hit.2 = 100

theorem le_foldl_max (ns : List Nat) (start : Nat) :
    start ≤ ns.foldl max start ∧ ∀ n ∈ ns, n ≤ ns.foldl max start := by
  induction ns generalizing start with
  | nil => exact ⟨Nat.le_refl _, fun n hn => absurd hn List.not_mem_nil⟩
  | cons first ns ih =>
    rcases ih (max start first) with ⟨hstart, hall⟩
    rw [List.foldl_cons]
    refine ⟨Nat.le_trans (Nat.le_max_left _ _) hstart, List.forall_mem_cons.mpr ⟨?_, hall⟩⟩
    exact Nat.le_trans (Nat.le_max_right _ _) hstart

theorem foldl_max_mem (ns : List Nat) (start : Nat) :
    ns.foldl max start = start ∨ ns.foldl max start ∈ ns := by
  induction ns generalizing start with
  | nil => exact .inl rfl
  | cons first ns ih =>
    rw [List.foldl_cons]
    -- The best of all is one behind the first, or else it is the first or the start.
    rcases ih (max start first) with heq | hmem
    · rcases Nat.le_total start first with hle | hle
      · rw [heq, Nat.max_eq_right hle]
        exact .inr List.mem_cons_self
      · rw [heq, Nat.max_eq_left hle]
        exact .inl rfl
    · exact .inr (List.mem_cons_of_mem _ hmem)

/-- No score is better than the best one. -/
theorem Scores.le_best (scores : Scores) {entry : UInt32 × Nat} (h : entry ∈ scores) :
    entry.2 ≤ scores.best :=
  (le_foldl_max (scores.map Prod.snd) 0).2 _ (List.mem_map_of_mem h)

/-- A score is on the scale of the best one without being cut. -/
theorem Rank.relative_eq {score top : Nat} (hpos : 1 ≤ score) (hle : score ≤ top) :
    relative score top = max 1 (100 * score / top) ∧ 100 * score / top ≤ 100 := by
  have hbound : 100 * score / top ≤ 100 :=
    Nat.div_le_of_le_mul (by rw [Nat.mul_comm top]; exact Nat.mul_le_mul_left 100 hle)
  have hsize : 100 < UInt32.size := by decide
  refine ⟨?_, hbound⟩
  rw [relative, if_neg (by omega), Nat.mul_comm score, Nat.mod_eq_of_lt (by omega),
    Nat.min_eq_right hbound]

namespace Searcher

variable {scores : Scores}

theorem listedBefore_trans (a b c : UInt32 × Nat) (hab : listedBefore a b = true)
    (hbc : listedBefore b c = true) : listedBefore a c = true := by
  simp only [listedBefore, Bool.or_eq_true, decide_eq_true_eq, Bool.and_eq_true, beq_iff_eq] at *
  rcases hab with hab | ⟨hab, hab'⟩
  · exact .inl (by omega)
  · rcases hbc with hbc | ⟨hbc, hbc'⟩
    · exact .inl (by omega)
    · exact .inr ⟨hab.trans hbc, UInt32.le_trans hab' hbc'⟩

theorem listedBefore_total (a b : UInt32 × Nat) :
    (listedBefore a b || listedBefore b a) = true := by
  simp only [listedBefore, Bool.or_eq_true, decide_eq_true_eq, Bool.and_eq_true, beq_iff_eq]
  rcases Nat.lt_trichotomy a.2 b.2 with hlt | heq | hlt
  · exact .inr (.inl hlt)
  · rcases UInt32.le_total a.1 b.1 with hle | hle
    · exact .inl (.inr ⟨heq, hle⟩)
    · exact .inr (.inr ⟨heq.symm, hle⟩)
  · exact .inl (.inl hlt)

/-- What is listed are the documents that have scores, each with its rank. -/
theorem mem_rankScores_iff (hascend : KeysAscend scores)
    (hpos : ∀ document score, scores.lookup document = some score → 1 ≤ score)
    {document : UInt32} {rank : Nat} :
    (document, rank) ∈ rankScores scores ↔ ∃ score, scores.lookup document = some score
      ∧ rank = max 1 (100 * score / scores.best) := by
  have hrank : ∀ score, (document, score) ∈ scores →
      Rank.relative score scores.best = max 1 (100 * score / scores.best) := fun score hmem =>
    (Rank.relative_eq (hpos _ _ (hascend.lookup_eq_some_iff.mpr hmem))
      (scores.le_best hmem)).1
  simp only [rankScores, List.mem_mergeSort, List.mem_map]
  constructor
  · rintro ⟨⟨other, score⟩, hmem, heq⟩
    rcases Prod.mk.inj heq with ⟨rfl, rfl⟩
    exact ⟨score, hascend.lookup_eq_some_iff.mpr hmem, hrank score hmem⟩
  · rintro ⟨score, hlookup, rfl⟩
    have hmem := hascend.lookup_eq_some_iff.mp hlookup
    exact ⟨(document, score), hmem, Prod.ext rfl (hrank score hmem)⟩

/-- No document is listed twice. -/
theorem nodup_rankScores (hascend : KeysAscend scores) :
    ((rankScores scores).map Prod.fst).Nodup := by
  have hperm : (rankScores scores).Perm _ := List.mergeSort_perm _ listedBefore
  refine (hperm.map Prod.fst).nodup_iff.mpr ?_
  rw [List.map_map]
  exact List.pairwise_map.mpr (hascend.imp fun hlt => UInt32.ne_of_lt hlt)

/-- Documents are listed by rank, and then by their ids. -/
theorem sorted_rankScores (hascend : KeysAscend scores) :
    (rankScores scores).Pairwise fun a b => b.2 < a.2 ∨ a.2 = b.2 ∧ a.1 < b.1 := by
  have hsorted : (rankScores scores).Pairwise fun a b => listedBefore a b = true :=
    List.pairwise_mergeSort listedBefore_trans listedBefore_total _
  have hdistinct := List.pairwise_map.mp (nodup_rankScores hascend)
  refine (hsorted.and hdistinct).imp fun {a b} hab => ?_
  rcases hab with ⟨hbefore, hne⟩
  simp only [listedBefore, Bool.or_eq_true, decide_eq_true_eq, Bool.and_eq_true, beq_iff_eq]
    at hbefore
  exact hbefore.imp_right fun hsame => ⟨hsame.1, UInt32.lt_of_le_of_ne hsame.2 hne⟩

/-- A document with the best score has a hundred. -/
theorem exists_hundred (hascend : KeysAscend scores)
    (hpos : ∀ document score, scores.lookup document = some score → 1 ≤ score)
    (hbest : 1 ≤ scores.best) : ∃ document, (document, 100) ∈ rankScores scores := by
  obtain ⟨⟨document, top⟩, htop, hsame⟩ : ∃ e ∈ scores, e.2 = scores.best := by
    rcases foldl_max_mem (scores.map Prod.snd) 0 with hzero | hin
    · exact absurd hzero (Nat.ne_of_gt hbest)
    · exact List.mem_map.mp hin
  refine ⟨document, (mem_rankScores_iff hascend hpos).mpr
    ⟨top, hascend.lookup_eq_some_iff.mpr htop, ?_⟩⟩
  rw [show top = scores.best from hsame, Nat.mul_div_cancel _ hbest]
  rfl

/-- Scores that are not zero are ranked as they should be. -/
theorem ranking_rankScores (hascend : KeysAscend scores)
    (hpos : ∀ document score, scores.lookup document = some score → 1 ≤ score) :
    Ranking scores (rankScores scores) := by
  have hmem : ∀ {document rank}, (document, rank) ∈ rankScores scores ↔ _ :=
    mem_rankScores_iff hascend hpos
  have hle : ∀ document score, scores.lookup document = some score → score ≤ scores.best :=
    fun document score hlookup => scores.le_best (hascend.lookup_eq_some_iff.mp hlookup)
  -- A share of the best score is no more than all of it, and one that rounds to zero is raised.
  have hbounds : ∀ hit ∈ rankScores scores, 1 ≤ hit.2 ∧ hit.2 ≤ 100 := by
    rintro ⟨document, rank⟩ hhit
    rcases hmem.mp hhit with ⟨score, hlookup, rfl⟩
    have hbound := (Rank.relative_eq (hpos _ _ hlookup) (hle _ _ hlookup)).2
    exact ⟨Nat.le_max_left _ _, Nat.max_le.mpr ⟨by decide, hbound⟩⟩
  refine ⟨fun document rank => hmem, nodup_rankScores hascend, sorted_rankScores hascend, hbounds,
    ?_, ?_⟩
  · -- Ranks are quotients by one and the same score, so they are in the order of the scores.
    rintro ⟨document, rank⟩ hhit ⟨document', rank'⟩ hother score score' hlookup hlookup' hscores
    rcases hmem.mp hhit with ⟨_, hsame, rfl⟩
    rcases hmem.mp hother with ⟨_, hsame', rfl⟩
    rcases Option.some.inj (hlookup.symm.trans hsame) with rfl
    rcases Option.some.inj (hlookup'.symm.trans hsame') with rfl
    have hquotient := Nat.div_le_div_right (c := scores.best) (Nat.mul_le_mul_left 100 hscores)
    show max 1 _ ≤ max 1 _
    omega
  · -- The document with the best score is listed somewhere, and nothing before it is worse.
    intro hit hhead
    rcases List.head?_eq_some_iff.mp hhead with ⟨rest, hranked⟩
    have hfirst : hit ∈ rankScores scores := hranked ▸ List.mem_cons_self
    rcases hmem.mp hfirst with ⟨score, hlookup, -⟩
    have hbest : 1 ≤ scores.best := Nat.le_trans (hpos _ _ hlookup) (hle _ _ hlookup)
    rcases exists_hundred hascend hpos hbest with ⟨document, hhundred⟩
    have hrank := (hbounds hit hfirst).2
    rw [hranked] at hhundred
    rcases List.mem_cons.mp hhundred with rfl | hrest
    · rfl
    · have hsorted := hranked ▸ sorted_rankScores hascend
      rcases (List.pairwise_cons.mp hsorted).1 _ hrest with hlt | ⟨heq, -⟩
      · exact absurd hlt (by simp only []; omega)
      · exact heq

/-- A searcher that is asked for the page that begins at a place of a result, and may be limited. -/
def paged (searcher : Searcher) (start : Nat) (size : Option Nat) : Searcher :=
  { searcher with options := { searcher.options with pageStart := start, pageSize := size } }

/-- Pages of one result behind each other, each as long as it is asked to be. -/
def pages (searcher : Searcher) (query : String) : (start : Nat) → List Nat →
    List (Except Error ResultPage)
  | _, [] => []
  | start, size :: sizes =>
    (searcher.paged start (some size)).search query :: searcher.pages query (start + size) sizes

end Searcher

/-- The documents of a page with their ranks. -/
def ResultPage.listed (page : ResultPage) : List (UInt32 × Nat) :=
  page.hits.map fun hit => (hit.document, hit.rank)

namespace Searcher

variable {searcher : Searcher} {query : String} {ranked : List (UInt32 × Nat)} {ignored : WordSet}

/-- A page that is returned is a slice of what is ranked. -/
theorem listed_of_search {result : ResultPage} (h : searcher.search query = .ok result) :
    ∃ ranked, searcher.ranked query = .ok (ranked, result.ignored)
      ∧ result.total = ranked.length ∧ result.listed = page searcher.options ranked := by
  rcases exists_of_bind h with ⟨⟨ranked, ignored⟩, hranked, h⟩
  rcases exists_of_bind h with ⟨hits, hhits, h⟩
  rcases Except.ok.inj h with rfl
  refine ⟨ranked, hranked, rfl, map_eq_of_collect hhits ?_⟩
  rintro ⟨document, rank⟩ hit hhit
  rcases exists_of_bind hhit with ⟨record, -, hhit⟩
  rcases exists_of_bind hhit with ⟨path, -, hhit⟩
  rcases Except.ok.inj hhit with rfl
  rfl

/-- Choices about pages do not change what is ranked. -/
theorem listed_of_paged (h : searcher.ranked query = .ok (ranked, ignored)) {start : Nat}
    {size : Option Nat} {result : ResultPage}
    (hresult : (searcher.paged start size).search query = .ok result) :
    result.total = ranked.length
      ∧ result.listed = page (searcher.paged start size).options ranked := by
  rcases listed_of_search hresult with ⟨ranked', hranked', htotal, hlisted⟩
  rcases Prod.mk.inj (Except.ok.inj (h.symm.trans hranked')) with ⟨rfl, -⟩
  exact ⟨htotal, hlisted⟩

/-- Pages behind each other list what one page does that is as long as they are together. -/
theorem listed_of_pages (h : searcher.ranked query = .ok (ranked, ignored)) {start : Nat}
    {sizes : List Nat} {results : List ResultPage}
    (hresults : collect (searcher.pages query start sizes) = .ok results) :
    results.flatMap ResultPage.listed = (ranked.drop start).take (total id sizes) := by
  induction sizes generalizing start results with
  | nil =>
    rcases Except.ok.inj hresults with rfl
    rfl
  | cons size sizes ih =>
    rw [pages] at hresults
    rcases hfirst : (searcher.paged start (some size)).search query with e | result
    · rw [hfirst] at hresults
      exact absurd hresults (by simp [collect])
    rw [hfirst, collect] at hresults
    rcases exists_of_map hresults with ⟨rest, hrest, rfl⟩
    have hlisted : result.listed = (ranked.drop start).take size := (listed_of_paged h hfirst).2
    rw [List.flatMap_cons, hlisted, ih hrest, total_cons, id_eq, List.take_add, List.drop_drop]

end Searcher

namespace Session

variable {session : Session} {disk after : Disk} {path : String} {summary : PublicationSummary}

/-- Whatever session has written an index, a search in it that succeeds lists a ranking of the
    documents that match, or the slice of it that was asked for, and pages behind each other list
    all of it. -/
theorem finish_ranks (h : session.finish disk path = (.ok summary, after))
    (hfiles : session.files.length < UInt32.size) :
    ∃ bytes location, session.Publishes summary bytes ∧ disk.placeOf path = .ok location
      ∧ after.item? location = some (.file bytes)
      ∧ (bytes.length < UInt64.size →
        ∃ index words, Index.open? bytes.toArray = .ok index ∧ index.Reads words
          ∧ ∀ (searcher : Searcher) (query : String) (result : ResultPage),
            searcher.index = index → searcher.search query = .ok result →
            ∃ tree left scores passed ranked, searcher.parse query = .ok (tree, left)
              ∧ tree.eval searcher.evaluation [] = .ok (scores, passed)
              ∧ (searcher.evaluation.setting words).Answers tree scores
              ∧ Ranking scores ranked
              ∧ (∀ start page, (searcher.paged start none).search query = .ok page →
                page.total = ranked.length ∧ page.listed = ranked.drop start)
              ∧ (∀ start size page, (searcher.paged start (some size)).search query = .ok page →
                page.total = ranked.length ∧ page.listed = (ranked.drop start).take size)
              ∧ ∀ sizes results, collect (searcher.pages query 0 sizes) = .ok results →
                results.flatMap ResultPage.listed = ranked.take (total id sizes)) := by
  obtain ⟨segments, merged, location, -, -, hordered, hpublishes, hlocation, hitem⟩ :=
    exists_volume_of_finish h
  refine ⟨_, location, hpublishes, hlocation, hitem, fun hsize => ?_⟩
  rcases hordered.exists_index hsize with ⟨index, hopen, hshows⟩
  -- The words that were written are the merged ones that are not too common, with their ranks.
  let words : List WordPostings := (merged.filter fun word => !session.tooCommon word).map
    fun word => ⟨word.word, rankAll session.files word.postings⟩
  have hwords : WordPostings.table words = (session.volume merged).words := by
    rw [volume, WordMap.ranked, WordPostings.table, WordPostings.table, List.map_map, List.map_map]
    rfl
  have hranked : ∀ entry ∈ words, ∀ p ∈ entry.postings, 1 ≤ p.rank.toNat := by
    intro entry hentry
    have hmem : (Utf8.bytes entry.word, entry.postings) ∈ (session.volume merged).words := by
      rw [← hwords]
      exact List.mem_map_of_mem hentry
    exact (hordered.postings _ hmem).ranked
  have hcount : index.numDocuments ≤ UInt32.size :=
    Nat.le_of_lt (hshows.numDocuments.symm ▸ hfiles)
  have hreads := hshows.reads hwords
  refine ⟨index, words, hopen, hreads, fun searcher query result hindex hsearch => ?_⟩
  subst hindex
  rcases Searcher.listed_of_search hsearch with ⟨ranked, hsearch, -⟩
  obtain ⟨tree, left, scores, passed, hparse, heval, rfl, -⟩ := Searcher.exists_of_ranked hsearch
  have hspread := Searcher.parse_spread hparse
  have hanswers : (searcher.evaluation.setting words).Answers tree scores :=
    hspread.answers_of_eval hreads hcount heval
  have hranking := Searcher.ranking_rankScores hanswers.ascend fun document score hlookup =>
    hspread.one_le_scoreIn hranked (hanswers.score document ▸ hlookup)
  exact ⟨tree, left, scores, passed, _, hparse, heval, hanswers, hranking,
    fun start page hpage => Searcher.listed_of_paged hsearch hpage,
    fun start size page hpage => Searcher.listed_of_paged hsearch hpage,
    fun sizes results hresults => Searcher.listed_of_pages hsearch hresults⟩

/-- An index of two documents. No word is as short as the one that is negated, so that all
    documents match, and the second of two pages has the second one of them. -/
theorem finish_ranks_of_two :
    let session : Session := { options := {}, stopWords := .empty }
    let operations : List Operation := [.directory "letters",
      .file 0 "one" 4 none [.text "Cats" none], .file 0 "two" 4 none [.text "Dogs" none]]
    ∃ summary after bytes index words result scores ranked,
      (session.run operations).finish {} "index" = (.ok summary, after)
      ∧ (session.run operations).files.length < UInt32.size
      ∧ (session.run operations).Publishes summary bytes ∧ bytes.length < UInt64.size
      ∧ Index.open? bytes.toArray = .ok index ∧ index.Reads words
      ∧ Searcher.search ⟨index, { pageStart := 1, pageSize := some 1 }, id⟩ "not x" = .ok result
      ∧ Ranking scores ranked ∧ result.total = ranked.length
      ∧ result.listed = (ranked.drop 1).take 1 ∧ result.listed = [(1, 100)] := by
  intro session operations
  let done : Session := session.run operations
  let merged : List WordPostings := [
    ⟨"cats", [{ document := 0, occurrences := 1, positions := [0] }]⟩,
    ⟨"dogs", [{ document := 1, occurrences := 1, positions := [0] }]⟩]
  have hsources : (done.closed.sources >>= Merge.sources).toOption = some merged := by
    decide +kernel
  obtain ⟨segments, -, hmerge, hvolume⟩ := exists_publishes_volume hsources (by decide +kernel)
  have hfinish := hvolume.finish_eq (Contents.publishBytes_empty _)
  have hfiles : done.files.length < UInt32.size := by decide +kernel
  have hsize : (done.volume merged).bytes.length < UInt64.size :=
    Volume.length_bytes_lt (by decide +kernel)
  obtain ⟨index, hopen, hcount, -, hlists⟩ := (done.volume merged).open?_bytes hsize
  have hbegun : session.Begun := .new (by simp [StopWords.empty])
    (show start? {} {} .empty = .ok session from rfl)
  have hlists := hlists ((hbegun.closable.run (by decide)).volume hmerge)
  -- What is negated is too short for a word, and so the tree has no leaf to be looked up.
  let searcher : Searcher := ⟨index, { pageStart := 1, pageSize := some 1 }, id⟩
  have htokens : tokenize (Text.fold "not x") = .ok [.not, .word "x", .finish] :=
    eq_ok_of_toOption (by decide +kernel)
  have hword : Parser.wordLeaf searcher.lookup .any "x" = .ok (.empty, some "x") := rfl
  have hparsed : Parser.parse searcher.lookup [.not, .word "x", .finish]
      = .ok (.not .empty, ["x"]) := Parser.parse_not hword
  have hparse : searcher.parse "not x" = .ok (.not .empty, ["x"]) :=
    Searcher.parse_eq_ok_iff.mpr ⟨_, _, htokens, hparsed, by
      rw [QueryTree.distribute, QueryTree.distribute]; rfl⟩
  have heval : QueryTree.eval searcher.evaluation [] (.not .empty)
      = .ok ([(0, 100), (1, 100)], []) := by
    rw [QueryTree.eval, QueryTree.eval]
    show Except.ok (Scores.complement [] index.numDocuments _, _) = _
    rw [hcount]
    rfl
  have hranked : searcher.ranked "not x" = .ok (Searcher.rankScores [(0, 100), (1, 100)], ["x"]) :=
    Searcher.ranked_of_eval rfl hparse heval
  have hlist : Searcher.rankScores [(0, 100), (1, 100)] = [(0, 100), (1, 100)] :=
    List.mergeSort_of_pairwise (by decide)
  rw [hlist] at hranked
  -- The one document of the page is shown with its record and its path.
  have hhit : searcher.hit 1 100 = .ok ⟨1, 100, "letters/two", 4, "two"⟩ := by
    have hinside : (1 : UInt32).toNat < (done.volume merged).files.length := by decide +kernel
    have hrecord : index.document 1 = .ok ⟨0, "two", 4, 1, "two"⟩ := hlists.document hinside
    have hinside' : (0 : UInt32).toNat < (done.volume merged).directories.length := by
      decide +kernel
    have hpath : index.pathOf ⟨0, "two", 4, 1, "two"⟩ = .ok (Path.join "letters" "two") :=
      hlists.pathOf hinside'
    show (index.document 1 >>= _) = _
    rw [hrecord]
    show (index.pathOf _ >>= _) = _
    rw [hpath, show Path.join "letters" "two" = "letters/two" by decide +kernel]
    rfl
  have hsearch : searcher.search "not x"
      = .ok ⟨2, [⟨1, 100, "letters/two", 4, "two"⟩], ["x"]⟩ := by
    show (Searcher.ranked _ _ >>= _) = _
    rw [hranked]
    show (collect [searcher.hit 1 100] >>= _) = _
    rw [hhit]
    rfl
  obtain ⟨bytes, location, hpublishes, -, -, hranks⟩ := finish_ranks hfinish hfiles
  rcases hpublishes.unique hvolume with rfl
  obtain ⟨index', words, hopen', hreads, hevery⟩ := hranks hsize
  rcases Except.ok.inj (hopen.symm.trans hopen') with rfl
  obtain ⟨tree, left, scores, passed, ranked, -, -, -, hranking, -, hpage, -⟩ :=
    hevery searcher "not x" _ rfl hsearch
  rcases hpage 1 1 _ hsearch with ⟨htotal, hlisted⟩
  exact ⟨_, _, _, index, words, _, scores, ranked, hfinish, hfiles, hvolume, hsize, hopen, hreads,
    hsearch, hranking, htotal, hlisted, rfl⟩

end Session

end Concordance
