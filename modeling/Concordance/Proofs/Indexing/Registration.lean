import Concordance.Proofs.Indexing.Session
import Concordance.Proofs.StopWords
import Concordance.Proofs.Text.Fold
import Concordance.Proofs.Volume
import Mathlib.Data.List.Nodup

/-!
# What Is Registered Survives an Index

Directories and meta names are numbered as they come, and no name is there twice.

An index has directories in the order of their numbers, and so a session that adds to
it has them back as they were. Meta names are sorted on the way. What their order was
can not be seen, because every name has its number beside it, and the next number is
how many there are. So a session that takes over an index and one that registered the
same names are alike from then on, up to the order of their meta names.

## Main definitions

* `NamesDistinct`: No meta name is there twice.
* `Operation.Closable`: Something to do with texts that can be closed.

## Theorems

* `NamesDistinct.lookup_perm`, `lookup_foldl_addName`: A name keeps its id.
* `foldl_addName_perm`: Names are added to alike whatever their order is.
* `sortedNames_eq_of_perm`: They are stored alike.
* `Session.exists_of_takeOver`: What is read to take an index over.
* `Session.takeOver_eq`: What is taken over from an index.
-/

namespace Concordance

section Directories

/-- A directory is added if it is not there. -/
theorem addDirectory_eq (directories : List String) (path : String) :
    addDirectory directories path
      = if path ∈ directories then directories else directories ++ [path] := by
  rw [addDirectory]
  rcases hfind : directories.idxOf? path with _ | i
  · rw [if_neg (List.idxOf?_eq_none_iff.mp hfind)]
  · rw [if_pos]
    refine Classical.byContradiction fun hnot => ?_
    rw [List.idxOf?_eq_none_iff.mpr hnot] at hfind
    exact absurd hfind (by simp)

/-- No directory is there twice. -/
theorem foldl_addDirectory_nodup {directories : List String} (h : directories.Nodup)
    (paths : List String) : (paths.foldl addDirectory directories).Nodup := by
  induction paths generalizing directories with
  | nil => exact h
  | cons path paths ih =>
    refine ih ?_
    rw [addDirectory_eq]
    split
    · exact h
    · rename_i hnot
      refine List.nodup_append.mpr ⟨h, List.pairwise_singleton _ _, ?_⟩
      rintro a ha b hb rfl
      rw [List.mem_singleton] at hb
      exact hnot (hb ▸ ha)

/-- No directory is there that was not asked for. -/
theorem mem_of_mem_foldl_addDirectory {directories paths : List String} {x : String}
    (h : x ∈ paths.foldl addDirectory directories) : x ∈ directories ∨ x ∈ paths := by
  induction paths generalizing directories with
  | nil => exact Or.inl h
  | cons path paths ih =>
    rcases ih h with hmem | hmem
    · rw [addDirectory_eq] at hmem
      split at hmem
      · exact Or.inl hmem
      · rcases List.mem_append.mp hmem with hmem | hmem
        · exact Or.inl hmem
        · exact Or.inr (List.mem_cons.mpr (Or.inl (List.mem_singleton.mp hmem)))
    · exact Or.inr (List.mem_cons_of_mem _ hmem)

/-- Directories keep their places. -/
theorem isPrefix_foldl_addDirectory (directories paths : List String) :
    directories <+: paths.foldl addDirectory directories := by
  induction paths generalizing directories with
  | nil => exact List.prefix_refl _
  | cons path paths ih =>
    refine List.IsPrefix.trans ?_ (ih (addDirectory directories path))
    rw [addDirectory_eq]
    split
    · exact List.prefix_refl _
    · exact List.prefix_append _ _

/-- Directories that are all new are put behind those that are there. -/
theorem foldl_addDirectory_of_nodup {directories paths : List String}
    (h : (directories ++ paths).Nodup) :
    paths.foldl addDirectory directories = directories ++ paths := by
  induction paths generalizing directories with
  | nil => rw [List.foldl_nil, List.append_nil]
  | cons path paths ih =>
    have hnew : path ∉ directories := fun hmem =>
      (List.nodup_append.mp h).2.2 path hmem path List.mem_cons_self rfl
    rw [List.foldl_cons, addDirectory_eq, if_neg hnew, ih, List.append_assoc,
      List.singleton_append]
    rw [List.append_assoc, List.singleton_append]
    exact h

end Directories

section Names

/-- No meta name is there twice. -/
def NamesDistinct (metaNames : List (String × UInt32)) : Prop :=
  (metaNames.map Prod.fst).Nodup

variable {metaNames others : List (String × UInt32)}

theorem lookup_eq_none_iff_notMem {name : String} :
    metaNames.lookup name = none ↔ name ∉ metaNames.map Prod.fst := by
  rw [List.lookup_eq_none_iff]
  constructor
  · intro h hmem
    rcases List.mem_map.mp hmem with ⟨p, hp, rfl⟩
    exact absurd (h p hp) (by simp)
  · intro h p hp
    simp only [bne_iff_ne, ne_eq]
    rintro rfl
    exact h (List.mem_map_of_mem hp)

/-- A meta name is added if its folded form is not there. -/
theorem addName_eq (metaNames : List (String × UInt32)) (name : String) :
    addName metaNames name
      = if Text.fold name ∈ metaNames.map Prod.fst then metaNames
        else metaNames ++ [(Text.fold name, UInt32.ofNat metaNames.length)] := by
  rw [addName]
  rcases hlookup : metaNames.lookup (Text.fold name) with _ | id
  · rw [if_neg (lookup_eq_none_iff_notMem.mp hlookup)]
  · rw [if_pos]
    refine Classical.byContradiction fun hnot => ?_
    rw [lookup_eq_none_iff_notMem.mpr hnot] at hlookup
    exact absurd hlookup (by simp)

theorem NamesDistinct.addName (h : NamesDistinct metaNames) (name : String) :
    NamesDistinct (addName metaNames name) := by
  rw [addName_eq]
  split
  · exact h
  · rename_i hnot
    rw [NamesDistinct, List.map_append]
    refine List.nodup_append.mpr ⟨h, List.pairwise_singleton _ _, ?_⟩
    rintro a ha b hb rfl
    have hname : a = Text.fold name := List.mem_singleton.mp hb
    rw [hname] at ha
    exact hnot ha

/-- No meta name is ever there twice. -/
theorem NamesDistinct.foldl_addName (h : NamesDistinct metaNames) (names : List String) :
    NamesDistinct (names.foldl Concordance.addName metaNames) := by
  induction names generalizing metaNames with
  | nil => exact h
  | cons name names ih => exact ih (h.addName name)

/-- A name that is there once has the id that is beside it. -/
theorem NamesDistinct.lookup_eq_some_iff (h : NamesDistinct metaNames) {name : String}
    {id : UInt32} : metaNames.lookup name = some id ↔ (name, id) ∈ metaNames := by
  refine ⟨KeysAscend.mem_of_lookup, fun hmem => ?_⟩
  rcases hlookup : metaNames.lookup name with _ | other
  · exact absurd (List.mem_map_of_mem (f := Prod.fst) hmem)
      (lookup_eq_none_iff_notMem.mp hlookup)
  · have hpair := List.inj_on_of_nodup_map h (KeysAscend.mem_of_lookup hlookup) hmem rfl
    rw [(Prod.mk.inj hpair).2]

/-- So it has this id wherever it is in a list. -/
theorem NamesDistinct.lookup_perm (h : NamesDistinct metaNames) (hperm : metaNames.Perm others)
    (name : String) : metaNames.lookup name = others.lookup name := by
  have hothers : NamesDistinct others := (hperm.map Prod.fst).nodup_iff.mp h
  refine Option.ext fun id => ?_
  rw [h.lookup_eq_some_iff, hothers.lookup_eq_some_iff, hperm.mem_iff]

/-- Names keep their ids. -/
theorem lookup_foldl_addName {name : String} {id : UInt32} (h : metaNames.lookup name = some id)
    (names : List String) : (names.foldl addName metaNames).lookup name = some id := by
  induction names generalizing metaNames with
  | nil => exact h
  | cons other names ih =>
    refine ih ?_
    rw [addName_eq]
    split
    · exact h
    · rw [List.lookup_append, h, Option.some_or]

/-- No meta name is there that was not asked for. -/
theorem exists_of_mem_foldl_addName {names : List String} {x : String × UInt32}
    (h : x ∈ names.foldl addName metaNames) :
    x ∈ metaNames ∨ ∃ name ∈ names, x.1 = Text.fold name := by
  induction names generalizing metaNames with
  | nil => exact Or.inl h
  | cons name names ih =>
    rcases ih h with hmem | ⟨other, hother, heq⟩
    · rw [addName_eq] at hmem
      split at hmem
      · exact Or.inl hmem
      · rcases List.mem_append.mp hmem with hmem | hmem
        · exact Or.inl hmem
        · rw [List.mem_singleton.mp hmem]
          exact Or.inr ⟨name, List.mem_cons_self, rfl⟩
    · exact Or.inr ⟨other, List.mem_cons_of_mem _ hother, heq⟩

/-- Names are added to alike whatever their order is. -/
theorem foldl_addName_perm (h : metaNames.Perm others) (names : List String) :
    (names.foldl addName metaNames).Perm (names.foldl addName others) := by
  induction names generalizing metaNames others with
  | nil => exact h
  | cons name names ih =>
    refine ih ?_
    rw [addName_eq, addName_eq, h.length_eq]
    by_cases hmem : Text.fold name ∈ metaNames.map Prod.fst
    · rw [if_pos hmem, if_pos ((h.map Prod.fst).mem_iff.mp hmem)]
      exact h
    · rw [if_neg hmem, if_neg fun hmem' => hmem ((h.map Prod.fst).mem_iff.mpr hmem')]
      exact h.append_right _

/-- Names that are all new are put behind those that are there. -/
theorem foldl_setMetaName_of_distinct {names : List (String × UInt32)}
    (h : NamesDistinct (metaNames ++ names)) :
    names.foldl (fun all (name, id) => Session.setMetaName name id all) metaNames
      = metaNames ++ names := by
  -- A name that is new is put behind the others.
  have hset : ∀ (all : List (String × UInt32)) (name : String) (id : UInt32),
      name ∉ all.map Prod.fst → Session.setMetaName name id all = all ++ [(name, id)] := by
    intro all name id hnot
    induction all with
    | nil => rfl
    | cons other all ih =>
      rw [List.map_cons, List.mem_cons, not_or] at hnot
      rw [Session.setMetaName, if_neg (Ne.symm hnot.1), ih hnot.2, List.cons_append]
  induction names generalizing metaNames with
  | nil => rw [List.foldl_nil, List.append_nil]
  | cons first names ih =>
    rcases first with ⟨name, id⟩
    -- Names are distinct, so none is set twice.
    have hnew : name ∉ metaNames.map Prod.fst := by
      rw [NamesDistinct, List.map_append] at h
      exact fun hmem => (List.nodup_append.mp h).2.2 _ hmem _ List.mem_cons_self rfl
    refine Eq.trans (congrArg (names.foldl _ ·) (hset metaNames name id hnew)) ?_
    rw [ih, List.append_assoc, List.singleton_append]
    rw [List.append_assoc, List.singleton_append]
    exact h

/-- A name that is given an id is put behind the others, if it was not there. -/
theorem map_fst_setMetaName (name : String) (id : UInt32) (all : List (String × UInt32)) :
    (Session.setMetaName name id all).map Prod.fst
      = if name ∈ all.map Prod.fst then all.map Prod.fst else all.map Prod.fst ++ [name] := by
  fun_induction Session.setMetaName name id all with
  | case1 => rfl
  | case2 old rest => simp
  | case3 other old rest hne ih =>
    rw [List.map_cons, ih, List.map_cons]
    by_cases hmem : name ∈ rest.map Prod.fst
    · rw [if_pos hmem, if_pos (List.mem_cons_of_mem _ hmem)]
    · have hnot : name ∉ other :: rest.map Prod.fst := by
        rw [List.mem_cons, not_or]
        exact ⟨Ne.symm hne, hmem⟩
      rw [if_neg hmem, if_neg hnot, List.cons_append]

/-- Giving names an id leaves none there twice. -/
theorem NamesDistinct.foldl_setMetaName (h : NamesDistinct metaNames)
    (names : List (String × UInt32)) :
    NamesDistinct (names.foldl (fun all (name, id) => Session.setMetaName name id all)
      metaNames) := by
  induction names generalizing metaNames with
  | nil => exact h
  | cons first names ih =>
    refine ih ?_
    rw [NamesDistinct, map_fst_setMetaName]
    split
    · exact h
    · rename_i hnot
      refine List.nodup_append.mpr ⟨h, List.pairwise_singleton _ _, ?_⟩
      rintro a ha b hb rfl
      exact hnot (List.mem_singleton.mp hb ▸ ha)

/-- The stored order of meta names is that of their bytes, and then of their ids. -/
theorem metaBefore_iff {a b : String × UInt32} : Contents.metaBefore a b = true
    ↔ Utf8.bytes a.1 < Utf8.bytes b.1 ∨ (a.1 = b.1 ∧ a.2 ≤ b.2) := by
  rw [Contents.metaBefore]
  by_cases heq : a.1 = b.1
  · rw [if_pos heq, heq]
    simp only [decide_eq_true_eq, List.lt_irrefl, false_or, true_and]
  · rw [if_neg heq, StopWords.storedBefore, decide_eq_true_eq]
    constructor
    · intro hle
      exact Or.inl (Classical.byContradiction fun hnot =>
        heq (Utf8.bytes_injective (List.le_antisymm hle hnot)))
    · rintro (hlt | ⟨hsame, -⟩)
      · exact List.le_of_lt hlt
      · exact absurd hsame heq

theorem metaBefore_trans (a b c : String × UInt32) (hab : Contents.metaBefore a b = true)
    (hbc : Contents.metaBefore b c = true) : Contents.metaBefore a c = true := by
  rw [metaBefore_iff] at hab hbc ⊢
  rcases hab with hab | ⟨hab, hle⟩
  · rcases hbc with hbc | ⟨hbc, -⟩
    · exact Or.inl (List.lt_trans hab hbc)
    · rw [← hbc]
      exact Or.inl hab
  · rw [hab]
    rcases hbc with hbc | ⟨hbc, hle'⟩
    · exact Or.inl hbc
    · exact Or.inr ⟨hbc, UInt32.le_trans hle hle'⟩

theorem metaBefore_total (a b : String × UInt32) :
    (Contents.metaBefore a b || Contents.metaBefore b a) = true := by
  rw [Bool.or_eq_true, metaBefore_iff, metaBefore_iff]
  by_cases heq : a.1 = b.1
  · exact (UInt32.le_total a.2 b.2).imp (fun hle => Or.inr ⟨heq, hle⟩)
      fun hle => Or.inr ⟨heq.symm, hle⟩
  · by_cases hlt : Utf8.bytes a.1 < Utf8.bytes b.1
    · exact Or.inl (Or.inl hlt)
    · exact Or.inr (Or.inl (lt_of_not_lt (fun h => heq (Utf8.bytes_injective h)) hlt))

/-- Names ascend by their bytes once they are sorted. -/
theorem sortedNames_ascend (metaNames : List (String × UInt32)) :
    (metaNames.mergeSort Contents.metaBefore).Pairwise
      fun a b => Utf8.bytes a.1 ≤ Utf8.bytes b.1 := by
  refine (List.pairwise_mergeSort metaBefore_trans metaBefore_total _).imp fun {a b} hab => ?_
  rcases metaBefore_iff.mp hab with hlt | ⟨heq, -⟩
  · exact List.le_of_lt hlt
  · exact heq ▸ List.le_refl _

/-- And strictly so if no name is there twice. -/
theorem NamesDistinct.sorted_ascend (h : NamesDistinct metaNames) :
    (metaNames.mergeSort Contents.metaBefore).Pairwise
      fun a b => Utf8.bytes a.1 < Utf8.bytes b.1 := by
  have hsorted := List.pairwise_mergeSort metaBefore_trans metaBefore_total metaNames
  have hdistinct : (metaNames.mergeSort Contents.metaBefore).Pairwise fun a b => a.1 ≠ b.1 :=
    List.pairwise_map.mp (((List.mergeSort_perm _ _).map Prod.fst).nodup_iff.mpr h)
  refine (hsorted.and hdistinct).imp fun {a b} hab => ?_
  rcases metaBefore_iff.mp hab.1 with hlt | ⟨heq, -⟩
  · exact hlt
  · exact absurd heq hab.2

/-- Meta names are stored alike whatever their order was. -/
theorem sortedNames_eq_of_perm (h : metaNames.Perm others) :
    metaNames.mergeSort Contents.metaBefore = others.mergeSort Contents.metaBefore := by
  refine mergeSort_eq_of_perm metaBefore_trans metaBefore_total ?_ h
  intro a b hab hba
  rw [metaBefore_iff] at hab hba
  rcases hab with hab | ⟨hab, hle⟩
  · rcases hba with hba | ⟨hba, -⟩
    · exact absurd hba (List.lt_asymm hab)
    · rw [hba] at hab
      exact absurd hab (List.lt_irrefl _)
  · rcases hba with hba | ⟨-, hle'⟩
    · rw [hab] at hba
      exact absurd hba (List.lt_irrefl _)
    · exact Prod.ext hab (UInt32.le_antisymm hle hle')

/-- Names are stored folded, which adds no NUL. -/
theorem nulFree_of_mem_foldl_addName (hbefore : ∀ name ∈ metaNames, NulFree name.1)
    {names : List String} (h : ∀ name ∈ names, NulFree name) :
    ∀ name ∈ names.foldl addName metaNames, NulFree name.1 := by
  intro name hname
  rcases exists_of_mem_foldl_addName hname with hmem | ⟨asked, hasked, heq⟩
  · exact hbefore name hmem
  · rw [heq]
    exact Text.nulFree_fold (h asked hasked)

end Names

/-- A part of a document whose texts can be closed. Words are not stored as they
    stand. -/
def Part.Closable : Part → Prop
  | .title other => NulFree other
  | .metaName name => NulFree name
  | _ => True

instance : (part : Part) → Decidable part.Closable
  | .title other => inferInstanceAs (Decidable (NulFree other))
  | .metaName name => inferInstanceAs (Decidable (NulFree name))
  | .text _ _ => .isTrue trivial
  | .word _ _ => .isTrue trivial

/-- Something to do with texts that can be closed. -/
def Operation.Closable : Operation → Prop
  | .directory path => NulFree path
  | .metaName name => NulFree name
  | .file _ name _ title parts =>
    NulFree name ∧ NulFree (title.getD name) ∧ ∀ part ∈ parts, part.Closable

instance : (op : Operation) → Decidable op.Closable
  | .directory path => inferInstanceAs (Decidable (NulFree path))
  | .metaName name => inferInstanceAs (Decidable (NulFree name))
  | .file _ name _ title parts => inferInstanceAs (Decidable (NulFree name
      ∧ NulFree (title.getD name) ∧ ∀ part ∈ parts, part.Closable))

section Closable

variable {operations : List Operation} (h : ∀ op ∈ operations, op.Closable)

include h

/-- Documents of this kind have records that can be stored. -/
theorem records_closable : ∀ record ∈ records operations, record.Closable := by
  intro record hrecord
  rcases List.mem_filterMap.mp hrecord with ⟨op, hop, hsome⟩
  -- The title of a record is the last one that was given.
  have htitle : ∀ (parts : List Part) (title : String), NulFree title →
      (∀ part ∈ parts, part.Closable) → NulFree (parts.foldl Part.retitled title) := by
    intro parts
    induction parts with
    | nil => exact fun _ htitle _ => htitle
    | cons part parts ih =>
      intro title htitle hparts
      refine ih _ ?_ fun p hp => hparts p (List.mem_cons_of_mem _ hp)
      cases part with
      | title other => exact hparts _ List.mem_cons_self
      | text text metaId => exact htitle
      | word raw metaId => exact htitle
      | metaName name => exact htitle
  cases op with
  | directory path => exact absurd hsome (by simp [Operation.record?])
  | metaName name => exact absurd hsome (by simp [Operation.record?])
  | file directory name size title parts =>
    rcases h _ hop with ⟨hname, hgiven, hparts⟩
    rcases Option.some.inj hsome with rfl
    exact ⟨hname, htitle parts _ hgiven hparts⟩

/-- So can their directories. -/
theorem directories_closable {directories : List String}
    (hbefore : ∀ path ∈ directories, NulFree path) :
    ∀ path ∈ (operations.filterMap Operation.path?).foldl addDirectory directories,
      NulFree path := by
  intro path hpath
  rcases mem_of_mem_foldl_addDirectory hpath with hmem | hmem
  · exact hbefore path hmem
  · rcases List.mem_filterMap.mp hmem with ⟨op, hop, hsome⟩
    cases op with
    | directory other =>
      rcases Option.some.inj hsome with rfl
      exact h _ hop
    | metaName name => exact absurd hsome (by simp [Operation.path?])
    | file directory name size title parts => exact absurd hsome (by simp [Operation.path?])

/-- So can their meta names. -/
theorem metaNames_closable {metaNames : List (String × UInt32)}
    (hbefore : ∀ name ∈ metaNames, NulFree name.1) :
    ∀ name ∈ (operations.flatMap Operation.names).foldl addName metaNames, NulFree name.1 := by
  refine nulFree_of_mem_foldl_addName hbefore fun asked hasked => ?_
  rcases List.mem_flatMap.mp hasked with ⟨op, hop, hmem⟩
  cases op with
  | directory path => exact absurd hmem List.not_mem_nil
  | metaName other =>
    rw [List.mem_singleton.mp hmem]
    exact h _ hop
  -- A document asks for the names that its parts ask for.
  | file directory title size given parts =>
    rcases h _ hop with ⟨-, -, hparts⟩
    rcases List.mem_flatMap.mp hmem with ⟨part, hpart, hmem⟩
    cases part with
    | metaName other =>
      rw [List.mem_singleton.mp hmem]
      exact hparts _ hpart
    | text text metaId => exact absurd hmem List.not_mem_nil
    | word raw metaId => exact absurd hmem List.not_mem_nil
    | title title => exact absurd hmem List.not_mem_nil

end Closable

namespace Session

theorem foldl_internDirectory_eq (session : Session) (paths : List String) :
    paths.foldl (fun session path => (session.internDirectory path).1) session
      = session.registered session.files (paths.foldl addDirectory session.directories)
          session.metaNames := by
  induction paths generalizing session with
  | nil => rfl
  | cons path paths ih =>
    rw [List.foldl_cons, ih, internDirectory_eq]
    rfl

/-- What is read when a session takes an index over, and what becomes of it. -/
theorem exists_of_takeOver {session taken : Session} {index : Index}
    (h : session.takeOver index = .ok taken) :
    ∃ stops paths files names,
      collect ((index.segment .stopWords).entries.map (· >>= decodeText)) = .ok stops
      ∧ collect ((index.segment .directories).entries.map (· >>= decodeText)) = .ok paths
      ∧ collect ((index.segment .files).entries.map (· >>= Record.decode)) = .ok files
      ∧ collect ((index.segment .metaNames).entries.map (· >>= MetaName.decode)) = .ok names
      ∧ taken = { session with
          stopWords := session.stopWords.insertAll stops
          directories := paths.foldl addDirectory session.directories
          files := session.files ++ files
          metaNames := names.foldl (fun all (name, id) => setMetaName name id all)
            session.metaNames } := by
  rw [takeOver] at h
  rcases exists_of_bind h with ⟨stops, hstops, h⟩
  rcases exists_of_bind h with ⟨paths, hpaths, h⟩
  rcases exists_of_bind h with ⟨files, hfiles, h⟩
  rcases exists_of_bind h with ⟨names, hnames, h⟩
  rcases Except.ok.inj h with rfl
  rw [foldl_internDirectory_eq]
  exact ⟨stops, paths, files, names, hstops, hpaths, hfiles, hnames, rfl⟩

/-- What a session without directories and meta names takes over from an index. -/
theorem takeOver_eq {index : Index} {volume : Volume} (h : index.Lists volume)
    (options : IndexingOptions) (stopWords : StopWords) :
    takeOver { options, stopWords } index = .ok {
      options
      stopWords := stopWords.insertAll volume.stopWords
      files := volume.files
      directories := volume.directories.foldl addDirectory []
      metaNames := volume.metaNames.foldl (fun all (name, id) => setMetaName name id all) [] } := by
  rw [takeOver, h.stopWords, h.directories, h.files, h.metaNames]
  simp only [bind, Except.bind, foldl_internDirectory_eq, registered, List.nil_append]

end Session

end Concordance
