import Concordance.Proofs.Indexing.Extension
import Concordance.Proofs.Indexing.WellOrdered
import Concordance.Proofs.Lookups

/-!
# Indexing in Rounds

What was registered is read back, however often an index is added to.

Directories and documents have numbers, and meta names have ids, and a caller is given them. A
round takes over from a file what the rounds before have registered, goes on from there, and
writes it all anew. A number is nothing but a place, and so it stays the same only if all that is
before it is read back, and none of it as something else. Directories that have become alike are
one directory to the next round, and then all numbers behind them are those of others.

Whether texts are read back is a matter of their NULs. A text is stored with a NUL at its end, and
a reader takes the first one that it meets for that. So no text that is registered may have one.
Stop words do not come into it, because they are stored by themselves. There is no condition on
what the file of the first round had in it, if the first round has added to one. What it was read
as has no NUL left.

The other condition is that there are numbers for all directories and documents. With more of them
numbers begin anew, and a caller is given one that another has.

## Main definitions

* `Register`: Directories, documents and meta names with their numbers.
* `Register.after`: What is registered after something was asked for.
* `Session.answered`: What a session is asked to do, with the numbers that it gives out.
* `Session.Rounds`: The file that several rounds end in.
* `Index.Shows`: An index that a register is read back from.
* `Index.Recalls`: An index that has what was asked for under its number.

## Theorems

* `Session.Keeps.run`: What a session is asked to do is registered.
* `Session.Keeps.answered`: Under the numbers that it gives out.
* `Session.Keeps.shows`: It is read back from the file that the session ends in.
* `Index.Shows.extend`: It is taken over from there.
* `Session.rounds_show`: So it is read back after any number of rounds.
-/

namespace Concordance

/-- What is registered: directories and documents in the order of their numbers, and folded meta
    names with their ids. -/
structure Register where
  directories : List String := []
  files : List Record := []
  metaNames : List (String × UInt32) := []
deriving DecidableEq, Repr

namespace Register

variable {register : Register} {operations : List Operation}

/-- What is registered after something was asked for. -/
def after (register : Register) (operations : List Operation) : Register where
  directories := (operations.filterMap Operation.path?).foldl addDirectory register.directories
  files := register.files ++ records operations
  metaNames := (operations.flatMap Operation.names).foldl addName register.metaNames

theorem after_append (register : Register) (old new : List Operation) :
    register.after (old ++ new) = (register.after old).after new := by
  simp only [after, records, List.filterMap_append, List.flatMap_append, List.foldl_append,
    List.append_assoc]

/-- A register with numbers for all of its directories and documents. -/
structure Fits (register : Register) : Prop where
  directories : register.directories.length ≤ UInt32.size
  files : register.files.length ≤ UInt32.size

instance : Decidable register.Fits :=
  decidable_of_iff (register.directories.length ≤ UInt32.size
      ∧ register.files.length ≤ UInt32.size)
    ⟨fun h => ⟨h.1, h.2⟩, fun h => ⟨h.directories, h.files⟩⟩

/-- There were numbers for less, if there are numbers for more. -/
theorem Fits.of_after (h : (register.after operations).Fits) : register.Fits := by
  refine ⟨Nat.le_trans ?_ h.directories, Nat.le_trans ?_ h.files⟩
  · exact (isPrefix_foldl_addDirectory _ _).length_le
  · exact (List.prefix_append _ _).length_le

/-- A register in which nothing is twice, and all texts can be closed. -/
structure Storable (register : Register) : Prop where
  nodup : register.directories.Nodup
  distinct : NamesDistinct register.metaNames
  directories : ∀ path ∈ register.directories, NulFree path
  files : ∀ record ∈ register.files, record.Closable
  metaNames : ∀ name ∈ register.metaNames, NulFree name.1

/-- It stays so, if what is asked for has texts that can be closed. -/
theorem Storable.after (h : register.Storable) (hops : ∀ op ∈ operations, op.Closable) :
    (register.after operations).Storable where
  nodup := foldl_addDirectory_nodup h.nodup _
  distinct := h.distinct.foldl_addName _
  directories := directories_closable hops h.directories
  files := fun record hrecord =>
    (List.mem_append.mp hrecord).elim (h.files record) (records_closable hops record)
  metaNames := metaNames_closable hops h.metaNames

/-- A register has what was asked for under its number. -/
def Tells (register : Register) : Operation → UInt32 → Prop
  | .directory path, id => register.directories[id.toNat]? = some path
  | .metaName name, id => register.metaNames.lookup (Text.fold name) = some id
  | .file directory name size title parts, id => ∃ record,
    (Operation.file directory name size title parts).record? = some record
      ∧ register.files[id.toNat]? = some record

/-- A number stays that of the same thing, whatever else is asked for. -/
theorem Tells.after {op : Operation} {id : UInt32} (h : register.Tells op id)
    (operations : List Operation) : (register.after operations).Tells op id := by
  cases op with
  | directory path =>
    rcases List.getElem?_eq_some_iff.mp h with ⟨hid, rfl⟩
    exact List.prefix_iff_getElem?.mp (isPrefix_foldl_addDirectory _ _) _ hid
  | metaName name => exact lookup_foldl_addName h _
  | file directory name size title parts =>
    rcases h with ⟨_, hrecord, hget⟩
    rcases List.getElem?_eq_some_iff.mp hget with ⟨hid, rfl⟩
    exact ⟨_, hrecord, List.prefix_iff_getElem?.mp (List.prefix_append _ _) _ hid⟩

end Register

namespace Session

/-- What a session has registered. -/
def register (session : Session) : Register :=
  ⟨session.directories, session.files, session.metaNames⟩

variable {session : Session} {register : Register} {operations : List Operation}

/-- The number that a caller is given for what it asks for. -/
def answer (session : Session) : Operation → UInt32
  | .directory path => (session.internDirectory path).2
  | .metaName name => (session.internName name).2
  | .file directory name size title _ =>
    (session.beginDocument directory name size title).2.document

/-- What a session is asked to do, with the numbers that it gives out. -/
def answered (session : Session) : List Operation → List (Operation × UInt32)
  | [] => []
  | op :: operations => (op, session.answer op) :: (session.apply op).answered operations

theorem map_fst_answered (session : Session) (operations : List Operation) :
    (session.answered operations).map Prod.fst = operations := by
  induction operations generalizing session with
  | nil => rfl
  | cons op operations ih => exact congrArg (op :: ·) (ih _)

/-- A directory is found under the number that is given out for it. -/
theorem getElem?_internDirectory {path : String}
    (h : (addDirectory session.directories path).length ≤ UInt32.size) :
    (addDirectory session.directories path)[(session.internDirectory path).2.toNat]?
      = some path := by
  have hid : ∀ i, i < UInt32.size → (UInt32.ofNat i).toNat = i :=
    fun i hi => UInt32.toNat_ofNat_of_lt' hi
  rw [addDirectory] at h ⊢
  rw [internDirectory]
  rcases hfind : session.directories.idxOf? path with _ | i
  · simp only [hfind, List.length_append, List.length_singleton] at h
    rw [hid _ h, List.getElem?_concat_length]
  · rcases List.idxOf?_eq_some_iff.mp hfind with ⟨hi, heq, -⟩
    simp only [hfind] at h
    rw [hid _ (Nat.lt_of_lt_of_le hi h), List.getElem?_eq_getElem hi, heq]

/-- So is a meta name. -/
theorem lookup_internName {name : String} :
    (addName session.metaNames name).lookup (Text.fold name)
      = some (session.internName name).2 := by
  rw [addName, internName]
  rcases hlookup : session.metaNames.lookup (Text.fold name) with _ | id
  · simp only [hlookup, List.lookup_append, Option.none_or, List.lookup_cons_self]
  · exact hlookup

/-- A session that has what is in a register. Meta names are sorted when they are stored, and so
    their order may be another one. -/
structure Keeps (session : Session) (register : Register) : Prop where
  directories : session.directories = register.directories
  files : session.files = register.files
  metaNames : session.metaNames.Perm register.metaNames

theorem keeps_register (session : Session) : session.Keeps session.register :=
  ⟨rfl, rfl, List.Perm.refl _⟩

/-- What a session is asked to do is registered. -/
theorem Keeps.run (h : session.Keeps register) (fits : (register.after operations).Fits) :
    (session.run operations).Keeps (register.after operations) := by
  have hroom : session.files.length + (records operations).length ≤ UInt32.size := by
    rw [h.files, ← List.length_append]
    exact fits.files
  rcases session.run_keeps operations hroom with ⟨_, _, _, hrun⟩
  rw [hrun]
  exact ⟨congrArg (List.foldl addDirectory · _) h.directories, congrArg (· ++ _) h.files,
    foldl_addName_perm h.metaNames _⟩

/-- It is registered under the number that is given out for it. -/
theorem Keeps.tells (h : session.Keeps register) (hdistinct : NamesDistinct register.metaNames)
    {op : Operation} (fits : (register.after [op]).Fits) :
    (register.after [op]).Tells op (session.answer op) := by
  cases op with
  | directory path =>
    have hfits := fits.directories
    show (addDirectory register.directories path)[_]? = some path
    rw [← h.directories]
    exact getElem?_internDirectory (h.directories ▸ hfits)
  | metaName name =>
    have hnames : (addName session.metaNames name).Perm (addName register.metaNames name) :=
      foldl_addName_perm h.metaNames [name]
    show (addName register.metaNames name).lookup (Text.fold name) = _
    -- The register has its names in another order, which makes no difference as they are distinct.
    rw [(hdistinct.addName name).lookup_perm hnames.symm]
    exact lookup_internName
  | file directory name size title parts =>
    have hroom : (register.files ++ records _).length ≤ UInt32.size := fits.files
    rw [List.length_append] at hroom
    refine ⟨_, rfl, ?_⟩
    show (register.files ++ _)[(UInt32.ofNat session.files.length).toNat]? = _
    rw [h.files, UInt32.toNat_ofNat_of_lt' (Nat.lt_of_succ_le hroom)]
    exact List.getElem?_concat_length

/-- So is everything else that a session is asked for. -/
theorem Keeps.answered (h : session.Keeps register) (hdistinct : NamesDistinct register.metaNames)
    (fits : (register.after operations).Fits) :
    ∀ entry ∈ session.answered operations,
      (register.after operations).Tells entry.1 entry.2 := by
  induction operations generalizing session register with
  | nil => exact fun entry hentry => absurd hentry List.not_mem_nil
  | cons op operations ih =>
    rw [show register.after (op :: operations) = (register.after [op]).after operations from
      register.after_append [op] operations] at fits ⊢
    intro entry hentry
    rcases List.mem_cons.mp hentry with rfl | hentry
    · exact (h.tells hdistinct fits.of_after).after operations
    · exact ih (h.run fits.of_after) (hdistinct.foldl_addName _) fits entry hentry

end Session

/-- An index that a register is read back from. -/
structure Index.Shows (index : Index) (register : Register) : Prop where
  directories : collect ((index.segment .directories).entries.map (· >>= decodeText))
    = .ok register.directories
  files : collect ((index.segment .files).entries.map (· >>= Record.decode)) = .ok register.files
  metaNames : ∃ names, collect ((index.segment .metaNames).entries.map (· >>= MetaName.decode))
    = .ok names ∧ names.Perm register.metaNames
  nameId : ∀ name, index.nameId name = .ok (register.metaNames.lookup name)

/-- An index has what was asked for under its number. -/
def Index.Recalls (index : Index) : Operation → UInt32 → Prop
  | .directory path, id => index.directory id = .ok path
  | .metaName name, id => index.nameId (Text.fold name) = .ok (some id)
  | .file directory name size title parts, id => ∃ record,
    (Operation.file directory name size title parts).record? = some record
      ∧ index.document id = .ok record

namespace Index.Shows

variable {index : Index} {register : Register}

/-- What a register tells is read back. -/
theorem recalls (h : index.Shows register) {op : Operation} {id : UInt32}
    (htells : register.Tells op id) : index.Recalls op id := by
  cases op with
  | directory path =>
    rcases List.getElem?_eq_some_iff.mp htells with ⟨hid, rfl⟩
    exact Segment.get_of_collect_entries h.directories hid
  | metaName name => exact (h.nameId _).trans (congrArg Except.ok htells)
  | file directory name size title parts =>
    rcases htells with ⟨record, hrecord, hget⟩
    rcases List.getElem?_eq_some_iff.mp hget with ⟨hid, rfl⟩
    exact ⟨_, hrecord, Segment.get_of_collect_entries h.files hid⟩

/-- A session that takes over the index has it as well. -/
theorem extend (h : index.Shows register) (hstorable : register.Storable) {disk : Disk}
    {path : String} {options : IndexingOptions} {bytes : Bytes} {session : Session}
    (hfile : disk.openFile path = .ok bytes) (hopen : Index.open? bytes.toArray = .ok index)
    (hextend : Session.extend? disk path options = .ok session) : session.Keeps register := by
  obtain ⟨bytes', index', taken, hfile', hopen', htaken, rfl⟩ := Session.exists_of_extend? hextend
  rcases Except.ok.inj (hfile'.symm.trans hfile) with rfl
  rcases Except.ok.inj (hopen'.symm.trans hopen) with rfl
  obtain ⟨stops, paths, files, names, -, hpaths, hfiles, hnames, rfl⟩ :=
    Session.exists_of_takeOver htaken
  rcases h.metaNames with ⟨names', hnames', hperm⟩
  rcases Except.ok.inj (hpaths.symm.trans h.directories) with rfl
  rcases Except.ok.inj (hfiles.symm.trans h.files) with rfl
  rcases Except.ok.inj (hnames.symm.trans hnames') with rfl
  -- Nothing is twice, so nothing gets lost among what was there before.
  have hdistinct : NamesDistinct names := (hperm.map Prod.fst).nodup_iff.mpr hstorable.distinct
  have htaken := @foldl_setMetaName_of_distinct [] names hdistinct
  rw [List.nil_append] at htaken
  exact ⟨foldl_addDirectory_of_nodup hstorable.nodup, rfl, htaken.symm ▸ hperm⟩

end Index.Shows

namespace Session

variable {session : Session} {register : Register} {operations : List Operation} {bytes : Bytes}

/-- What a session has is read back from the index that it ends in. -/
theorem Keeps.shows (h : session.Keeps register) (hstorable : register.Storable)
    (merged : List WordPostings) (hsize : (session.volume merged).bytes.length < UInt64.size) :
    ∃ index, Index.open? (session.volume merged).bytes.toArray = .ok index
      ∧ index.Shows register := by
  obtain ⟨index, hopen, -⟩ := Index.open?_indexBytes hsize (Volume.sections_ne_nil _)
  have hsorted : (session.volume merged).metaNames.Perm session.metaNames :=
    List.mergeSort_perm _ _
  -- Names are stored in their order, which is neither that of the session nor that of the register.
  have hperm := hsorted.trans h.metaNames
  have hnul : ∀ name ∈ (session.volume merged).metaNames, NulFree name.1 :=
    fun name hname => hstorable.metaNames name (hperm.mem_iff.mp hname)
  have hdistinct : NamesDistinct session.metaNames :=
    (h.metaNames.map Prod.fst).nodup_iff.mpr hstorable.distinct
  refine ⟨index, hopen, ?_, ?_, ⟨_, Volume.collect_metaNames _ hsize hopen hnul, hperm⟩,
    fun name => ?_⟩
  · rw [← h.directories]
    exact Volume.collect_directories _ hsize hopen fun path hpath =>
      hstorable.directories path (h.directories ▸ hpath)
  · rw [← h.files]
    exact Volume.collect_files _ hsize hopen fun record hrecord =>
      hstorable.files record (h.files ▸ hrecord)
  · rw [Volume.nameId_eq hsize hopen hnul (hdistinct.sorted_ascend.imp List.le_of_lt),
      hstorable.distinct.lookup_perm hperm.symm]

/-- A session that was asked to do several things, and then ended, has left these bytes in its
    file. -/
def Leaves (session : Session) (operations : List Operation) (bytes : Bytes) : Prop :=
  bytes.length < UInt64.size
  ∧ ∃ disk path summary after location,
    (session.run operations).finish disk path = (.ok summary, after)
    ∧ disk.placeOf path = .ok location ∧ after.item? location = some (.file bytes)

/-- What it publishes, it leaves where it is ended. -/
theorem Publishes.leaves {summary summary' : PublicationSummary} {disk after : Disk} {path : String}
    (h : (session.run operations).Publishes summary bytes) (hsize : bytes.length < UInt64.size)
    (hfinish : (session.run operations).finish disk path = (.ok summary', after)) :
    session.Leaves operations bytes := by
  obtain ⟨segments, merged, location, -, -, -, hpublishes, hplace, hitem⟩ :=
    exists_volume_of_finish hfinish
  rcases hpublishes.unique h with rfl
  exact ⟨hsize, disk, path, summary', after, location, hfinish, hplace, hitem⟩

/-- What a session has registered is read back from these bytes. -/
theorem Keeps.shows_of_leaves (h : session.Keeps register) (hstorable : register.Storable)
    (hops : ∀ op ∈ operations, op.Closable) (fits : (register.after operations).Fits)
    (hleaves : session.Leaves operations bytes) :
    ∃ index, Index.open? bytes.toArray = .ok index
      ∧ index.Shows (register.after operations) := by
  obtain ⟨hsize, disk, path, summary, after, location, hfinish, hplace, hitem⟩ := hleaves
  obtain ⟨segments, merged, location', -, -, -, -, hplace', hitem'⟩ :=
    exists_volume_of_finish hfinish
  rcases Except.ok.inj (hplace'.symm.trans hplace) with rfl
  rcases Item.file.inj (Option.some.inj (hitem'.symm.trans hitem)) with rfl
  exact (h.run fits).shows (hstorable.after hops) merged hsize

/-- A session at its beginning, with nothing in it or with what was in any file. -/
inductive Opened : Session → Prop
  | new {disk : Disk} {options : IndexingOptions} {stopWords : StopWords} {session : Session}
    (start : start? disk options stopWords = .ok session) : Opened session
  | extended {disk : Disk} {path : String} {options : IndexingOptions} {session : Session}
    (extend : extend? disk path options = .ok session) : Opened session

/-- What it has in it can be stored again. -/
theorem Opened.storable (h : session.Opened) : session.register.Storable := by
  cases h with
  | new start =>
    rcases eq_of_start? start with rfl
    exact ⟨List.nodup_nil, List.nodup_nil, by simp [Session.register],
      by simp [Session.register], by simp [Session.register]⟩
  | extended extend =>
    have hdistinct := Distinct.extend extend
    have hclosable := (Begun.extended extend).closable
    exact ⟨hdistinct.directories, hdistinct.metaNames, hclosable.directories, hclosable.files,
      hclosable.metaNames⟩

/-- The bytes of the file that several rounds end in, of which the first begins with a given
    session, and each of the others with the file of the one before. All that they were asked to
    do stands in a row. -/
inductive Rounds (first : Session) : List (Operation × UInt32) → Bytes → Prop
  | once {stemmer : String → String} {operations : List Operation} {bytes : Bytes}
    (leaves : { first with stemmer }.Leaves operations bytes) :
    Rounds first ({ first with stemmer }.answered operations) bytes
  | again {log : List (Operation × UInt32)} {base : Bytes} {disk : Disk} {path : String}
    {options : IndexingOptions} {session : Session} {stemmer : String → String}
    {operations : List Operation} {bytes : Bytes} (rounds : Rounds first log base)
    (file : disk.openFile path = .ok base) (extend : extend? disk path options = .ok session)
    (leaves : { session with stemmer }.Leaves operations bytes) :
    Rounds first (log ++ { session with stemmer }.answered operations) bytes

/-- What is registered in any number of rounds is read back from the file that they end in, with
    the numbers that were given out for it, if the texts in it can be closed. -/
theorem rounds_show {first : Session} (opened : first.Opened) {log : List (Operation × UInt32)}
    (rounds : first.Rounds log bytes) (closable : ∀ entry ∈ log, entry.1.Closable)
    (fits : (first.register.after (log.map Prod.fst)).Fits) :
    ∃ index, Index.open? bytes.toArray = .ok index
      ∧ index.Shows (first.register.after (log.map Prod.fst))
      ∧ ∀ entry ∈ log, index.Recalls entry.1 entry.2 := by
  suffices hall : ∃ index, Index.open? bytes.toArray = .ok index
      ∧ index.Shows (first.register.after (log.map Prod.fst))
      ∧ ∀ entry ∈ log, (first.register.after (log.map Prod.fst)).Tells entry.1 entry.2 by
    rcases hall with ⟨index, hopen, hshows, htells⟩
    exact ⟨index, hopen, hshows, fun entry hentry => hshows.recalls (htells entry hentry)⟩
  have hstorable := opened.storable
  induction rounds with
  | @once stemmer operations bytes leaves =>
    have hkeeps : { first with stemmer }.Keeps first.register := keeps_register _
    have hops : ∀ op ∈ operations, op.Closable := by
      rw [← map_fst_answered { first with stemmer } operations]
      exact List.forall_mem_map.mpr closable
    rw [map_fst_answered] at fits ⊢
    rcases hkeeps.shows_of_leaves hstorable hops fits leaves with ⟨index, hopen, hshows⟩
    exact ⟨index, hopen, hshows, hkeeps.answered hstorable.distinct fits⟩
  | @again log base disk path options session stemmer operations bytes rounds file extend leaves
      ih =>
    rw [List.map_append, map_fst_answered, Register.after_append] at fits ⊢
    have hlog : ∀ entry ∈ log, entry.1.Closable := fun entry hentry =>
      closable entry (List.mem_append_left _ hentry)
    have hops : ∀ op ∈ operations, op.Closable := by
      rw [← map_fst_answered { session with stemmer } operations]
      exact List.forall_mem_map.mpr fun entry hentry =>
        closable entry (List.mem_append_right _ hentry)
    rcases ih hlog fits.of_after with ⟨index, hopen, hshows, htells⟩
    -- The next round goes on with the register that the one before has left.
    have hbefore := hstorable.after (List.forall_mem_map.mpr hlog)
    have htaken := hshows.extend hbefore file hopen extend
    have hkeeps : { session with stemmer }.Keeps _ :=
      ⟨htaken.directories, htaken.files, htaken.metaNames⟩
    rcases hkeeps.shows_of_leaves hbefore hops fits leaves with ⟨index, hopen, hshows⟩
    refine ⟨index, hopen, hshows, fun entry hentry => ?_⟩
    rcases List.mem_append.mp hentry with hentry | hentry
    · exact (htells entry hentry).after operations
    · exact hkeeps.answered hbefore.distinct fits entry hentry

/-- Two rounds. The second one asks for a directory and a meta name once more, and is given the
    numbers that they have from the first. -/
theorem rounds_show_of_two :
    let first : Session := { options := {}, stopWords := .empty }
    let log : List (Operation × UInt32) := [(.directory "letters", 0), (.metaName "Title", 0),
      (.file 0 "one" 0 (some "First") [], 0), (.directory "notes", 1), (.directory "letters", 0),
      (.metaName "TITLE", 0), (.file 1 "two" 5 none [.text "Dogs." none], 1)]
    let register : Register := {
      directories := ["letters", "notes"]
      files := [⟨0, "one", 0, 0, "First"⟩, ⟨1, "two", 5, 1, "two"⟩]
      metaNames := [("title", 0)] }
    first.Opened ∧ (∀ entry ∈ log, entry.1.Closable)
    ∧ first.register.after (log.map Prod.fst) = register ∧ register.Fits
    ∧ ∃ bytes index, first.Rounds log bytes ∧ Index.open? bytes.toArray = .ok index
      ∧ index.Shows register ∧ ∀ entry ∈ log, index.Recalls entry.1 entry.2 := by
  intro first log register
  have hclosable : ∀ entry ∈ log, entry.1.Closable := by decide
  have hstart : start? {} {} .empty = .ok first := rfl
  let old : List Operation := [.directory "letters", .metaName "Title",
    .file 0 "one" 0 (some "First") []]
  let new : List Operation := [.directory "notes", .directory "letters", .metaName "TITLE",
    .file 1 "two" 5 none [.text "Dogs." none]]
  -- The first round has no words, and so there is nothing in its file that was computed.
  let base : Volume := {
    words := []
    stopWords := []
    directories := ["letters"]
    files := [⟨0, "one", 0, 0, "First"⟩]
    metaNames := [("title", 0)] }
  have hbase : (first.run old).volume [] = base := by decide +kernel
  have hsize : base.bytes.length < UInt64.size :=
    Volume.length_bytes_lt (by decide +kernel)
  have hnone : ((first.run old).closed.sources >>= Merge.sources).toOption = some [] := by
    decide +kernel
  obtain ⟨segments, -, -, hpublishes⟩ := exists_publishes_volume hnone (by simp)
  rw [hbase] at hpublishes
  have hleaves : first.Leaves old base.bytes :=
    hpublishes.leaves hsize (hpublishes.finish_eq (Contents.publishBytes_empty _))
  -- The second one adds to this file.
  let disk : Disk := { root := .directory [("index", .file base.bytes)] }
  let index : Index := ⟨base.bytes.toArray, base.sections.tables⟩
  let session : Session := {
    options := {}
    stopWords := StopWords.empty.insertAll base.stopWords
    files := base.files
    directories := base.directories
    metaNames := base.metaNames
    base := some index }
  have hextend : extend? disk "index" {} = .ok session := by
    have hlists : base.Closable :=
      ⟨by decide +kernel, by decide +kernel, fun record hrecord => by
        rw [List.mem_singleton.mp hrecord]
        exact ⟨by decide, by decide⟩, by decide +kernel⟩
    obtain ⟨index', hopen', -, -, hindex⟩ := base.open?_bytes hsize
    have hopen : Index.open? base.bytes.toArray = .ok index := Index.open?_eq hsize
    rcases Except.ok.inj (hopen'.symm.trans hopen) with rfl
    have hdistinct : NamesDistinct base.metaNames := List.nodup_singleton "title"
    exact extend?_eq (Disk.openFile_root rfl) hopen (hindex hlists) (by decide) hdistinct rfl
  let merged : List WordPostings := [
    ⟨"dogs", [{ document := 1, occurrences := 1, positions := [0] }]⟩]
  have hsources : ((session.run new).closed.sources >>= Merge.sources).toOption
      = some merged := by
    decide +kernel
  obtain ⟨segments', -, -, hpublishes'⟩ := exists_publishes_volume hsources (by decide +kernel)
  have hsize' : ((session.run new).volume merged).bytes.length < UInt64.size :=
    Volume.length_bytes_lt (by decide +kernel)
  have hnot : ∀ inner, Node.lookup "index" [("index", .file base.bytes)]
      ≠ some (.directory inner) := fun _ => by simp [Node.lookup]
  have hleaves' := hpublishes'.leaves hsize'
    (hpublishes'.finish_eq (Contents.publishBytes_root hnot _))
  have hrounds : first.Rounds log _ :=
    @Rounds.again first _ _ disk "index" {} session id new _
      (@Rounds.once first id old _ hleaves) (Disk.openFile_root rfl) hextend hleaves'
  have hregister : first.register.after (log.map Prod.fst) = register := by decide +kernel
  have hfits : register.Fits := by decide +kernel
  rcases rounds_show (.new hstart) hrounds hclosable (hregister ▸ hfits) with
    ⟨done, hopen, hshows, hrecalls⟩
  exact ⟨.new hstart, hclosable, hregister, hfits, _, done, hrounds, hopen, hregister ▸ hshows,
    hrecalls⟩

end Session

end Concordance
