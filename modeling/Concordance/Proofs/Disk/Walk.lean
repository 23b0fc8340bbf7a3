import Concordance.Indexing.Publication
import Concordance.Proofs.Collect
import Concordance.Proofs.Disk.Tree
import Concordance.Proofs.Path

/-!
# Walks

Where a path leads does not depend on a file that nobody knows of.

A walk to a directory passes through directories and links only. So it takes no notice of
a file that was put beside them, and it may be continued with dots. Both are inductions
along the walk, where the names that are left are those of a link at times.

The directory of a path, as it is found by its text, is the one that is come to by walking
along all names but the last. A file that is made in the one can be moved to the last
name, and does not leave its directory for it.

## Main definitions

* `Disk.placeOf`: The location that a path names, whether or not something is there.

## Theorems

* `Disk.walk_of_item?`: A new file is not noticed.
* `Disk.walk_dots`: A walk is continued with dots.
* `Disk.list_of_node`: A directory that is reached without a last link is reached with it.
* `Disk.walk_directoryOf`: The directory of a path by walking.
-/

namespace Concordance

namespace Disk

/-- What an entry is depends on what there is at its location. -/
theorem exists_entry? {root other : Node} {here : List String} {name : String} {node : Node}
    (h : entry? root here name = .ok (some node))
    (hitem : other.item? (here ++ [name]) = root.item? (here ++ [name])) :
    ∃ node', entry? other here name = .ok (some node') ∧ node'.item = node.item := by
  unfold entry? at h ⊢
  split at h
  · exact absurd h (by simp)
  · rename_i hname
    rw [if_neg hname]
    rw [Except.ok.injEq] at h
    rw [Node.item?, Node.item?, h, Option.map_some, Option.map_eq_some_iff] at hitem
    rcases hitem with ⟨node', hget, hsame⟩
    exact ⟨node', by rw [hget], hsame⟩

theorem item_of_entry {root : Node} {here : List String} {name : String} {node : Node}
    (h : entry? root here name = .ok (some node)) :
    root.item? (here ++ [name]) = some node.item := by
  unfold entry? at h
  split at h
  · exact absurd h (by simp)
  · rw [Except.ok.injEq] at h
    rw [Node.item?, h, Option.map_some]

section Steps

variable {root : Node} {links : Nat} {here rest : List String} {name : String}

theorem walk_dot (root : Node) (links : Nat) (here rest : List String) :
    walk root true links here ("." :: rest) = walk root true links here rest := by
  rw [walk, if_pos rfl]

theorem walk_up (root : Node) (links : Nat) (here rest : List String) :
    walk root true links here (".." :: rest) = walk root true links here.dropLast rest := by
  rw [walk, if_neg (by decide), if_pos rfl]

theorem walk_directory {entries : List (String × Node)} (hdot : name ≠ ".") (hup : name ≠ "..")
    (h : entry? root here name = .ok (some (.directory entries))) :
    walk root true links here (name :: rest) = walk root true links (here ++ [name]) rest := by
  rw [walk, if_neg hdot, if_neg hup, h]

theorem walk_link {target : String} (hdot : name ≠ ".") (hup : name ≠ "..")
    (h : entry? root here name = .ok (some (.link target))) :
    walk root true (links + 1) here (name :: rest)
      = walk root true links (if Path.isAbsolute target then [] else here)
          (Path.steps target ++ rest) := by
  rw [walk, if_neg hdot, if_neg hup, h]
  simp

end Steps

/-- The last of some names is still the last if there are others before it. -/
theorem last_dot_of_cons (names : List String) {name : String} {rest : List String}
    (h : ∀ last ∈ (name :: rest).getLast?, last = ".") (hne : name ≠ ".") :
    rest ≠ [] ∧ ∀ last ∈ (names ++ rest).getLast?, last = "." := by
  rcases rest with _ | ⟨next, rest⟩
  · exact absurd (h name rfl) hne
  · refine ⟨List.cons_ne_nil _ _, fun last hlast => h last ?_⟩
    rw [List.getLast?_append, List.getLast?_cons, Option.some_or] at hlast
    rw [List.getLast?_cons_cons, List.getLast?_cons]
    exact hlast

/-- A walk that ends in a dot takes no notice of files. -/
theorem walk_of_item? {root other : Node}
    (hitem : ∀ location, (∀ content, root.item? location ≠ some (.file content)) →
      other.item? location = root.item? location)
    {links : Nat} {here names there : List String} (hdot : ∀ last ∈ names.getLast?, last = ".")
    (h : walk root true links here names = .ok there) :
    walk other true links here names = .ok there := by
  -- What is no file is the same in the other tree.
  have hentry : ∀ {here name node}, entry? root here name = .ok (some node) →
      (∀ content, node.item ≠ .file content) →
      ∃ node', entry? other here name = .ok (some node') ∧ node'.item = node.item := by
    intro here name node h hnot
    refine exists_entry? h (hitem _ fun content heq => hnot content ?_)
    exact Option.some.inj ((item_of_entry h).symm.trans heq)
  fun_induction walk root true links here names with
  | case1 links here => rw [walk, h]
  | case2 links here rest ih =>
    rw [walk_dot]
    refine ih (fun last hlast => hdot last ?_) h
    rcases rest with _ | ⟨next, rest⟩
    · exact absurd hlast (by simp)
    · rwa [List.getLast?_cons_cons]
  | case3 links here rest hname ih =>
    rw [walk_up]
    exact ih (last_dot_of_cons [] hdot hname).2 h
  | case6 links here name rest hname hup entries hdirectory ih =>
    obtain ⟨node, hnode, hsame⟩ := hentry hdirectory (by simp [Node.item])
    rcases node with content | target | entries'
    · exact absurd hsame (by simp [Node.item])
    · exact absurd hsame (by simp [Node.item])
    · rw [walk_directory hname hup hnode]
      exact ih (last_dot_of_cons [] hdot hname).2 h
  | case7 links here name rest hname hup content hfile hlast =>
    -- The last name is a dot, which is no name of a file.
    exact absurd (List.isEmpty_iff.mp hlast) (last_dot_of_cons [] hdot hname).1
  | case11 here name rest hname hup target hlink hfollow links ih =>
    obtain ⟨node, hnode, hsame⟩ := hentry hlink (by simp [Node.item])
    rcases node with content | target' | entries
    · exact absurd hsame (by simp [Node.item])
    · rcases Item.link.inj hsame with rfl
      rw [walk_link hname hup hnode]
      exact ih (last_dot_of_cons _ hdot hname).2 h
    · exact absurd hsame (by simp [Node.item])
  | case9 => simp at *
  | case4 | case5 | case8 | case10 => exact absurd h (by simp)

/-- A walk that ends at a directory is continued with dots. -/
theorem walk_dots {root : Node} {links : Nat} {here names there : List String}
    {entries : List (String × Node)} (count : Nat)
    (h : walk root true links here names = .ok there)
    (hdirectory : root.get? there = some (.directory entries)) :
    walk root true links here (names ++ List.replicate count ".") = .ok there := by
  fun_induction walk root true links here names with
  | case1 links here =>
    induction count with
    | zero => rw [List.replicate_zero, List.append_nil, walk, h]
    | succ count ih => rw [List.replicate_succ, List.nil_append, walk_dot]; exact ih
  | case2 links here rest ih =>
    rw [List.cons_append, walk_dot, ih h]
  | case3 links here rest hname ih =>
    rw [List.cons_append, walk_up, ih h]
  | case6 links here name rest hname hup entries' hentry ih =>
    rw [List.cons_append, walk_directory hname hup hentry, ih h]
  | case7 links here name rest hname hup content hentry hlast =>
    -- The walk has ended at a file, which is no directory.
    rcases Except.ok.inj h with rfl
    have hitem := item_of_entry hentry
    rw [Node.item?, hdirectory] at hitem
    exact absurd hitem (by simp [Node.item])
  | case11 here name rest hname hup target hentry hfollow links ih =>
    rw [List.cons_append, walk_link hname hup hentry, ← List.append_assoc]
    exact ih h
  | case9 => simp at *
  | case4 | case5 | case8 | case10 => exact absurd h (by simp)

/-- A walk that comes to a directory has no link in the last place that it did not follow. -/
theorem walk_follow {root : Node} {links : Nat} {here names there : List String}
    {entries : List (String × Node)} (h : walk root false links here names = .ok there)
    (hdirectory : root.get? there = some (.directory entries)) :
    walk root true links here names = .ok there := by
  -- The places where it would end at something else are not where it has come to.
  have hnot : ∀ {here name node}, entry? root here name = .ok (some node) →
      (∀ entries, node.item ≠ (Node.directory entries).item) → here ++ [name] ≠ there := by
    intro here name node hentry hne heq
    have hitem := item_of_entry hentry
    rw [Node.item?, heq, hdirectory] at hitem
    exact hne entries (Option.some.inj hitem).symm
  fun_induction walk root false links here names with
  | case1 links here => rw [walk, h]
  | case2 links here rest ih => rw [walk_dot, ih h]
  | case3 links here rest hname ih => rw [walk_up, ih h]
  | case6 links here name rest hname hup inner hentry ih =>
    rw [walk_directory hname hup hentry, ih h]
  | case7 links here name rest hname hup content hentry hlast =>
    exact absurd (Except.ok.inj h) (hnot hentry (by simp [Node.item]))
  | case9 links here name rest hname hup target hentry hlast =>
    exact absurd (Except.ok.inj h) (hnot hentry (by simp [Node.item]))
  | case11 here name rest hname hup target hentry hfollow links ih =>
    rw [walk_link hname hup hentry]
    exact ih h
  | case4 | case5 | case8 | case10 => exact absurd h (by simp)

/-- What is a directory by itself can be listed. -/
theorem list_of_node {disk : Disk} {path : String} {entries : List (String × Node)}
    (h : disk.node false path = .ok (.directory entries)) : disk.list path = .ok entries := by
  rcases exists_of_bind h with ⟨there, hresolve, hget⟩
  rcases exists_of_bind hresolve with ⟨⟨⟩, hcheck, hwalk⟩
  have hdirectory : disk.root.get? there = some (.directory entries) := by
    rcases hnode : disk.root.get? there with _ | node
    · rw [hnode] at hget
      exact absurd hget (by simp)
    · rw [hnode] at hget
      exact congrArg some (Except.ok.inj hget)
  have hresolve' : disk.resolve true path = .ok there := by
    rw [resolve, hcheck]
    exact walk_follow hwalk hdirectory
  have hnode : disk.node true path = .ok (.directory entries) := by
    simp only [node, hresolve', bind, Except.bind, hdirectory]
  rw [list, hnode]
  rfl

/-- The location that a path names, whether or not something is there. A link that is there
    is not followed. -/
def placeOf (disk : Disk) (path : String) : Except OsError (List String) :=
  match (Path.names path).reverse with
  | [] => .error .busy
  | last :: before =>
    (walk disk.root true maxLinks (disk.start path) (before.reverse ++ ["."])).map (· ++ [last])

/-- What went well when a file was moved. -/
theorem exists_of_moveOnto {disk after : Disk} {location : List String} {name path : String}
    (h : disk.moveOnto location name path = .ok after) :
    ∃ last before there node old, checkPath path = .ok () ∧ Path.endsInSlash path = false
      ∧ (Path.names path).reverse = last :: before ∧ last ≠ "." ∧ last ≠ ".."
      ∧ walk disk.root true maxLinks (disk.start path) (before.reverse ++ ["."]) = .ok there
      ∧ disk.root.get? (location ++ [name]) = some node
      ∧ entry? disk.root there last = .ok old ∧ (∀ entries, old ≠ some (.directory entries))
      ∧ after = (disk.erase location name).put there last node := by
  unfold moveOnto at h
  rcases exists_of_bind h with ⟨⟨⟩, hcheck, h⟩
  rcases hnames : (Path.names path).reverse with _ | ⟨last, before⟩
  · rw [hnames] at h
    exact absurd h (by simp)
  simp only [hnames] at h
  rcases exists_of_bind h with ⟨there, hwalk, h⟩
  by_cases hlast : last = "." ∨ last = ".."
  · rw [if_pos hlast] at h
    exact absurd h (by simp)
  rw [if_neg hlast] at h
  rcases hnode : disk.root.get? (location ++ [name]) with _ | node
  · rw [hnode] at h
    exact absurd h (by simp)
  simp only [hnode] at h
  rcases exists_of_bind h with ⟨old, hold, h⟩
  -- A file is moved onto another one only, and to a path that could be that of a file.
  rcases hslash : Path.endsInSlash path with _ | _
  · rw [if_neg (by simp [hslash])] at h
    refine ⟨last, before, there, node, old, hcheck, rfl, rfl, fun heq => hlast (Or.inl heq),
      fun heq => hlast (Or.inr heq), hwalk, rfl, hold, fun entries heq => ?_, ?_⟩
    · rw [heq] at h
      exact absurd h (by simp)
    · rcases old with _ | content | target | entries
      · exact (Except.ok.inj h).symm
      · exact (Except.ok.inj h).symm
      · exact (Except.ok.inj h).symm
      · exact absurd h (by simp)
  · rw [if_pos hslash] at h
    exact absurd h (by simp)

/-- What went well when a directory was looked for. -/
theorem exists_of_directoryAt {disk : Disk} {path name : String} {there : List String}
    (h : disk.directoryAt path name = .ok there) : ∃ entries,
      walk disk.root true maxLinks (disk.start (if path.isEmpty then "." else path))
          (Path.steps (if path.isEmpty then "." else path)) = .ok there
      ∧ disk.root.get? there = some (.directory entries) := by
  unfold directoryAt at h
  rcases exists_of_bind h with ⟨⟨⟩, -, h⟩
  rcases exists_of_bind h with ⟨location, hresolve, h⟩
  rcases exists_of_bind hresolve with ⟨⟨⟩, -, hwalk⟩
  -- Nothing but a directory is let through.
  rcases hget : disk.root.get? location with _ | node
  · rw [hget] at h
    exact absurd h (by simp)
  rcases node with content | target | entries
  · rw [hget] at h
    exact absurd h (by simp)
  · rw [hget] at h
    exact absurd h (by simp)
  · rw [hget] at h
    rcases Except.ok.inj h with rfl
    exact ⟨entries, hwalk, hget⟩

theorem nonempty_of_checkPath {path : String} (h : checkPath path = .ok ()) :
    path.isEmpty = false := by
  unfold checkPath at h
  rcases hempty : path.isEmpty with _ | _
  · rfl
  · rw [hempty, if_pos rfl] at h
    split at h
    · exact absurd h (by simp)
    · exact absurd h (by simp)

/-- Paths that begin alike are walked from the same directory. -/
theorem start_eq (disk : Disk) {path other : String}
    (h : path.toList.head? = other.toList.head?) : disk.start path = disk.start other := by
  rw [start, start, Path.isAbsolute, Path.isAbsolute, h]

/-- The directory of a path is come to by walking along all names but the last. -/
theorem walk_directoryOf {disk : Disk} {path name last : String} {before there : List String}
    (hcheck : checkPath path = .ok ()) (hslash : Path.endsInSlash path = false)
    (hnames : (Path.names path).reverse = last :: before) (hlast : last ≠ ".")
    (h : disk.directoryAt (Contents.directoryOf path) name = .ok there) :
    walk disk.root true maxLinks (disk.start path) (before.reverse ++ ["."]) = .ok there := by
  obtain ⟨back, front, hends⟩ := Path.exists_endsIn (nonempty_of_checkPath hcheck) hslash
  obtain ⟨entries, hwalk, hdirectory⟩ := exists_of_directoryAt h
  rw [hends.names_eq, List.reverse_append, List.reverse_singleton, List.singleton_append,
    List.cons.injEq] at hnames
  rcases hnames with ⟨rfl, rfl⟩
  have hparent := hends.parent_eq fun hback => hlast (by rw [hback]; rfl)
  rw [List.reverse_reverse]
  rcases hends.slash with rfl | hfront
  · -- A path of one name is one in the working directory.
    have hdirectoryOf : Contents.directoryOf path = "." := by
      rw [Contents.directoryOf, hparent]
      rfl
    have hstart : disk.start path = disk.start "." := by
      have hlast : path.toList.head? = back.getLast? := by
        rw [← List.getLast?_reverse, hends.reverse, List.append_nil]
      rw [start, start, Path.isAbsolute, hlast, if_neg, if_neg (by decide +kernel)]
      exact fun hslash => hends.noSlash (List.mem_of_getLast? (of_decide_eq_true hslash))
    rw [hdirectoryOf, ite_self, ← hstart] at hwalk
    exact hwalk
  · have hne : front ≠ [] := by
      rcases hfront with ⟨rest, rfl⟩
      exact List.cons_ne_nil _ _
    have hdirectoryOf :
        Contents.directoryOf path = String.ofList (Path.dropTrailing front).reverse := by
      rw [Contents.directoryOf, hparent]
      exact if_neg (by simpa using Path.dropTrailing_ne_nil hne)
    have hempty : (String.ofList (Path.dropTrailing front).reverse).isEmpty = false := by
      simpa using Path.dropTrailing_ne_nil hne
    have hstart :
        disk.start path = disk.start (String.ofList (Path.dropTrailing front).reverse) := by
      refine start_eq disk ?_
      rw [String.toList_ofList, List.head?_reverse, Path.getLast?_dropTrailing,
        ← List.getLast?_reverse, hends.reverse, List.getLast?_append,
        Option.or_of_isSome (List.getLast?_isSome.mpr hne)]
    rcases Path.exists_dots front with ⟨count, hdots⟩
    rw [hdirectoryOf, hempty, if_neg Bool.false_ne_true, ← hstart, Path.steps, Path.names_ofList]
      at hwalk
    -- Dots at the end are walked along in any number.
    rw [hdots, List.append_assoc, ← List.replicate_succ']
    split at hwalk
    · have hmore := walk_dots count hwalk hdirectory
      rwa [List.append_assoc, List.singleton_append, ← List.replicate_succ] at hmore
    · exact walk_dots _ hwalk hdirectory

end Disk

end Concordance
