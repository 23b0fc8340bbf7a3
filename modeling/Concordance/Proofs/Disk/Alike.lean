import Concordance.Proofs.Disk.Walk
import Concordance.Proofs.Indexing.Walk

/-!
# Trees That Differ Behind Links

Two trees that have the same below a path, as long as no link is followed.

What there is at a location is found without following links, because a location has no link
among its names. So two trees are alike below a path if they have the same at each location
below it. All that may differ is behind links: the path that a link holds, what that path leads
to, and every other part of the two trees.

That trees are alike is said by looking up names, and a walk takes the entries of a directory
one after the other. Both come to the same if the entries can be told apart by their names, in
every directory of a tree.

## Main definitions

* `Item.unfollowed`: An item without the path that a link holds.
* `Node.Alike`: Two nodes that differ behind links only.
* `Disk.Alike`: Two trees that differ behind links only, at a path and below it.
* `Disk.Named`: A tree whose entries can be told apart.

## Theorems

* `Node.Alike.entry`: Alike directories have alike entries.
* `Disk.Named.list`: A directory that a path leads to.
* `Disk.walk_get?`, `Disk.node_of_get?`: Names that lead through directories are walked along.
-/

namespace Concordance

/-- An item without the path that it holds if it is a link. -/
def Item.unfollowed : Item → Item
  | .link _ => .link ""
  | item => item

/-- Two nodes that differ behind links only: there is the same at each location below them,
    apart from the paths that links hold. -/
def Node.Alike (node other : Node) : Prop :=
  ∀ location, (other.item? location).map Item.unfollowed
    = (node.item? location).map Item.unfollowed

namespace Node.Alike

variable {node other : Node} {entries entries' : List (String × Node)}

theorem refl (node : Node) : node.Alike node :=
  fun _ => rfl

theorem symm (h : node.Alike other) : other.Alike node :=
  fun location => (h location).symm

/-- Nodes that are alike are of one kind. -/
theorem item (h : node.Alike other) : other.item.unfollowed = node.item.unfollowed :=
  Option.some.inj (h [])

/-- A file is like itself only. -/
theorem of_file {content : Bytes} (h : (Node.file content).Alike other) :
    other = .file content := by
  rcases other with content' | target | entries
  · rw [Item.file.inj h.item]
  · exact absurd h.item (by simp [Node.item, Item.unfollowed])
  · exact absurd h.item (by simp [Node.item, Item.unfollowed])

theorem of_link {target : String} (h : (Node.link target).Alike other) :
    ∃ target', other = .link target' := by
  rcases other with content | target' | entries
  · exact absurd h.item (by simp [Node.item, Item.unfollowed])
  · exact ⟨target', rfl⟩
  · exact absurd h.item (by simp [Node.item, Item.unfollowed])

theorem of_directory (h : (Node.directory entries).Alike other) :
    ∃ entries', other = .directory entries' := by
  rcases other with content | target | entries'
  · exact absurd h.item (by simp [Node.item, Item.unfollowed])
  · exact absurd h.item (by simp [Node.item, Item.unfollowed])
  · exact ⟨entries', rfl⟩

/-- What is in one of two directories that are alike is in the other as well. -/
theorem entry (h : (Node.directory entries).Alike (.directory entries')) {name : String}
    (hlookup : lookup name entries = some node) :
    ∃ node', lookup name entries' = some node' ∧ node.Alike node' := by
  have hbelow : ∀ location,
      (Node.item? (.directory entries') (name :: location)).map Item.unfollowed
        = (node.item? location).map Item.unfollowed := by
    intro location
    rw [h (name :: location)]
    simp only [item?, get?, hlookup]
  rcases hother : lookup name entries' with _ | node'
  · -- Every location has something below `node`, the empty one at least.
    have hnone := hbelow []
    simp only [item?, get?, hother, Option.map_none, Option.map_some] at hnone
    exact absurd hnone (by simp)
  · refine ⟨node', rfl, fun location => ?_⟩
    rw [← hbelow location]
    simp only [item?, get?, hother]

end Node.Alike

namespace Disk

variable {disk other : Disk} {path : String} {follow : Bool}

/-- Two trees that differ behind links only, at a path and below it: the path leads to nodes
    that are alike, or it fails in both trees for the same reason. A link in the last place of
    the path is followed or not. -/
inductive Alike (follow : Bool) (disk other : Disk) (path : String) : Prop where
  | leads {node node' : Node} : disk.node follow path = .ok node →
    other.node follow path = .ok node' → node.Alike node' → Alike follow disk other path
  | fails {cause : OsError} : disk.node follow path = .error cause →
    other.node follow path = .error cause → Alike follow disk other path

namespace Alike

theorem symm (h : Alike follow disk other path) : Alike follow other disk path := by
  rcases h with ⟨hdisk, hother, halike⟩ | ⟨hdisk, hother⟩
  · exact .leads hother hdisk halike.symm
  · exact .fails hother hdisk

theorem of_ok {node : Node} (h : Alike follow disk other path)
    (hnode : disk.node follow path = .ok node) :
    ∃ node', other.node follow path = .ok node' ∧ node.Alike node' := by
  rcases h with ⟨hdisk, hother, halike⟩ | ⟨hdisk, hother⟩
  · rcases Except.ok.inj (hnode.symm.trans hdisk) with rfl
    exact ⟨_, hother, halike⟩
  · exact absurd (hnode.symm.trans hdisk) (by simp)

theorem of_error {cause : OsError} (h : Alike follow disk other path)
    (hnode : disk.node follow path = .error cause) : other.node follow path = .error cause := by
  rcases h with ⟨hdisk, hother, halike⟩ | ⟨hdisk, hother⟩
  · exact absurd (hnode.symm.trans hdisk) (by simp)
  · rw [hother, Except.error.inj (hnode.symm.trans hdisk)]

end Alike

/-- Every entry of a tree has a name that no other entry of its directory has. -/
def Named (disk : Disk) : Prop :=
  ∀ entries, disk.root = .directory entries → Walk.Named entries

/-- So it is in each directory of the tree. -/
theorem Named.get? (h : disk.Named) {location : List String} {entries : List (String × Node)}
    (hget : disk.root.get? location = some (.directory entries)) : Walk.Named entries := by
  have hall : ∀ (node : Node) (location : List String),
      (∀ inner, node = .directory inner → Walk.Named inner) →
      node.get? location = some (.directory entries) → Walk.Named entries := by
    intro node location hnode hget
    fun_induction Node.get? node location with
    | case1 node => exact hnode entries (Option.some.inj hget)
    | case2 outer name rest node hlookup ih =>
      refine ih (fun inner hinner => ?_) hget
      subst hinner
      exact (hnode outer rfl).inside (Node.mem_of_lookup hlookup)
    | case3 | case4 => exact absurd hget (by simp)
  exact hall disk.root location h hget

/-- What a path leads to has a location. -/
theorem exists_get? {node : Node} (h : disk.node follow path = .ok node) :
    ∃ location, disk.root.get? location = some node := by
  rcases exists_of_bind h with ⟨location, -, hget⟩
  refine ⟨location, ?_⟩
  rcases hnode : disk.root.get? location with _ | node'
  · rw [hnode] at hget
    exact absurd hget (by simp)
  · rw [hnode] at hget
    exact congrArg some (Except.ok.inj hget)

/-- Names that lead through directories are walked along, and a link at their end is where the
    walk comes to if it is not followed. -/
theorem walk_get? {root node : Node} {links : Nat} {here names : List String}
    (hnames : ∀ name ∈ names, Path.IsName name ∧ name.utf8ByteSize ≤ maxName)
    (hget : root.get? (here ++ names) = some node)
    (hlink : follow = false ∨ ∀ target, node ≠ .link target) :
    walk root follow links here names = .ok (here ++ names) := by
  induction names generalizing here with
  | nil => rw [walk, List.append_nil]
  | cons name rest ih =>
    obtain ⟨⟨hname, hsize⟩, hrest⟩ := List.forall_mem_cons.mp hnames
    rw [List.append_cons] at hget ⊢
    rw [Node.get?_append, Option.bind_eq_some_iff] at hget
    rcases hget with ⟨inner, hinner, hget⟩
    have hentry : entry? root here name = .ok (some inner) := by
      unfold entry?
      rw [if_neg (Nat.not_lt_of_le hsize), hinner]
    rw [walk, if_neg hname.notDot, if_neg hname.notUp, hentry]
    -- Whether a link is followed depends on whether the name is the last one.
    rcases rest with _ | ⟨next, rest⟩
    · rcases Option.some.inj hget with rfl
      rcases inner with content | target | entries
      · rw [List.append_nil]
        rfl
      · rcases hlink with rfl | hlink
        · rw [List.append_nil]
          rfl
        · exact absurd rfl (hlink target)
      · exact ih hrest (by rw [List.append_nil, hinner])
    · -- What has something below it is a directory.
      rcases inner with content | target | entries
      · exact absurd hget (by simp [Node.get?])
      · exact absurd hget (by simp [Node.get?])
      · exact ih hrest (by rw [Node.get?_append, hinner, Option.bind_some, hget])

/-- So a path leads to what is at its names. -/
theorem node_of_get? {node : Node} (hcheck : checkPath path = .ok ())
    (hnames : ∀ name ∈ Path.steps path, Path.IsName name ∧ name.utf8ByteSize ≤ maxName)
    (hget : disk.root.get? (disk.start path ++ Path.steps path) = some node)
    (hlink : follow = false ∨ ∀ target, node ≠ .link target) :
    disk.node follow path = .ok node := by
  have hresolve : disk.resolve follow path = .ok (disk.start path ++ Path.steps path) := by
    rw [resolve, hcheck]
    exact walk_get? hnames hget hlink
  simp only [Disk.node, hresolve, bind, Except.bind, hget]

/-- What can be listed is a directory, behind a link or not. -/
theorem list_eq_ok_iff {entries : List (String × Node)} :
    disk.list path = .ok entries ↔ disk.node true path = .ok (.directory entries) := by
  constructor
  · intro h
    rcases exists_of_bind h with ⟨node, hnode, h⟩
    rcases node with content | target | inner
    · exact absurd h (by simp)
    · exact absurd h (by simp)
    · rw [hnode, Except.ok.inj h]
  · intro h
    rw [list, h]
    rfl

/-- So the entries of a directory that is listed can be told apart. -/
theorem Named.list (h : disk.Named) {entries : List (String × Node)}
    (hlist : disk.list path = .ok entries) : Walk.Named entries := by
  rcases exists_get? (list_eq_ok_iff.mp hlist) with ⟨location, hget⟩
  exact h.get? hget

end Disk

end Concordance
