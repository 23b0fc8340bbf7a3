import Concordance.Disk.Tree

/-!
# Changing One Entry

What else is in a tree when an entry is put in or taken out.

A change of an entry is a change of one list, at the end of the names that lead to it. So
changes at one place can be put together before it is asked what they do to the tree, and
a change that does nothing to the list does nothing at all (`Node.modifyEntries_eq_self`).
An entry that was not there is taken out again without a trace.

Where a change leaves something, it is told by `Disk.item?`, which says what there is at
every location and nothing about what lies below: that is at locations of its own.

## Main definitions

* `Item`: What there is at a location.
* `Disk.item?`: What there is at a location of a tree.

## Theorems

* `Node.lookup_eq_some_iff`: What is looked up.
* `Disk.erase_put`: A new entry is taken out again.
* `Disk.item?_put`, `Disk.item?_erase`: What changes.
-/

namespace Concordance

namespace Node

variable {name : String} {node : Node} {entries : List (String × Node)}

theorem lookup_cons (name other : String) (node : Node) (rest : List (String × Node)) :
    lookup name ((other, node) :: rest)
      = if other = name then some node else lookup name rest :=
  rfl

theorem insert_cons (name other : String) (node old : Node) (rest : List (String × Node)) :
    insert name node ((other, old) :: rest)
      = if other = name then (name, node) :: rest else (other, old) :: insert name node rest :=
  rfl

theorem remove_cons (name other : String) (old : Node) (rest : List (String × Node)) :
    remove name ((other, old) :: rest)
      = if other = name then remove name rest else (other, old) :: remove name rest := by
  by_cases h : other = name
  · rw [if_pos h, remove, List.filter_cons, if_neg (by simpa using h), remove]
  · rw [if_neg h, remove, List.filter_cons, if_pos (by simpa using h), remove]

theorem lookup_insert_self : lookup name (insert name node entries) = some node := by
  fun_induction insert name node entries with
  | case1 => rw [lookup_cons, if_pos rfl]
  | case2 old rest => rw [lookup_cons, if_pos rfl]
  | case3 other old rest hne ih => rw [lookup_cons, if_neg hne, ih]

theorem lookup_insert_of_ne {other : String} (h : other ≠ name) :
    lookup other (insert name node entries) = lookup other entries := by
  fun_induction insert name node entries with
  | case1 => rw [lookup_cons, if_neg (Ne.symm h)]
  | case2 old rest => rw [lookup_cons, if_neg (Ne.symm h), lookup_cons, if_neg (Ne.symm h)]
  | case3 third old rest hne ih => rw [lookup_cons, ih, lookup_cons]

theorem lookup_remove_self : lookup name (remove name entries) = none := by
  induction entries with
  | nil => rfl
  | cons entry entries ih =>
    rcases entry with ⟨other, old⟩
    rw [remove_cons]
    split
    · exact ih
    · rename_i hne
      rw [lookup_cons, if_neg hne, ih]

theorem lookup_remove_of_ne {other : String} (h : other ≠ name) :
    lookup other (remove name entries) = lookup other entries := by
  induction entries with
  | nil => rfl
  | cons entry entries ih =>
    rcases entry with ⟨third, old⟩
    rw [remove_cons, lookup_cons]
    split
    · rename_i heq
      rw [ih, if_neg fun hsame => h (hsame.symm.trans heq)]
    · rw [lookup_cons, ih]

/-- What is looked up is there. -/
theorem mem_of_lookup (h : lookup name entries = some node) : (name, node) ∈ entries := by
  fun_induction lookup name entries with
  | case1 => exact absurd h (by simp)
  | case2 node' rest =>
    rcases Option.some.inj h with rfl
    exact List.mem_cons_self
  | case3 other old rest hne ih => exact List.mem_cons_of_mem _ (ih h)

/-- Where names can be told apart, an entry is what its name is looked up for. -/
theorem lookup_eq_some_iff (h : (entries.map Prod.fst).Nodup) :
    lookup name entries = some node ↔ (name, node) ∈ entries := by
  refine ⟨mem_of_lookup, fun hmem => ?_⟩
  induction entries with
  | nil => exact absurd hmem List.not_mem_nil
  | cons entry rest ih =>
    rcases entry with ⟨other, old⟩
    rw [List.map_cons, List.nodup_cons] at h
    rw [lookup_cons]
    rcases List.mem_cons.mp hmem with heq | hmem
    · rcases Prod.mk.inj heq with ⟨rfl, rfl⟩
      rw [if_pos rfl]
    · have hne : other ≠ name := by
        rintro rfl
        exact h.1 (List.mem_map.mpr ⟨_, hmem, rfl⟩)
      rw [if_neg hne, ih h.2 hmem]

/-- The second of two nodes for one name stays. -/
theorem insert_insert (node other : Node) :
    insert name node (insert name other entries) = insert name node entries := by
  fun_induction insert name other entries with
  | case1 => rw [insert_cons, if_pos rfl, insert]
  | case2 old rest => rw [insert_cons, if_pos rfl, insert_cons, if_pos rfl]
  | case3 third old rest hne ih => rw [insert_cons, if_neg hne, ih, insert_cons, if_neg hne]

/-- Putting in what is there changes nothing. -/
theorem insert_of_lookup (h : lookup name entries = some node) :
    insert name node entries = entries := by
  fun_induction lookup name entries with
  | case1 => exact absurd h (by simp)
  | case2 node' rest =>
    rcases Option.some.inj h with rfl
    rw [insert_cons, if_pos rfl]
  | case3 other old rest hne ih => rw [insert_cons, if_neg hne, ih h]

/-- A name that is not there is taken out again. -/
theorem remove_insert (h : lookup name entries = none) :
    remove name (insert name node entries) = entries := by
  fun_induction insert name node entries with
  | case1 => rw [remove_cons, if_pos rfl]; rfl
  | case2 old rest => exact absurd h (by simp [lookup_cons])
  | case3 other old rest hne ih =>
    rw [lookup_cons, if_neg hne] at h
    rw [remove_cons, if_neg hne, ih h]

variable {f g : List (String × Node) → List (String × Node)}

/-- Two changes at one place are one change. -/
theorem modifyEntries_modifyEntries (node : Node) (location : List String) :
    (node.modifyEntries f location).modifyEntries g location
      = node.modifyEntries (fun entries => g (f entries)) location := by
  fun_induction modifyEntries f node location with
  | case1 entries => rw [modifyEntries, modifyEntries]
  | case2 entries name rest node hlookup ih =>
    rw [modifyEntries, lookup_insert_self]
    simp only [modifyEntries, hlookup, ih, insert_insert]
  | case3 entries name rest hlookup =>
    simp only [modifyEntries, hlookup]
  | case4 location node hnil hcons =>
    rcases node with content | target | entries
    · cases location <;> rfl
    · cases location <;> rfl
    · cases location with
      | nil => exact absurd rfl (hnil entries rfl)
      | cons name rest => exact absurd rfl (hcons entries name rest rfl)

/-- A change that does nothing to a directory does nothing to the tree. -/
theorem modifyEntries_eq_self {node : Node} {location : List String}
    (h : node.get? location = some (.directory entries)) (hf : f entries = entries) :
    node.modifyEntries f location = node := by
  fun_induction modifyEntries f node location with
  | case1 entries' =>
    simp only [get?, Option.some.injEq, directory.injEq] at h
    rw [h, hf]
  | case2 entries' name rest node hlookup ih =>
    simp only [get?, hlookup] at h
    rw [ih h, insert_of_lookup hlookup]
  | case3 entries' name rest hlookup => rfl
  | case4 => rfl

/-- What lies below an entry of a directory. -/
theorem get?_append {node : Node} {location rest : List String} :
    node.get? (location ++ rest) = (node.get? location).bind fun inner => inner.get? rest := by
  fun_induction get? node location with
  | case1 node => rfl
  | case2 entries name rest' node hlookup ih => simp only [List.cons_append, get?, hlookup, ih]
  | case3 entries name rest' hlookup => simp only [List.cons_append, get?, hlookup]; rfl
  | case4 node name rest' hdirectory =>
    rcases node with content | target | entries
    · rfl
    · rfl
    · exact absurd rfl (hdirectory entries)

/-- The directory that is changed. -/
theorem get?_modifyEntries_self {node : Node} {location : List String}
    (h : node.get? location = some (.directory entries)) :
    (node.modifyEntries f location).get? location = some (.directory (f entries)) := by
  fun_induction modifyEntries f node location with
  | case1 entries' =>
    simp only [get?, Option.some.injEq, directory.injEq] at h
    rw [get?, h]
  | case2 entries' name rest node hlookup ih =>
    simp only [get?, hlookup] at h
    simp only [get?, lookup_insert_self, ih h]
  | case3 entries' name rest hlookup =>
    simp only [get?, hlookup] at h
    exact absurd h (by simp)
  | case4 location node hnil hcons =>
    -- There is no directory at the location, so nothing would be changed.
    rcases location with _ | ⟨name, rest⟩
    · rw [get?, Option.some.injEq] at h
      exact absurd rfl (hnil entries h)
    · rcases node with content | target | entries'
      · exact absurd h (by simp [get?])
      · exact absurd h (by simp [get?])
      · exact absurd rfl (hcons entries' name rest rfl)

/-- An entry of a directory. -/
theorem get?_singleton (entries : List (String × Node)) (name : String) :
    (directory entries).get? [name] = lookup name entries := by
  rw [get?]
  rcases lookup name entries with _ | node
  · rfl
  · rfl

end Node

/-- What there is at a location. -/
inductive Item where
  | file (content : Bytes)
  | link (target : String)
  | directory
deriving DecidableEq, Repr

/-- What a node is, apart from what lies below it. -/
def Node.item : Node → Item
  | .file content => .file content
  | .link target => .link target
  | .directory _ => .directory

/-- What there is at a location below a node. -/
def Node.item? (node : Node) (location : List String) : Option Item :=
  (node.get? location).map Node.item

/-- If a change is to one name, nothing changes but at that name and below. -/
theorem Node.item?_modifyEntries {name : String}
    {f : List (String × Node) → List (String × Node)}
    (hf : ∀ entries other, other ≠ name → lookup other (f entries) = lookup other entries)
    (node : Node) (place : List String) {location : List String}
    (h : ¬ (place ++ [name]) <+: location) :
    (node.modifyEntries f place).item? location = node.item? location := by
  fun_induction modifyEntries f node place generalizing location with
  | case1 entries =>
    rcases location with _ | ⟨other, rest⟩
    · rfl
    · have hne : other ≠ name := fun heq => h (heq ▸ List.prefix_append [other] rest)
      simp only [item?, get?, hf entries other hne]
  | case2 entries step place node hlookup ih =>
    rcases location with _ | ⟨other, rest⟩
    · rfl
    · by_cases heq : other = step
      · -- The way goes on inside of the directory that is changed.
        subst heq
        rw [List.cons_append, List.cons_prefix_cons] at h
        have hrest := ih fun hprefix => h ⟨rfl, hprefix⟩
        simp only [item?, get?, lookup_insert_self, hlookup] at hrest ⊢
        exact hrest
      · simp only [item?, get?, lookup_insert_of_ne heq]
  | case3 entries step place hlookup => rfl
  | case4 => rfl

/-- A name that is taken out leads nowhere. -/
theorem Node.item?_remove {name : String} (node : Node) (place rest : List String) :
    (node.modifyEntries (remove name) place).item? (place ++ name :: rest) = none := by
  fun_induction modifyEntries (remove name) node place with
  | case1 entries => simp only [item?, List.nil_append, get?, lookup_remove_self, Option.map_none]
  | case2 entries step place node hlookup ih =>
    simp only [item?, List.cons_append, get?, lookup_insert_self] at ih ⊢
    exact ih
  | case3 entries step place hlookup =>
    simp only [item?, List.cons_append, get?, hlookup, Option.map_none]
  | case4 place node hnil hcons =>
    -- Nothing lies below what is no directory.
    rcases node with content | target | entries
    · cases place <;> rfl
    · cases place <;> rfl
    · cases place with
      | nil => exact absurd rfl (hnil entries rfl)
      | cons step rest => exact absurd rfl (hcons entries step rest rfl)

namespace Disk

variable {disk : Disk} {place location : List String} {name : String} {node : Node}
  {entries : List (String × Node)}

/-- What there is at a location of a tree. -/
def item? (disk : Disk) (location : List String) : Option Item :=
  disk.root.item? location

/-- What is put into a directory in the place of something else. -/
theorem put_put (disk : Disk) (place : List String) (name : String) (node other : Node) :
    (disk.put place name other).put place name node = disk.put place name node := by
  simp only [put, Node.modifyEntries_modifyEntries, Node.insert_insert]

/-- A new entry is taken out again without a trace. -/
theorem erase_put (hplace : disk.root.get? place = some (.directory entries))
    (hname : Node.lookup name entries = none) :
    (disk.put place name node).erase place name = disk := by
  simp only [put, erase, Node.modifyEntries_modifyEntries]
  rw [Node.modifyEntries_eq_self hplace (Node.remove_insert hname)]

/-- The entries of a directory into which something is put. -/
theorem get?_put_name (hplace : disk.root.get? place = some (.directory entries)) (other : String) :
    (disk.put place name node).root.get? (place ++ [other])
      = Node.lookup other (Node.insert name node entries) := by
  rw [put, Node.get?_append, Node.get?_modifyEntries_self hplace, Option.bind_some,
    Node.get?_singleton]

theorem get?_put (hplace : disk.root.get? place = some (.directory entries)) :
    (disk.put place name node).root.get? (place ++ [name]) = some node := by
  rw [get?_put_name hplace, Node.lookup_insert_self]

/-- Putting something into a directory changes nothing else. -/
theorem item?_put (h : ¬ (place ++ [name]) <+: location) :
    (disk.put place name node).item? location = disk.item? location :=
  Node.item?_modifyEntries (fun _ _ => Node.lookup_insert_of_ne) _ _ h

/-- Taking something out of a directory changes nothing else. -/
theorem item?_erase (h : ¬ (place ++ [name]) <+: location) :
    (disk.erase place name).item? location = disk.item? location :=
  Node.item?_modifyEntries (fun _ _ => Node.lookup_remove_of_ne) _ _ h

/-- What is taken out is not there, nor is anything below it. -/
theorem item?_erase_self (h : (place ++ [name]) <+: location) :
    (disk.erase place name).item? location = none := by
  rcases h with ⟨rest, rfl⟩
  rw [item?, erase, List.append_assoc, List.singleton_append]
  exact Node.item?_remove _ _ _

/-- There is nothing below what is not there. -/
theorem item?_eq_none (hplace : disk.root.get? place = some (.directory entries))
    (hname : Node.lookup name entries = none) (h : (place ++ [name]) <+: location) :
    disk.item? location = none := by
  rcases h with ⟨rest, rfl⟩
  rw [item?, Node.item?, List.append_assoc, Node.get?_append, hplace, Option.bind_some,
    List.singleton_append, Node.get?]
  simp only [hname, Option.map_none]

/-- A file takes the place of something that is no directory, and nothing else changes. -/
theorem item?_put_file {content : Bytes}
    (hplace : disk.root.get? place = some (.directory entries))
    (hold : ∀ inner, Node.lookup name entries ≠ some (.directory inner)) (location : List String) :
    (disk.put place name (.file content)).item? location
      = if location = place ++ [name] then some (.file content) else disk.item? location := by
  split
  · rename_i heq
    rw [heq, item?, Node.item?, get?_put hplace]
    rfl
  · rename_i hne
    by_cases hprefix : (place ++ [name]) <+: location
    · -- There is nothing below a file, and there was nothing below what it replaced.
      rcases hprefix with ⟨rest, rfl⟩
      rcases rest with _ | ⟨step, rest⟩
      · exact absurd (List.append_nil _) hne
      · rw [item?, Node.item?, Node.get?_append, get?_put hplace, item?, Node.item?,
          Node.get?_append, Node.get?_append, hplace]
        simp only [Option.bind_some, Node.get?]
        rcases hlookup : Node.lookup name entries with _ | old | target | inner
        · rfl
        · rfl
        · rfl
        · exact absurd hlookup (hold inner)
    · exact item?_put hprefix

end Disk

end Concordance
