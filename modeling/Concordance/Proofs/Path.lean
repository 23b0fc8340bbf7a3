import Concordance.Path
import Mathlib.Data.List.TakeWhile

/-!
# Parts of a Path

The directory of a path has the names of the path but the last.

A path is taken apart in two ways. To walk along it, it is cut at its slashes, from the
front. To find the directory that it lies in, what trails behind its last name is dropped,
then that name, and then what trails behind the rest, all from the back. Both come to the
same directory, apart from dots, which mean the directory itself: the first way keeps them
and the second drops those at the end.

A name of something in a directory has no slash and is none of the two names that are dots only.
Such a name stays what it is behind a directory: the path that it is joined to ends in it, and
has the same extension.

## Main definitions

* `Path.namesOf`: The names in a path, of its characters.
* `Path.EndsIn`: A path that ends in a name.
* `Path.IsName`: A name that something in a directory can have.

## Theorems

* `Path.namesOf_slash`: A slash separates names.
* `Path.exists_dots`: Only dots are lost when what trails is dropped.
* `Path.exists_endsIn`: A path that ends in no slash ends in a name.
* `Path.EndsIn.names_eq`, `Path.EndsIn.parent_eq`: The two ways to take it apart.
* `Path.IsName.endsIn_join`, `Path.IsName.fileName_join`: A name behind a directory.
* `Path.IsName.extension_eq_some`: The extension of a name.
* `Path.utf8ByteSize_le_join`: A path that is joined to a name does not get shorter.
-/

namespace Concordance

namespace Path

/-- The names in a path, of its characters. -/
def namesOf (path : List Char) : List String :=
  ((cut path).filter fun name => !name.isEmpty).map String.ofList

theorem names_eq (path : String) : names path = namesOf path.toList :=
  rfl

theorem names_ofList (path : List Char) : names (String.ofList path) = namesOf path := by
  rw [names_eq, String.toList_ofList]

theorem cut_ne_nil (path : List Char) : cut path ≠ [] := by
  fun_cases cut path <;> simp

/-- A slash separates names. -/
theorem cut_slash (front behind : List Char) :
    cut (front ++ '/' :: behind) = cut front ++ cut behind := by
  induction front with
  | nil => rfl
  | cons c front ih =>
    rw [List.cons_append, cut, ih, cut]
    split
    · rfl
    · rcases hcut : cut front with _ | ⟨name, rest⟩
      · exact absurd hcut (cut_ne_nil front)
      · rfl

theorem namesOf_slash (front behind : List Char) :
    namesOf (front ++ '/' :: behind) = namesOf front ++ namesOf behind := by
  rw [namesOf, cut_slash, List.filter_append, List.map_append, namesOf, namesOf]

@[simp]
theorem namesOf_nil : namesOf [] = [] :=
  rfl

/-- Without slashes there is one name. -/
theorem cut_eq_singleton {name : List Char} (h : '/' ∉ name) : cut name = [name] := by
  induction name with
  | nil => rfl
  | cons c name ih =>
    rw [List.mem_cons, not_or] at h
    rw [cut, if_neg (Ne.symm h.1), ih h.2]

theorem namesOf_eq_singleton {name : List Char} (hslash : '/' ∉ name) (hne : name ≠ []) :
    namesOf name = [String.ofList name] := by
  simp [namesOf, cut_eq_singleton hslash, hne]

/-- What is dropped is not everything. -/
theorem dropTrailing_ne_nil {back : List Char} (h : back ≠ []) : dropTrailing back ≠ [] := by
  fun_induction dropTrailing back with
  | case1 rest ih => exact ih (List.cons_ne_nil _ _)
  | case2 => exact h
  | case3 rest hrest ih => exact ih hrest
  | case4 => exact h

/-- The front of a path stays. -/
theorem getLast?_dropTrailing (back : List Char) :
    (dropTrailing back).getLast? = back.getLast? := by
  fun_induction dropTrailing back with
  | case1 rest ih => rw [ih, List.getLast?_cons_cons]
  | case2 => rfl
  | case3 rest hrest ih =>
    rw [ih]
    rcases rest with _ | ⟨c, rest⟩
    · exact absurd rfl hrest
    · rw [List.getLast?_cons_cons]
  | case4 => rfl

/-- Only dots are lost when what trails is dropped. -/
theorem exists_dots (back : List Char) : ∃ count,
    namesOf back.reverse = namesOf (dropTrailing back).reverse ++ List.replicate count "." := by
  fun_induction dropTrailing back with
  | case1 rest ih =>
    rcases ih with ⟨count, ih⟩
    refine ⟨count + 1, ?_⟩
    rw [List.reverse_cons, namesOf_slash, namesOf_nil, List.append_nil] at ih
    rw [List.reverse_cons, List.reverse_cons, List.append_assoc, List.singleton_append,
      namesOf_slash, ih, List.replicate_succ', List.append_assoc]
    rfl
  | case2 => exact ⟨0, (List.append_nil _).symm⟩
  | case3 rest hrest ih =>
    rcases ih with ⟨count, ih⟩
    exact ⟨count, by rw [List.reverse_cons, namesOf_slash, namesOf_nil, List.append_nil, ih]⟩
  | case4 => exact ⟨0, (List.append_nil _).symm⟩

/-- What does not trail is not dropped. -/
theorem dropTrailing_append {name before : List Char} (hslash : '/' ∉ name) (hne : name ≠ [])
    (hdot : name ≠ ['.']) : dropTrailing (name ++ before) = name ++ before := by
  -- A name that is not empty has the first character of both together.
  have hfirst : ∀ rest, name ++ before ≠ '/' :: rest := by
    intro rest h
    rcases List.append_eq_cons_iff.mp h with ⟨hnil, -⟩ | ⟨name', rfl, -⟩
    · exact hne hnil
    · exact hslash List.mem_cons_self
  generalize hback : name ++ before = back at hfirst
  fun_cases dropTrailing back with
  | case1 rest =>
    rcases List.append_eq_cons_iff.mp hback with ⟨hnil, -⟩ | ⟨name', rfl, hrest⟩
    · exact absurd hnil hne
    · rcases List.cons_eq_append_iff.mp hrest with ⟨rfl, -⟩ | ⟨name'', rfl, -⟩
      · exact absurd rfl hdot
      · exact absurd (List.mem_cons_of_mem _ List.mem_cons_self) hslash
  | case2 => exact absurd rfl (hfirst [])
  | case3 rest => exact absurd rfl (hfirst rest)
  | case4 => rfl

/-- A name at the end of a path, and what comes before it, both written backwards. -/
structure EndsIn (path : String) (name before : List Char) : Prop where
  reverse : path.toList.reverse = name ++ before
  noSlash : '/' ∉ name
  nonempty : name ≠ []
  slash : before = [] ∨ ∃ rest, before = '/' :: rest

/-- A path that ends in no slash ends in a name. -/
theorem exists_endsIn {path : String} (hne : path.isEmpty = false)
    (hslash : endsInSlash path = false) : ∃ name before, EndsIn path name before := by
  have hback : path.toList.reverse.head? ≠ some '/' := by
    rw [List.head?_reverse]
    exact of_decide_eq_false hslash
  have hnonempty : path.toList.reverse ≠ [] := by
    rw [ne_eq, List.reverse_eq_nil_iff, String.toList_eq_nil_iff]
    exact fun hempty => by simp [hempty] at hne
  -- From the back, the name goes as far as the next slash.
  refine ⟨path.toList.reverse.takeWhile (· ≠ '/'), path.toList.reverse.dropWhile (· ≠ '/'),
    List.takeWhile_append_dropWhile.symm, fun hmem => ?_, ?_, ?_⟩
  · simpa using List.mem_takeWhile_imp hmem
  · rcases hrev : path.toList.reverse with _ | ⟨c, rest⟩
    · exact absurd hrev hnonempty
    · rw [hrev, List.head?_cons] at hback
      rw [List.takeWhile_cons, if_pos (by simpa using hback)]
      exact List.cons_ne_nil _ _
  · rcases hdrop : path.toList.reverse.dropWhile (· ≠ '/') with _ | ⟨c, rest⟩
    · exact Or.inl rfl
    · have hfails := List.head?_dropWhile_not (· ≠ '/') path.toList.reverse
      rw [hdrop] at hfails
      have hc : c = '/' := by simpa using hfails
      exact Or.inr ⟨rest, by rw [hc]⟩

namespace EndsIn

variable {path : String} {name before : List Char}

/-- The last name of a path, and those before it. -/
theorem names_eq (h : EndsIn path name before) :
    names path = namesOf before.reverse ++ [String.ofList name.reverse] := by
  have hpath : path.toList = before.reverse ++ name.reverse := by
    rw [← List.reverse_append, ← h.reverse, List.reverse_reverse]
  have hname : namesOf name.reverse = [String.ofList name.reverse] :=
    namesOf_eq_singleton (fun hmem => h.noSlash (List.mem_reverse.mp hmem))
      (fun hnil => h.nonempty (List.reverse_eq_nil_iff.mp hnil))
  rw [Path.names_eq, hpath]
  rcases h.slash with rfl | ⟨rest, rfl⟩
  · rw [List.reverse_nil, List.nil_append, hname]
    rfl
  · rw [List.reverse_cons, List.append_assoc, List.singleton_append, namesOf_slash, hname,
      namesOf_slash, namesOf_nil, List.append_nil]

/-- Taken apart from the back, the path is this name and what comes before it. -/
theorem splitLast_eq (h : EndsIn path name before) (hdot : name ≠ ['.']) :
    splitLast path = (before, name) := by
  have htrimmed : dropTrailing path.toList.reverse = name ++ before := by
    rw [h.reverse]
    exact dropTrailing_append h.noSlash h.nonempty hdot
  -- There is a name, so that the path is not the root.
  have hroot : name ++ before ≠ ['/'] := by
    intro hroot
    rcases List.append_eq_cons_iff.mp hroot with ⟨hnil, -⟩ | ⟨name', rfl, -⟩
    · exact h.nonempty hnil
    · exact h.noSlash List.mem_cons_self
  have hpass : ∀ c ∈ name, decide (c ≠ '/') = true :=
    fun c hc => decide_eq_true fun heq => h.noSlash (heq ▸ hc)
  have hstop : before.takeWhile (· ≠ '/') = [] ∧ before.dropWhile (· ≠ '/') = before := by
    rcases h.slash with rfl | ⟨rest, rfl⟩
    · exact ⟨rfl, rfl⟩
    · exact ⟨by simp, by simp⟩
  simp only [splitLast, htrimmed, if_neg hroot]
  rw [List.dropWhile_append_of_pos hpass, List.takeWhile_append_of_pos hpass, hstop.1, hstop.2,
    List.append_nil]

/-- The directory is what comes before the name, without what trails. -/
theorem parent_eq (h : EndsIn path name before) (hdot : name ≠ ['.']) :
    parent path = some (String.ofList (dropTrailing before).reverse) := by
  rw [parent, h.splitLast_eq hdot]
  rcases name with _ | ⟨c, name⟩
  · exact absurd rfl h.nonempty
  · rfl

/-- The last name is this name, if it does not point elsewhere. -/
theorem fileName_eq (h : EndsIn path name before) (hdot : name ≠ ['.']) (hup : name ≠ ['.', '.']) :
    fileName path = some (String.ofList name.reverse) := by
  have hnonempty := h.nonempty
  rw [fileName, h.splitLast_eq hdot]
  split
  · rename_i heq
    exact absurd (Prod.mk.inj heq).2 hnonempty
  · rename_i heq
    exact absurd (Prod.mk.inj heq).2 hdot
  · rename_i heq
    exact absurd (Prod.mk.inj heq).2 hup
  · rename_i heq
    rw [(Prod.mk.inj heq).2]

end EndsIn

/-- A name that something can have in a directory. -/
structure IsName (name : String) : Prop where
  nonempty : name ≠ ""
  noSlash : '/' ∉ name.toList
  notDot : name ≠ "."
  notUp : name ≠ ".."

instance (name : String) : Decidable (IsName name) :=
  decidable_of_iff (name ≠ "" ∧ '/' ∉ name.toList ∧ name ≠ "." ∧ name ≠ "..")
    ⟨fun ⟨h₁, h₂, h₃, h₄⟩ => ⟨h₁, h₂, h₃, h₄⟩, fun ⟨h₁, h₂, h₃, h₄⟩ => ⟨h₁, h₂, h₃, h₄⟩⟩

namespace IsName

variable {name : String}

theorem isAbsolute_eq (h : IsName name) : isAbsolute name = false :=
  decide_eq_false fun hhead => h.noSlash (List.mem_of_mem_head? hhead)

/-- What is in a directory has a path that ends in its name. -/
theorem endsIn_join (h : IsName name) (directory : String) :
    ∃ before, EndsIn (join directory name) name.toList.reverse before := by
  have hslash : '/' ∉ name.toList.reverse := fun hmem => h.noSlash (List.mem_reverse.mp hmem)
  have hne : name.toList.reverse ≠ [] := by simpa using h.nonempty
  rw [join, h.isAbsolute_eq, Bool.false_or]
  split
  · exact ⟨[], by rw [List.append_nil], hslash, hne, Or.inl rfl⟩
  · split
    · rename_i hends
      rcases List.getLast?_eq_some_iff.mp hends with ⟨front, hfront⟩
      refine ⟨'/' :: front.reverse, ?_, hslash, hne, Or.inr ⟨_, rfl⟩⟩
      rw [String.toList_append, List.reverse_append, hfront, List.reverse_append]
      rfl
    · refine ⟨'/' :: directory.toList.reverse, ?_, hslash, hne, Or.inr ⟨_, rfl⟩⟩
      rw [String.toList_append, String.toList_append, List.reverse_append, List.reverse_append]
      rfl

theorem reverse_ne (h : IsName name) :
    name.toList.reverse ≠ ['.'] ∧ name.toList.reverse ≠ ['.', '.'] := by
  constructor
  · intro heq
    rw [List.reverse_eq_iff] at heq
    exact h.notDot (String.toList_injective heq)
  · intro heq
    rw [List.reverse_eq_iff] at heq
    exact h.notUp (String.toList_injective heq)

/-- What is in a directory is called by its name. -/
theorem fileName_join (h : IsName name) (directory : String) :
    fileName (join directory name) = some name := by
  rcases h.endsIn_join directory with ⟨before, hends⟩
  rw [hends.fileName_eq h.reverse_ne.1 h.reverse_ne.2, List.reverse_reverse, String.ofList_toList]

/-- A name by itself is a path. -/
theorem fileName_self (h : IsName name) : fileName name = some name := by
  have hjoin := h.fileName_join ""
  rwa [join, if_pos (by simp)] at hjoin

/-- And its extension is that of its name. -/
theorem extension_join (h : IsName name) (directory : String) :
    extension (join directory name) = extension name := by
  rw [extension, extension, h.fileName_join, h.fileName_self]

/-- The extension of a name has no dot in it, and there is something before the dot in front of
    it. -/
theorem extension_eq_some (h : IsName name) {ending : String} : extension name = some ending
    ↔ '.' ∉ ending.toList ∧ ∃ stem, stem ≠ [] ∧ name.toList = stem ++ '.' :: ending.toList := by
  rw [extension, h.fileName_self]
  dsimp only
  constructor
  · intro hext
    have hsplit := List.takeWhile_append_dropWhile (p := (· ≠ '.')) (l := name.toList.reverse)
    have hfails := List.head?_dropWhile_not (· ≠ '.') name.toList.reverse
    split at hext
    · exact absurd hext (by simp)
    · exact absurd hext (by simp)
    · -- What was dropped begins with the last dot, and goes on.
      rename_i dot last front hdrop
      rw [hdrop] at hsplit hfails
      have hdot : dot = '.' := by simpa using hfails
      rw [← Option.some.inj hext, String.toList_ofList]
      refine ⟨fun hmem => ?_, (last :: front).reverse, by simp, ?_⟩
      · simpa using List.mem_takeWhile_imp (List.mem_reverse.mp hmem)
      · have hback := congrArg List.reverse hsplit
        rw [List.reverse_reverse, List.reverse_append, hdot, List.reverse_cons] at hback
        rw [List.append_assoc] at hback
        exact hback.symm
  · rintro ⟨hdot, stem, hstem, heq⟩
    have hpass : ∀ c ∈ ending.toList.reverse, decide (c ≠ '.') = true :=
      fun c hc => decide_eq_true fun hsame => hdot (hsame ▸ List.mem_reverse.mp hc)
    have hback : name.toList.reverse = ending.toList.reverse ++ '.' :: stem.reverse := by
      rw [heq, List.reverse_append, List.reverse_cons, List.append_assoc]
      rfl
    -- From its end the name has the extension first, up to the dot.
    rw [hback, List.dropWhile_append_of_pos hpass, List.takeWhile_append_of_pos hpass]
    rcases hrev : stem.reverse with _ | ⟨last, front⟩
    · exact absurd (List.reverse_eq_nil_iff.mp hrev) hstem
    · simp

end IsName

/-- A path is no longer than that of what is below it. -/
theorem utf8ByteSize_le_join {name : String} (h : IsName name) (directory : String) :
    directory.utf8ByteSize ≤ (join directory name).utf8ByteSize := by
  rw [join, h.isAbsolute_eq, Bool.false_or]
  split
  · rename_i hempty
    rw [String.isEmpty_iff.mp hempty]
    exact Nat.zero_le _
  · split
    · rw [String.utf8ByteSize_append]
      omega
    · rw [String.utf8ByteSize_append, String.utf8ByteSize_append]
      omega

end Path

end Concordance
