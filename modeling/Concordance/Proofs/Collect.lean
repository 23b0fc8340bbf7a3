import Concordance.Posting.Codec

/-!
# Results of Several Computations

What is known once a computation made of others has a value, or has failed.

A computation that goes on with the value of another one can only have a value if that one
had. And `collect` yields the values of several computations in their order, so it can be
gone through by place, or one by one. Each fails as one of the others does.

## Theorems

* `exists_of_bind`, `exists_of_map`: There was a value to go on with.
* `error_of_bind`, `error_of_map`, `mem_of_collect_error`: Where an error comes from.
* `collect_map_eq`: Values that can all be had.
* `collect_eq_ok`, `exists_of_collect`, `ok_of_collect`, `map_eq_of_collect`: What was collected
  from a list.
* `collect_error_of_mem`: Computations that all fail alike.
-/

namespace Concordance

/-- There is a value if an option has it. -/
theorem eq_ok_of_toOption {ε α : Type} {x : Except ε α} {a : α} (h : x.toOption = some a) :
    x = .ok a := by
  rcases x with e | b
  · exact absurd h (by simp [Except.toOption])
  · exact congrArg Except.ok (Option.some.inj h)

/-- There was a value to go on with. -/
theorem exists_of_bind {ε α β : Type} {x : Except ε α} {f : α → Except ε β} {b : β}
    (h : x >>= f = .ok b) : ∃ a, x = .ok a ∧ f a = .ok b := by
  rcases x with e | a
  · exact absurd h (by simp [bind, Except.bind])
  · exact ⟨a, rfl, h⟩

/-- A computation fails as its first part does, or as the rest. -/
theorem error_of_bind {ε α β : Type} {x : Except ε α} {f : α → Except ε β} {e : ε}
    (h : x >>= f = .error e) : x = .error e ∨ ∃ a, x = .ok a ∧ f a = .error e := by
  rcases x with e' | a
  · exact Or.inl (congrArg Except.error (Except.error.inj h))
  · exact Or.inr ⟨a, rfl, h⟩

theorem exists_of_map {ε α β : Type} {x : Except ε α} {f : α → β} {b : β}
    (h : x.map f = .ok b) : ∃ a, x = .ok a ∧ f a = b := by
  rcases x with e | a
  · exact absurd h (by simp [Except.map])
  · exact ⟨a, rfl, Except.ok.inj h⟩

/-- A computation whose value is only changed afterwards fails as it did. -/
theorem error_of_map {ε α β : Type} {x : Except ε α} {f : α → β} {e : ε}
    (h : x.map f = .error e) : x = .error e := by
  rcases x with e' | a
  · exact congrArg Except.error (Except.error.inj h)
  · exact absurd h (by simp [Except.map])

/-- Values that can all be had. -/
theorem collect_map_ok {α : Type} (as : List α) :
    collect (as.map (Except.ok (ε := Error))) = .ok as := by
  induction as with
  | nil => rfl
  | cons a as ih =>
    rw [List.map_cons, collect, ih]
    rfl

/-- Things that can all be had. -/
theorem collect_map_eq {α β : Type} {f : α → Except Error β} {g : α → β} {as : List α}
    (h : ∀ a ∈ as, f a = .ok (g a)) : collect (as.map f) = .ok (as.map g) := by
  have hmap : as.map f = (as.map g).map .ok := by
    rw [List.map_map]
    exact List.map_congr_left h
  rw [hmap, collect_map_ok]

/-- What there is of a list, once all of it can be had. -/
theorem collect_eq_ok {α β : Type} {f : α → Except Error β} {as : List α} {bs : List β}
    (h : collect (as.map f) = .ok bs) : as.map f = bs.map .ok := by
  induction as generalizing bs with
  | nil =>
    simp only [List.map_nil, collect, Except.ok.injEq] at h
    rw [← h]
    rfl
  | cons a as ih =>
    rw [List.map_cons] at h ⊢
    rcases hf : f a with e | b
    · rw [hf, collect] at h
      exact absurd h (by simp only [reduceCtorEq, not_false_eq_true])
    · rw [hf, collect] at h
      rcases hc : collect (as.map f) with e | rest
      · rw [hc] at h
        exact absurd h (by simp only [Except.map, reduceCtorEq, not_false_eq_true])
      · rw [hc] at h
        simp only [Except.map, Except.ok.injEq] at h
        rw [← h, ih hc, List.map_cons]

/-- Collecting fails as one of the computations does. -/
theorem mem_of_collect_error {α : Type} {as : List (Except Error α)} {e : Error}
    (h : collect as = .error e) : .error e ∈ as := by
  fun_induction collect as with
  | case1 => exact absurd h (by simp)
  | case2 e' rest =>
    rcases Except.error.inj h with rfl
    exact List.mem_cons_self
  | case3 a rest ih =>
    exact List.mem_cons_of_mem _ (ih (error_of_map h))

/-- Collecting fails where one of the computations fails, if they all fail alike. -/
theorem collect_error_of_mem {α : Type} {as : List (Except Error α)} {e : Error}
    (hmem : .error e ∈ as) (hsame : ∀ e', .error e' ∈ as → e' = e) : collect as = .error e := by
  rcases hcollect : collect as with e' | bs
  · rw [hsame e' (mem_of_collect_error hcollect)]
  · -- What could be collected has no failure in it.
    have hid : collect (as.map id) = .ok bs := by
      rw [List.map_id]
      exact hcollect
    have hmap := collect_eq_ok hid
    rw [List.map_id] at hmap
    rw [hmap] at hmem
    rcases List.mem_map.mp hmem with ⟨b, -, hb⟩
    exact absurd hb (by simp)

/-- What is collected from a list was made of its elements. -/
theorem exists_of_collect {α β : Type} {f : α → Except Error β} {as : List α} {bs : List β}
    (h : collect (as.map f) = .ok bs) :
    bs.length = as.length ∧ ∀ b ∈ bs, ∃ a ∈ as, f a = .ok b := by
  have hmap := collect_eq_ok h
  refine ⟨?_, fun b hb => ?_⟩
  · have hlength := congrArg List.length hmap
    rw [List.length_map, List.length_map] at hlength
    exact hlength.symm
  · have hmem : Except.ok b ∈ as.map f := by
      rw [hmap]
      exact List.mem_map_of_mem hb
    exact List.mem_map.mp hmem

/-- Something was made of each element of a list that could be collected. -/
theorem ok_of_collect {α β : Type} {f : α → Except Error β} {as : List α} {bs : List β}
    (h : collect (as.map f) = .ok bs) {a : α} (ha : a ∈ as) : ∃ b ∈ bs, f a = .ok b := by
  have hmem := List.mem_map_of_mem (f := f) ha
  rw [collect_eq_ok h] at hmem
  rcases List.mem_map.mp hmem with ⟨b, hb, heq⟩
  exact ⟨b, hb, heq.symm⟩

/-- Things that can be told from what there is of them. -/
theorem map_eq_of_collect {α β : Type} {f : α → Except Error β} {g : β → α} {as : List α}
    {bs : List β} (h : collect (as.map f) = .ok bs) (hg : ∀ a b, f a = .ok b → g b = a) :
    bs.map g = as := by
  induction as generalizing bs with
  | nil =>
    rcases Except.ok.inj h with rfl
    rfl
  | cons a as ih =>
    rw [List.map_cons] at h
    rcases hfirst : f a with e | b
    · rw [hfirst] at h
      exact absurd h (by simp [collect])
    · rw [hfirst, collect] at h
      rcases exists_of_map h with ⟨rest, hrest, rfl⟩
      rw [List.map_cons, hg a b hfirst, ih hrest]

end Concordance
