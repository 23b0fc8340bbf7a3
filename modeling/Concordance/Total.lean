/-!
# Totals

A number for each element of a list, added up.

The size of a thing made of parts is the total of the sizes of its parts. Such
totals also measure how much is left to do, and then what matters is how they
behave when lists are put together or rearranged.

## Main definitions

* `total`: The sum over a list.

## Theorems

* `total_append`: The total of two lists together.
* `total_map`: The total of images.
* `le_total_of_mem`: A total is no less than any of its parts.
* `total_perm`: The order of a list does not matter.
-/

namespace Concordance

variable {α : Type}

/-- The sum of a number for each element of a list. -/
def total (f : α → Nat) : List α → Nat
  | [] => 0
  | a :: as => f a + total f as

@[simp]
theorem total_nil (f : α → Nat) : total f [] = 0 :=
  rfl

@[simp]
theorem total_cons (f : α → Nat) (a : α) (as : List α) :
    total f (a :: as) = f a + total f as :=
  rfl

/-- The total of two lists together. -/
@[simp]
theorem total_append (f : α → Nat) (as bs : List α) :
    total f (as ++ bs) = total f as + total f bs := by
  induction as with
  | nil => simp
  | cons a as ih => simp only [List.cons_append, total_cons, ih, Nat.add_assoc]

/-- The total of images. -/
theorem total_map {β : Type} (f : β → Nat) (g : α → β) (as : List α) :
    total f (as.map g) = total (fun a => f (g a)) as := by
  induction as with
  | nil => rfl
  | cons a as ih => rw [List.map_cons, total_cons, total_cons, ih]

/-- No element has more than all of them. -/
theorem le_total_of_mem (f : α → Nat) {a : α} {as : List α} (h : a ∈ as) : f a ≤ total f as := by
  induction as with
  | nil => exact absurd h List.not_mem_nil
  | cons b as ih =>
    rw [total_cons]
    rcases List.mem_cons.mp h with rfl | h
    · exact Nat.le_add_right _ _
    · exact Nat.le_trans (ih h) (Nat.le_add_left _ _)

/-- The order of a list does not matter to its total. -/
theorem total_perm (f : α → Nat) {as bs : List α} (h : as.Perm bs) : total f as = total f bs := by
  induction h with
  | nil => rfl
  | cons a _ ih => simp only [total_cons, ih]
  | swap a b as => simp only [total_cons]; omega
  | trans _ _ ih₁ ih₂ => exact ih₁.trans ih₂

end Concordance
