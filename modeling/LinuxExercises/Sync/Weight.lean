import Mathlib.Algebra.BigOperators.Group.Finset.Piecewise
import Mathlib.Algebra.Order.BigOperators.Group.Finset
import Mathlib.Data.Fintype.BigOperators

/-!
# Weights carried by the members of a finite family

A family `f : ι → α` of processes carries `total w f` of a resource when a process
in state `a` carries `w a`. When one process moves, the total moves by the
difference of its two weights (`total_update`), so a conservation law over a step is
an equation between numbers.
-/

namespace Sync

variable {ι α : Type*} [Fintype ι]

/-- What the family carries together. -/
def total (w : α → ℕ) (f : ι → α) : ℕ := ∑ i, w (f i)

variable {w : α → ℕ} {f : ι → α}

theorem le_total (i : ι) : w (f i) ≤ total w f :=
  Finset.single_le_sum (f := fun i => w (f i)) (fun _ _ => Nat.zero_le _) (Finset.mem_univ i)

/-- A family of processes that carry nothing. -/
theorem total_zero (h : ∀ i, w (f i) = 0) : total w f = 0 :=
  Finset.sum_eq_zero fun i _ => h i

variable [DecidableEq ι]

/-- **One process moves**: the total moves by its weight. -/
theorem total_update (i : ι) (a : α) :
    total w (Function.update f i a) + w (f i) = total w f + w a := by
  have h (g : ι → α) : total w g = w (g i) + ∑ j ∈ Finset.univ.erase i, w (g j) := by
    unfold total; rw [← Finset.add_sum_erase _ _ (Finset.mem_univ i)]
  have hrest : ∑ j ∈ Finset.univ.erase i, w (Function.update f i a j) =
      ∑ j ∈ Finset.univ.erase i, w (f j) :=
    Finset.sum_congr rfl fun j hj => by rw [Function.update_of_ne (Finset.ne_of_mem_erase hj)]
  rw [h (Function.update f i a), h f, hrest, Function.update_self]
  omega

/-- Two different processes carry no more than all. -/
theorem add_le_total {i j : ι} (hij : i ≠ j) : w (f i) + w (f j) ≤ total w f := by
  have h := Finset.sum_le_sum_of_subset (f := fun i => w (f i)) (Finset.subset_univ {i, j})
  rwa [Finset.sum_pair hij] at h

/-- A weight below another stays below it by at least the gap at one process. -/
theorem total_add_le {u : α → ℕ} (h : ∀ a, u a ≤ w a) (i : ι) :
    total u f + w (f i) ≤ total w f + u (f i) := by
  unfold total
  rw [← Finset.add_sum_erase _ (fun j => u (f j)) (Finset.mem_univ i),
    ← Finset.add_sum_erase _ (fun j => w (f j)) (Finset.mem_univ i)]
  have := Finset.sum_le_sum fun j (_ : j ∈ Finset.univ.erase i) => h (f j)
  omega

/-- If all carry at most one together, at most one carries something. -/
theorem eq_of_total_le_one (h : total w f ≤ 1) {i j : ι} (hi : 0 < w (f i)) (hj : 0 < w (f j)) :
    i = j := by
  by_contra hij
  have := add_le_total (w := w) (f := f) hij
  omega

end Sync
