import Mathlib.Data.List.Basic
import Mathlib.Data.Nat.Notation

/-!
# Descriptor tables

A table says which file stands at each number; all but finitely many numbers are free.

* `put`, `get_put`: a number is given a file, or freed.
* `lowest`: the lowest free number, which a call that opens a file returns.
* `dup2`: a number is made to denote the file of another one.
* `has_iff`: some number denotes the file.
-/

namespace Sync

variable {F : Type*}

/-- The files at the numbers `0`, `1`, …; behind the end all numbers are free. -/
abbrev Table (F : Type*) := List (Option F)

namespace Table

/-- The file at a number. -/
def get (t : Table F) (n : ℕ) : Option F := t[n]?.join

/-- Number `n` gets the file, or is freed. -/
def put (t : Table F) (n : ℕ) (x : Option F) : Table F :=
  if n < t.length then t.set n x else t ++ .replicate (n - t.length) none ++ [x]

/-- The lowest free number. -/
def lowest (t : Table F) : ℕ := t.findIdx Option.isNone

/-- `dup2(old, new)`: it fails when `old` is free. -/
def dup2 (t : Table F) (old new : ℕ) : Option (Table F) := (t.get old).map fun f => t.put new (some f)

/-- Some number denotes the file. -/
def has [DecidableEq F] (t : Table F) (f : F) : Bool := some f ∈ t

variable {t : Table F} {m n : ℕ} {x : Option F} {f : F}

@[simp] theorem get_nil : get ([] : Table F) n = none := by simp [get]

@[simp] theorem get_put_self (t : Table F) (n : ℕ) (x : Option F) : (t.put n x).get n = x := by
  unfold get put
  split
  · rename_i hn
    simp [hn]
  · rename_i hn
    have hlen : (t ++ List.replicate (n - t.length) none).length = n := by
      simp
      omega
    rw [List.getElem?_append_right (Nat.le_of_eq hlen), hlen, Nat.sub_self]
    rfl

theorem get_put_ne (h : m ≠ n) : (t.put n x).get m = t.get m := by
  unfold get put
  split
  · rw [List.getElem?_set_ne h.symm]
  · rename_i hn
    by_cases hm : m < t.length
    · rw [List.append_assoc, List.getElem?_append_left hm]
    · -- between the old end and `n` all numbers are free
      rw [List.getElem?_eq_none (Nat.not_lt.1 hm), List.append_assoc, List.getElem?_append_right (Nat.not_lt.1 hm)]
      by_cases hmn : m < n
      · rw [List.getElem?_append_left (by simp; omega), List.getElem?_replicate_of_lt (by omega)]
        rfl
      · rw [List.getElem?_eq_none (by simp; omega)]

/-- **What stands where after `put`.** -/
theorem get_put (t : Table F) (n : ℕ) (x : Option F) (m : ℕ) :
    (t.put n x).get m = if m = n then x else t.get m := by
  by_cases h : m = n
  · subst h
    rw [get_put_self, if_pos rfl]
  · rw [get_put_ne h, if_neg h]

/-- The lowest free number is free. -/
theorem get_lowest (t : Table F) : t.get t.lowest = none := by
  unfold get lowest
  by_cases h : t.findIdx Option.isNone < t.length
  · have hfree := List.findIdx_getElem (p := Option.isNone) (w := h)
    rw [List.getElem?_eq_getElem h]
    simpa using hfree
  · rw [List.getElem?_eq_none (Nat.not_lt.1 h)]
    rfl

/-- The numbers below it are not. -/
theorem get_below (h : m < t.lowest) : t.get m ≠ none := by
  have hlt : m < t.length := Nat.lt_of_lt_of_le h List.findIdx_le_length
  have hnot := List.not_of_lt_findIdx (p := Option.isNone) h
  unfold get
  rw [List.getElem?_eq_getElem hlt]
  intro hnone
  simp only [Option.join_some] at hnone
  simp [hnone] at hnot

theorem has_iff [DecidableEq F] : t.has f = true ↔ ∃ n, t.get n = some f := by
  simp only [has, decide_eq_true_eq, get, Option.join_eq_some_iff]
  exact List.mem_iff_getElem?

end Table

end Sync
