import Mathlib.Data.Nat.ModEq
import Mathlib.Logic.Function.Basic
import Mathlib.Algebra.Group.Int.Defs

/-!
# Ring buffers

`RingBuf.Holds n r q`: the cells of a ring of `n` cells from index `outIdx` on hold the queue
`q` in order, `inIdx` is the cell after them, and `count` is their number.

* `Holds.store`: storing an item appends it to the queue.
* `Holds.fetch`: the item at `outIdx` is the head of the queue, and fetching removes it.
-/

namespace Sync

/-- The variables of a ring buffer; only the cells below its size are used. -/
structure RingBuf (α : Type*) where
  cells : ℕ → α
  count : ℤ
  inIdx : ℕ
  outIdx : ℕ

namespace RingBuf

variable {α : Type*}

/-- Write a cell at `inIdx`, and no more. -/
def write (r : RingBuf α) (x : α) : RingBuf α := { r with cells := Function.update r.cells r.inIdx x }

def advanceIn (n : ℕ) (r : RingBuf α) : RingBuf α := { r with inIdx := (r.inIdx + 1) % n }

def advanceOut (n : ℕ) (r : RingBuf α) : RingBuf α := { r with outIdx := (r.outIdx + 1) % n }

/-- Store an item: write it, move `inIdx`, count it. -/
def store (n : ℕ) (r : RingBuf α) (x : α) : RingBuf α :=
  { (r.write x).advanceIn n with count := r.count + 1 }

/-- Fetch an item: move `outIdx`, count down. -/
def fetch (n : ℕ) (r : RingBuf α) : RingBuf α := { r.advanceOut n with count := r.count - 1 }

/-- **The ring holds the queue.** -/
structure Holds (n : ℕ) (r : RingBuf α) (q : List α) : Prop where
  count : r.count = q.length
  le : q.length ≤ n
  out_lt : r.outIdx < n
  in_eq : r.inIdx = (r.outIdx + q.length) % n
  get : ∀ k < q.length, q[k]? = some (r.cells ((r.outIdx + k) % n))

variable {n : ℕ} {r : RingBuf α} {q : List α}

theorem Holds.in_lt (h : r.Holds n q) : r.inIdx < n := by
  rw [h.in_eq]; exact Nat.mod_lt _ (by have := h.out_lt; omega)

/-- The cells of a ring that is not full are all different from the next one. -/
theorem mod_ne_mod {o k c : ℕ} (hk : k < c) (hc : c < n) : (o + k) % n ≠ (o + c) % n := by
  intro he
  have hd : n ∣ (o + c) - (o + k) := (Nat.modEq_iff_dvd' (by omega)).1 he
  have := Nat.le_of_dvd (by omega) hd
  omega

/-- **Storing appends.** -/
theorem Holds.store (h : r.Holds n q) (hlt : q.length < n) (x : α) :
    (r.store n x).Holds n (q ++ [x]) := by
  have hlen : (q ++ [x]).length = q.length + 1 := by rw [List.length_append]; rfl
  refine ⟨?_, by omega, h.out_lt, ?_, fun k hk => ?_⟩
  · show r.count + 1 = _
    rw [h.count, hlen]; rfl
  · show (r.inIdx + 1) % n = _
    rw [h.in_eq, hlen, Nat.mod_add_mod, Nat.add_assoc]; rfl
  · rw [hlen] at hk
    show (q ++ [x])[k]? = some (Function.update r.cells r.inIdx x ((r.outIdx + k) % n))
    rw [h.in_eq]
    rcases Nat.lt_succ_iff_lt_or_eq.1 hk with hlt' | rfl
    · rw [Function.update_of_ne (mod_ne_mod hlt' hlt), List.getElem?_append_left hlt']
      exact h.get k hlt'
    · rw [Function.update_self, List.getElem?_concat_length]

/-- **Fetching takes the head.** -/
theorem Holds.fetch (h : r.Holds n q) (hpos : q ≠ []) :
    ∃ q', q = r.cells r.outIdx :: q' ∧ (r.fetch n).Holds n q' := by
  cases q with
  | nil => exact absurd rfl hpos
  | cons x q' =>
    have hx := h.get 0 (Nat.succ_pos _)
    have hcount := h.count
    have hle := h.le
    rw [List.length_cons] at hcount hle
    rw [Nat.add_zero, Nat.mod_eq_of_lt h.out_lt, List.getElem?_cons_zero] at hx
    refine ⟨q', by rw [Option.some.inj hx], ?_, by omega, ?_, ?_, fun k hk => ?_⟩
    · show r.count - 1 = _; omega
    · exact Nat.mod_lt _ (by have := h.out_lt; omega)
    · show r.inIdx = ((r.outIdx + 1) % n + q'.length) % n
      rw [Nat.mod_add_mod, h.in_eq, List.length_cons]; congr 1; omega
    · show q'[k]? = some (r.cells (((r.outIdx + 1) % n + k) % n))
      have := h.get (k + 1) (by rw [List.length_cons]; omega)
      rw [List.getElem?_cons_succ] at this
      rw [this, Nat.mod_add_mod]; congr 3; omega

end RingBuf

end Sync
