import Mathlib.Data.List.Sort

/-!
# Queues by priority

A queue by falling priority, in which a new element goes behind those of at least its own
priority.

* `falling_insert`: it stays in order.
* `filter_insert`: among the elements of one priority, insertion is at the end.
-/

namespace Sync

variable {α : Type*} {prio : α → ℕ} {a : α} {q : List α}

/-- The priorities fall. -/
def Falling (prio : α → ℕ) (q : List α) : Prop := q.Pairwise fun x y => prio y ≤ prio x

theorem falling_insert (h : Falling prio q) :
    Falling prio (q.orderedInsert (fun x y => prio y < prio x) a) := by
  induction q with
  | nil => simp [Falling]
  | cons b q ih =>
    obtain ⟨hb, hq⟩ := List.pairwise_cons.1 h
    rw [List.orderedInsert_cons]
    split
    · rename_i hlt
      refine List.pairwise_cons.2 ⟨fun x hx => ?_, h⟩
      rcases List.mem_cons.1 hx with rfl | hx
      · exact hlt.le
      · exact (hb x hx).trans hlt.le
    · rename_i hle
      refine List.pairwise_cons.2 ⟨fun x hx => ?_, ih hq⟩
      rcases (List.mem_orderedInsert _).1 hx with rfl | hx
      · exact not_lt.1 hle
      · exact hb x hx

/-- **First in, first out for each priority.** -/
theorem filter_insert (h : Falling prio q) (n : ℕ) :
    (q.orderedInsert (fun x y => prio y < prio x) a).filter (prio · = n) =
      q.filter (prio · = n) ++ [a].filter (prio · = n) := by
  induction q with
  | nil => rfl
  | cons b q ih =>
    obtain ⟨hb, hq⟩ := List.pairwise_cons.1 h
    rw [List.orderedInsert_cons]
    split
    · rename_i hlt
      -- nothing of the priority of `a` follows
      by_cases ha : prio a = n
      · have hnone : (b :: q).filter (prio · = n) = [] := by
          refine List.filter_eq_nil_iff.2 fun x hx => ?_
          have hxb : prio x ≤ prio b := by
            rcases List.mem_cons.1 hx with rfl | hx
            · exact le_rfl
            · exact hb x hx
          simp only [decide_eq_true_eq]
          omega
        rw [List.filter_cons, hnone]
        simp [ha]
      · simp [List.filter_cons, ha]
    · rw [List.filter_cons, List.filter_cons, ih hq]
      split <;> rfl

end Sync
