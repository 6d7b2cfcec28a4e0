import Mathlib.Logic.Basic

/-!
# Who holds a lock

A lock variable names its owner (`Owns`): the thread it names, and no other, is at a
place where it holds the lock. `Owns.step` is the rule for one step of one thread, which
takes the lock, gives it back, or neither (`LockStep`).
-/

namespace Sync

variable {T : Type*}

/-- `o` names exactly the thread that holds the lock. -/
def Owns (holds : T → Prop) (o : Option T) : Prop := ∀ t, holds t ↔ o = some t

/-- What a step of thread `t` does to the lock; `b`, `b'`: it holds the lock before, after. -/
inductive LockStep (t : T) : Option T → Option T → Bool → Bool → Prop where
  | acquire : LockStep t none (some t) false true
  | release (o) : LockStep t o none true false
  | keep (o b) : LockStep t o o b b

variable {holds holds' : T → Prop} {o o' : Option T} {t t' : T}

/-- **Mutual exclusion.** -/
theorem Owns.excl (h : Owns holds o) (ht : holds t) (ht' : holds t') : t = t' :=
  Option.some.inj (((h t).1 ht).symm.trans ((h t').1 ht'))

theorem Owns.free (h : Owns holds o) (ho : o = none) : ¬ holds t := by
  intro ht; have := (h t).1 ht; rw [ho] at this; simp at this

theorem Owns.congr (h : Owns holds o) (he : ∀ t, holds' t ↔ holds t) : Owns holds' o :=
  fun t => (he t).trans (h t)

/-- **One step of one thread.** -/
theorem Owns.step {b b' : Bool} (h : Owns holds o) (hl : LockStep t o o' b b') (hb : holds t ↔ b)
    (hb' : holds' t ↔ b') (hne : ∀ t' ≠ t, holds' t' ↔ holds t') : Owns holds' o' := by
  intro x
  by_cases hx : x = t
  · subst hx
    have hx := h x
    cases hl <;> simp_all
  · rw [hne x hx, h x]
    cases hl with
    | acquire => simp [Ne.symm hx]
    | release => have ht := (h t).1 (hb.2 rfl); simp [ht, Ne.symm hx]
    | keep => rfl

end Sync
