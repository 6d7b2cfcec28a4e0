import Mathlib.Logic.Function.Basic

/-!
# Numbers that are handed out and come back

A table says what stands at each number. A lease gives a holder a number and says what
it expects there; a number that is given back is free for the next holder.

* `Leases.give`, `Leases.drop`, `Leases.pass`: a free number is leased, a lease ends, a
  lease changes hands.
* `Leases.mono`: leases may be forgotten.
-/

namespace Sync

variable {N F H : Type*} {table : N → Option F} {lease lease' : H → Option (N × F)} {n : N} {f : F}

/-- **Every holder finds at its number what it expects, and no number has two holders.** -/
structure Leases (table : N → Option F) (lease : H → Option (N × F)) : Prop where
  own : ∀ h n f, lease h = some (n, f) → table n = some f
  apart : ∀ h h' n f f', lease h = some (n, f) → lease h' = some (n, f') → h = h'

theorem Leases.mono (h : Leases table lease) (hL : ∀ x y, lease' x = some y → lease x = some y) :
    Leases table lease' :=
  ⟨fun x n f hx => h.own x n f (hL x _ hx), fun x x' n f f' hx hx' => h.apart x x' n f f' (hL x _ hx) (hL x' _ hx')⟩

variable [DecidableEq N]

/-- **A free number is leased.** -/
theorem Leases.give {a : H} (h : Leases table lease) (hn : table n = none) (ha : lease' a = some (n, f))
    (hL : ∀ x y, x ≠ a → lease' x = some y → lease x = some y) :
    Leases (Function.update table n (some f)) lease' := by
  -- nobody else has the number
  have hfree {x g} (hx : x ≠ a) (hg : lease' x = some (n, g)) : False := by
    have := h.own x n g (hL x _ hx hg)
    rw [hn] at this; cases this
  have hself {x g} (hx : lease' x = some (n, g)) : x = a := by
    by_contra hne; exact hfree hne hx
  refine ⟨fun x k g hx => ?_, fun x x' k g g' hx hx' => ?_⟩
  · by_cases hk : k = n
    · subst hk
      obtain rfl := hself hx
      rw [ha] at hx; cases hx
      rw [Function.update_self]
    · have hne : x ≠ a := by rintro rfl; rw [ha] at hx; cases hx; exact hk rfl
      rw [Function.update_of_ne hk]
      exact h.own x k g (hL x _ hne hx)
  · by_cases hk : k = n
    · subst hk; rw [hself hx, hself hx']
    · have hne {y g} (hy : lease' y = some (k, g)) : y ≠ a := by
        rintro rfl; rw [ha] at hy; cases hy; exact hk rfl
      exact h.apart x x' k g g' (hL x _ (hne hx) hx) (hL x' _ (hne hx') hx')

/-- **A lease ends**, and its number is free. -/
theorem Leases.drop {a : H} (h : Leases table lease) (ha : lease a = some (n, f))
    (hL : ∀ x y, lease' x = some y → x ≠ a ∧ lease x = some y) :
    Leases (Function.update table n none) lease' := by
  refine ⟨fun x k g hx => ?_, fun x x' k g g' hx hx' => ?_⟩
  · obtain ⟨hne, hx⟩ := hL x _ hx
    have hk : k ≠ n := by rintro rfl; exact hne (h.apart x a k g f hx ha)
    rw [Function.update_of_ne hk]
    exact h.own x k g hx
  · exact h.apart x x' k g g' (hL x _ hx).2 (hL x' _ hx').2

omit [DecidableEq N] in
/-- **A lease changes hands.** -/
theorem Leases.pass {a b : H} (h : Leases table lease) (hb : ∀ y, lease' b = some y → lease a = some y)
    (hL : ∀ x y, x ≠ b → lease' x = some y → x ≠ a ∧ lease x = some y) : Leases table lease' := by
  -- where a lease was before
  have hold {x y} (hx : lease' x = some y) : (x = b ∧ lease a = some y) ∨ (x ≠ b ∧ x ≠ a ∧ lease x = some y) := by
    by_cases hxb : x = b
    · subst hxb; exact .inl ⟨rfl, hb y hx⟩
    · exact .inr ⟨hxb, hL x y hxb hx⟩
  refine ⟨fun x n f hx => ?_, fun x x' n f f' hx hx' => ?_⟩
  · rcases hold hx with ⟨-, ha⟩ | ⟨-, -, ho⟩
    · exact h.own a n f ha
    · exact h.own x n f ho
  · rcases hold hx with ⟨rfl, ha⟩ | ⟨-, hna, ho⟩ <;> rcases hold hx' with ⟨rfl, ha'⟩ | ⟨-, hna', ho'⟩
    · rfl
    · exact absurd (h.apart _ _ n f' f ho' ha) hna'
    · exact absurd (h.apart _ _ n f f' ho ha') hna
    · exact h.apart x x' n f f' ho ho'

end Sync
