import LinuxExercises.Sync.Weight

/-!
# Locks that readers share

A lock that any number of readers or one writer holds (`RwLock`: the two never together).
`Accounts` says that the lock counts the members of a family that hold it, each in its mode.
Taking and giving back keep that (`Accounts.rdlock`, `Accounts.wrlock`, `Accounts.unlock`), so
a member that writes is alone (`Accounts.alone`).
-/

namespace Sync

/-- **The state of the lock**: how many read, and whether one writes. -/
@[ext] structure RwLock where
  readers : ℕ
  writer : Bool
  excl : writer = true → readers = 0

namespace RwLock

/-- Nobody holds the lock. -/
def free : RwLock := ⟨0, false, nofun⟩

/-- Take it for reading. -/
def rdlock (l : RwLock) : Option RwLock := if l.writer then none else some ⟨l.readers + 1, false, nofun⟩

/-- Take it for writing. -/
def wrlock (l : RwLock) : Option RwLock :=
  if l.writer = false ∧ l.readers = 0 then some ⟨0, true, fun _ => rfl⟩ else none

/-- Give it back. -/
def unlock (l : RwLock) : RwLock := ⟨l.readers - 1, false, nofun⟩

/-- How one member holds the lock. -/
inductive Mode where
  | out
  | reading
  | writing
  deriving DecidableEq, Repr

def Mode.reads : Mode → ℕ
  | .reading => 1
  | _ => 0

def Mode.writes : Mode → ℕ
  | .writing => 1
  | _ => 0

variable {ι : Type*} [Fintype ι]

/-- **The lock counts the members that hold it.** -/
structure Accounts (f : ι → Mode) (l : RwLock) : Prop where
  reading : total Mode.reads f = l.readers
  writing : total Mode.writes f = l.writer.toNat

variable {f : ι → Mode} {l l' : RwLock} {i j : ι}

theorem accounts_free (h : ∀ i, f i = .out) : Accounts f free := by
  refine ⟨total_zero fun i => ?_, total_zero fun i => ?_⟩
  · rw [h i]; rfl
  · rw [h i]; rfl

/-- Beside a reader nobody writes. -/
theorem Accounts.writer_eq (h : Accounts f l) (hi : f i = .reading) : l.writer = false := by
  have hone := le_total (w := Mode.reads) (f := f) i
  rw [hi, h.reading] at hone
  by_contra hw
  rw [l.excl (Bool.eq_true_of_not_eq_false hw)] at hone
  simp [Mode.reads] at hone

/-- If no member holds the lock, it is free. -/
theorem Accounts.eq_free (h : Accounts f l) (hall : ∀ i, f i = .out) : l = free := by
  have hfree := accounts_free hall
  have hw : l.writer.toNat = 0 := h.writing.symm.trans hfree.writing
  refine RwLock.ext (h.reading.symm.trans hfree.reading) ?_
  cases hl : l.writer
  · rfl
  · rw [hl] at hw
    simp at hw

variable [DecidableEq ι]

theorem Accounts.rdlock (h : Accounts f l) (hi : f i = .out) (hl : l.rdlock = some l') :
    Accounts (Function.update f i .reading) l' := by
  unfold RwLock.rdlock at hl
  split at hl
  · cases hl
  rename_i hw
  obtain rfl := Option.some.inj hl
  have hr := total_update (w := Mode.reads) (f := f) i .reading
  have hwr := total_update (w := Mode.writes) (f := f) i .reading
  rw [hi, h.reading] at hr
  rw [hi, h.writing] at hwr
  simp only [Mode.reads, Mode.writes, Bool.not_eq_true] at hr hwr hw
  rw [hw] at hwr
  exact ⟨hr, hwr⟩

theorem Accounts.wrlock (h : Accounts f l) (hi : f i = .out) (hl : l.wrlock = some l') :
    Accounts (Function.update f i .writing) l' := by
  unfold RwLock.wrlock at hl
  split at hl
  · rename_i hfree
    obtain rfl := Option.some.inj hl
    have hr := total_update (w := Mode.reads) (f := f) i .writing
    have hwr := total_update (w := Mode.writes) (f := f) i .writing
    rw [hi, h.reading, hfree.2] at hr
    rw [hi, h.writing, hfree.1] at hwr
    exact ⟨hr, hwr⟩
  · cases hl

/-- Whoever holds the lock can give it back. -/
theorem Accounts.unlock (h : Accounts f l) (hi : f i ≠ .out) : Accounts (Function.update f i .out) l.unlock := by
  have hr := total_update (w := Mode.reads) (f := f) i .out
  have hwr := total_update (w := Mode.writes) (f := f) i .out
  have hexcl := l.excl
  rw [h.reading] at hr
  rw [h.writing] at hwr
  cases hm : f i with
  | out => exact absurd hm hi
  | reading =>
    rw [hm] at hr hwr
    simp only [Mode.reads, Mode.writes, Nat.add_zero] at hr hwr
    cases hw : l.writer with
    | true =>
      have := hexcl hw
      omega
    | false =>
      rw [hw] at hwr
      exact ⟨by show _ = l.readers - 1; omega, hwr⟩
  | writing =>
    rw [hm] at hr hwr
    simp only [Mode.reads, Mode.writes, Nat.add_zero] at hr hwr
    cases hw : l.writer with
    | true =>
      rw [hw] at hwr
      have := hexcl hw
      simp only [Bool.toNat_true] at hwr
      exact ⟨by show _ = l.readers - 1; omega, by show _ = 0; omega⟩
    | false =>
      rw [hw] at hwr
      simp at hwr

/-- **A writer is alone.** -/
theorem Accounts.alone (h : Accounts f l) (hi : f i = .writing) (hj : f j ≠ .out) : j = i := by
  have hone := le_total (w := Mode.writes) (f := f) i
  rw [hi, h.writing] at hone
  have hw : l.writer = true := by
    cases hw : l.writer
    · rw [hw] at hone
      simp [Mode.writes] at hone
    · rfl
  cases hm : f j with
  | out => exact absurd hm hj
  | reading =>
    have := le_total (w := Mode.reads) (f := f) j
    rw [hm, h.reading, l.excl hw] at this
    simp [Mode.reads] at this
  | writing =>
    refine eq_of_total_le_one (w := Mode.writes) (f := f) ?_ ?_ ?_
    · rw [h.writing, hw]
      exact le_rfl
    · rw [hm]; exact Nat.one_pos
    · rw [hi]; exact Nat.one_pos

end RwLock

end Sync
