import LinuxExercises.Spec.Handoff
import LinuxExercises.Sync.Owner
import Mathlib.Data.List.Infix

/-!
# The single slot of `ex3_condition_variable.c`

* `Move`, `step_cases`: all that one step can do.
* `Inv`: the mutex has one holder; the slot, with the update of the flag its holder still
  owes (`full`), holds what is stored and not printed; and a thread sleeps while it
  could go on only until the other one signals.
* `handoff`: while the mutex is free the consumer is behind by what the flag says, and the
  threads never all sleep.
-/

namespace Handoff

open Sync

variable {N : ℕ} {s s' : State} {ρ ρ' : Role} {θ : Thread}

/-- The thread has the mutex. -/
def Pc.holds : Pc → Bool
  | .test | .access | .flag | .signal | .unlock => true
  | _ => false

/-- The thread has passed the `while` loop and not yet updated the flag. -/
def Pc.inSlot : Pc → Bool
  | .access | .flag => true
  | _ => false

/-- The thread has used `g_data` in this round of its loop. -/
def Pc.past : Pc → Bool
  | .flag | .signal | .unlock => true
  | _ => false

/-- The thread is inside the body of its loop. -/
def Pc.inBody : Pc → Bool
  | .unborn | .top | .exited => false
  | _ => true

/-! ## What one step can do -/

/-- What one step of thread `ρ` does. -/
inductive Move (N : ℕ) (s : State) (ρ : Role) : State → Prop where
  | enter : (s.thread ρ).pc = .top → (s.thread ρ).i < N → Move N s ρ (s.goto ρ .lock)
  | leave : (s.thread ρ).pc = .top → ¬ (s.thread ρ).i < N → Move N s ρ (s.goto ρ .exited)
  | acquire : (s.thread ρ).pc = .lock ∨ (s.thread ρ).pc = .woken → s.lock = none →
      Move N s ρ { s.goto ρ .test with lock := some ρ }
  | sleep : (s.thread ρ).pc = .test → ρ.blocked s.ready = true →
      Move N s ρ { s.goto ρ .asleep with lock := none }
  | pass : (s.thread ρ).pc = .test → ρ.blocked s.ready = false → Move N s ρ (s.goto ρ .access)
  | store (rand : ℤ) : ρ = .producer → (s.thread ρ).pc = .access → Move N s ρ ((s.goto ρ .flag).store rand)
  | print : ρ = .consumer → (s.thread ρ).pc = .access → Move N s ρ (s.goto ρ .flag).print
  | flag : (s.thread ρ).pc = .flag → Move N s ρ { s.goto ρ .signal with ready := ρ = .producer }
  | signal : (s.thread ρ).pc = .signal → Move N s ρ ((s.goto ρ .unlock).wake ρ.other)
  | unlock : (s.thread ρ).pc = .unlock →
      Move N s ρ { s.set ρ ⟨.top, (s.thread ρ).i + 1⟩ with lock := none }

/-- The loop does what `Move` says, if its use of `g_data` does. -/
theorem loop_move {use : State → State} (hu : (s.thread ρ).pc = .access → Move N s ρ (use (s.goto ρ .flag)))
    (h : s.loop N ρ use = some s') : Move N s ρ s' := by
  unfold State.loop at h
  cases hpc : (s.thread ρ).pc <;> simp only [hpc, reduceCtorEq] at h
  case top =>
    by_cases hi : (s.thread ρ).i < N
    · rw [if_pos hi, Option.some.injEq] at h; subst h; exact .enter hpc hi
    · rw [if_neg hi, Option.some.injEq] at h; subst h; exact .leave hpc hi
  case lock =>
    by_cases hl : s.lock = none
    · rw [if_pos hl, Option.some.injEq] at h; subst h; exact .acquire (.inl hpc) hl
    · rw [if_neg hl] at h; cases h
  case woken =>
    by_cases hl : s.lock = none
    · rw [if_pos hl, Option.some.injEq] at h; subst h; exact .acquire (.inr hpc) hl
    · rw [if_neg hl] at h; cases h
  case test =>
    by_cases hb : ρ.blocked s.ready = true
    · rw [if_pos hb, Option.some.injEq] at h; subst h; exact .sleep hpc hb
    · rw [if_neg hb, Option.some.injEq] at h; subst h; exact .pass hpc (by simpa using hb)
  case access => rw [Option.some.injEq] at h; subst h; exact hu hpc
  case flag => rw [Option.some.injEq] at h; subst h; exact .flag hpc
  case signal => rw [Option.some.injEq] at h; subst h; exact .signal hpc
  case unlock => rw [Option.some.injEq] at h; subst h; exact .unlock hpc

/-- **What one step does.** -/
theorem step_cases {l : Label} (h : s.step N l = some s') :
    (s.main = .create .producer ∧ s' = { s.goto .producer .top with main := .create .consumer }) ∨
    (s.main = .create .consumer ∧ s' = { s.goto .consumer .top with main := .join .producer }) ∨
    (∃ pc, (∀ ρ, pc ≠ .create ρ) ∧ s' = { s with main := pc }) ∨
    (∃ ρ, Move N s ρ s') ∨
    ∃ ρ, s' = s.wake ρ := by
  cases l with
  | main =>
    simp only [State.step, State.mainStep] at h
    rcases hm : s.main with (_ | _) | (_ | _) | _ <;> simp only [hm] at h
    · exact .inl ⟨rfl, (Option.some.inj h).symm⟩
    · exact .inr (.inl ⟨rfl, (Option.some.inj h).symm⟩)
    · split at h
      · exact .inr (.inr (.inl ⟨_, by simp, (Option.some.inj h).symm⟩))
      · cases h
    · split at h
      · exact .inr (.inr (.inl ⟨_, by simp, (Option.some.inj h).symm⟩))
      · cases h
    · cases h
  | producer rand =>
    have h : s.loop N .producer (·.store rand) = some s' := h
    exact .inr (.inr (.inr (.inl ⟨_, loop_move (.store rand rfl) h⟩)))
  | consumer =>
    have h : s.loop N .consumer State.print = some s' := h
    exact .inr (.inr (.inr (.inl ⟨_, loop_move (.print rfl) h⟩)))
  | spurious ρ =>
    simp only [State.step] at h
    split at h
    · exact .inr (.inr (.inr (.inr ⟨ρ, (Option.some.inj h).symm⟩)))
    · cases h

/-! ## The invariant -/

/-- The items a thread has moved. -/
def Thread.made (θ : Thread) : ℕ := θ.i + θ.pc.past.toNat

/-- The loop variable is in range. -/
structure Thread.InRange (N : ℕ) (θ : Thread) : Prop where
  lt : θ.pc.inBody = true → θ.i < N
  le : θ.i ≤ N
  exited : θ.pc = .exited → θ.i = N

/-- The flag, once the thread that is about to update it has done so. -/
def full (f : Role → Thread) (ready : Bool) : Bool :=
  (f .producer).pc = .flag ∨ (f .consumer).pc ≠ .flag ∧ ready = true

/-- **The slot and the sleepers.** -/
structure Inv (N : ℕ) (s : State) : Prop where
  owner : Owns (fun ρ => (s.thread ρ).pc.holds = true) s.lock
  slot : s.stored = s.printed ++ if full s.thread s.ready then [s.data] else []
  guard : ∀ ρ, (s.thread ρ).pc.inSlot = true → ρ.blocked s.ready = false
  wakeup : ∀ ρ, (s.thread ρ).pc = .asleep → ρ.blocked s.ready = false → (s.thread ρ.other).pc = .signal
  stored : s.stored.length = (s.thread .producer).made
  printed : s.printed.length = (s.thread .consumer).made
  range : ∀ ρ, (s.thread ρ).InRange N
  unborn : ∀ ρ, s.main = .create .producer ∨ s.main = .create ρ → (s.thread ρ).pc = .unborn

theorem inv_init : Inv N .init where
  owner := fun ρ => by simp [State.init, Pc.holds]
  slot := rfl
  guard := nofun
  wakeup := nofun
  stored := rfl
  printed := rfl
  range := fun ρ => ⟨nofun, Nat.zero_le N, nofun⟩
  unborn := fun _ _ => rfl

@[simp] theorem State.set_thread_self (s : State) (ρ : Role) (θ : Thread) : (s.set ρ θ).thread ρ = θ :=
  Function.update_self _ _ _

theorem State.set_thread_ne (s : State) (θ : Thread) (h : ρ' ≠ ρ) : (s.set ρ θ).thread ρ' = s.thread ρ' :=
  Function.update_of_ne h _ _

theorem Role.other_ne (ρ : Role) : ρ.other ≠ ρ := by cases ρ <;> decide

theorem Role.eq_other (h : ρ' ≠ ρ) : ρ' = ρ.other := by
  cases ρ <;> cases ρ' <;> first | rfl | exact absurd rfl h

theorem Role.other_other (ρ : Role) : ρ.other.other = ρ := by cases ρ <;> rfl

/-- A property of every thread after one of them has changed. -/
theorem State.forall_set {P : Role → Thread → Prop} (h : ∀ ρ', P ρ' (s.thread ρ')) (hθ : P ρ θ) (ρ' : Role) :
    P ρ' ((s.set ρ θ).thread ρ') := by
  by_cases hρ : ρ' = ρ
  · subst hρ; rw [s.set_thread_self]; exact hθ
  · rw [s.set_thread_ne θ hρ]; exact h ρ'

/-- The thread that has the mutex is the one that the mutex names. -/
theorem Inv.lock_eq (h : Inv N s) (hρ : (s.thread ρ).pc.holds = true) : s.lock = some ρ := (h.owner ρ).1 hρ

/-- While one thread has the mutex, the other has not. -/
theorem Inv.other_idle (h : Inv N s) (hρ : (s.thread ρ).pc.holds = true) : (s.thread ρ.other).pc.holds = false := by
  by_contra hn
  have hn : (s.thread ρ.other).pc.holds = true := by simpa using hn
  exact ρ.other_ne (h.owner.excl hn hρ)

/-- The flag tells the truth while nobody is about to update it. -/
theorem full_eq {f : Role → Thread} (h : ∀ ρ, (f ρ).pc ≠ .flag) (b : Bool) : full f b = b := by
  unfold full
  simp [h]

/-- Only a thread at its update can make the flag lie. -/
theorem full_set (hother : (s.thread ρ.other).pc ≠ .flag) (b : Bool) :
    full (s.set ρ θ).thread b = if θ.pc = .flag then decide (ρ = .producer) else b := by
  have hne : (s.set ρ θ).thread ρ.other = s.thread ρ.other := s.set_thread_ne θ ρ.other_ne
  have hself : (s.set ρ θ).thread ρ = θ := s.set_thread_self ρ θ
  unfold full
  cases ρ
  · have hne : (s.set .producer θ).thread .consumer = s.thread .consumer := hne
    have hother : (s.thread .consumer).pc ≠ .flag := hother
    rw [hself, hne]
    by_cases hθ : θ.pc = .flag <;> simp [hθ, hother]
  · have hne : (s.set .consumer θ).thread .producer = s.thread .producer := hne
    have hother : (s.thread .producer).pc ≠ .flag := hother
    rw [hself, hne]
    by_cases hθ : θ.pc = .flag <;> simp [hθ, hother]

/-- While one thread has the mutex, the other does not update the flag. -/
theorem Inv.other_flag (h : Inv N s) (hρ : (s.thread ρ).pc.holds = true) : (s.thread ρ.other).pc ≠ .flag := by
  intro hf
  have hidle := h.other_idle hρ
  rw [hf] at hidle; cases hidle

/-- What the slot holds, for the thread that has the mutex. -/
theorem Inv.full_self (h : Inv N s) (hρ : (s.thread ρ).pc.holds = true) :
    full s.thread s.ready = if (s.thread ρ).pc = .flag then decide (ρ = .producer) else s.ready := by
  have hset : (s.set ρ (s.thread ρ)).thread = s.thread := Function.update_eq_self _ _
  rw [← full_set (θ := s.thread ρ) (h.other_flag hρ), hset]

/-- **A step of one thread that leaves the slot alone**: it moves, takes or gives back the
mutex; the main thread may move with it. -/
theorem Inv.move (h : Inv N s) {ℓ : Option Role} {μ : MainPc}
    (hl : LockStep ρ s.lock ℓ (s.thread ρ).pc.holds θ.pc.holds)
    (hflag : (s.thread ρ).pc ≠ .flag ∧ θ.pc ≠ .flag) (hmade : θ.made = (s.thread ρ).made)
    (hguard : θ.pc.inSlot = true → ρ.blocked s.ready = false)
    (hsleep : θ.pc = .asleep → ρ.blocked s.ready = true)
    (hsignal : (s.thread ρ).pc = .signal → (s.thread ρ.other).pc ≠ .asleep) (hr : θ.InRange N)
    (hm : ∀ ρ', μ = .create .producer ∨ μ = .create ρ' →
      (s.main = .create .producer ∨ s.main = .create ρ') ∧ ρ' ≠ ρ) :
    Inv N { s.set ρ θ with lock := ℓ, main := μ } := by
  have hother (ρ' : Role) (hρ : ρ' ≠ ρ) : (s.set ρ θ).thread ρ' = s.thread ρ' := s.set_thread_ne θ hρ
  have hfull : full (s.set ρ θ).thread s.ready = full s.thread s.ready := by
    have hset := State.forall_set (P := fun ρ' x => x.pc = .flag ↔ (s.thread ρ').pc = .flag) (fun _ => Iff.rfl)
      (iff_of_false hflag.2 hflag.1)
    unfold full
    simp only [hset, ne_eq]
  refine ⟨?_, ?_, ?_, fun ρ' ha hb => ?_, ?_, ?_, State.forall_set h.range hr, fun ρ' hρ' => ?_⟩
  · refine h.owner.step hl Iff.rfl ?_ fun ρ' hρ => ?_
    · exact iff_of_eq (congrArg (fun x : Thread => x.pc.holds = true) (s.set_thread_self ρ θ))
    · exact iff_of_eq (congrArg (fun x : Thread => x.pc.holds = true) (hother ρ' hρ))
  · show s.stored = s.printed ++ if full (s.set ρ θ).thread s.ready then [s.data] else []
    rw [hfull]; exact h.slot
  · exact State.forall_set (P := fun ρ' x => x.pc.inSlot = true → ρ'.blocked s.ready = false) h.guard hguard
  · have ha : ((s.set ρ θ).thread ρ').pc = .asleep := ha
    show ((s.set ρ θ).thread ρ'.other).pc = .signal
    by_cases hρ : ρ' = ρ
    · -- who has just gone to sleep could not go on
      subst hρ
      rw [s.set_thread_self] at ha
      have hb' := hsleep ha
      rw [show ρ'.blocked s.ready = false from hb] at hb'; cases hb'
    · rw [hother ρ' hρ] at ha
      have hw := h.wakeup ρ' ha hb
      obtain rfl : ρ' = ρ.other := Role.eq_other hρ
      rw [ρ.other_other] at hw
      exact absurd ha (hsignal hw)
  · show s.stored.length = ((s.set ρ θ).thread .producer).made
    rw [h.stored]
    exact (State.forall_set (P := fun ρ' x => x.made = (s.thread ρ').made) (fun _ => rfl) hmade _).symm
  · show s.printed.length = ((s.set ρ θ).thread .consumer).made
    rw [h.printed]
    exact (State.forall_set (P := fun ρ' x => x.made = (s.thread ρ').made) (fun _ => rfl) hmade _).symm
  · obtain ⟨hμ, hne⟩ := hm ρ' hρ'
    exact (congrArg Thread.pc (hother ρ' hne)).trans (h.unborn ρ' hμ)

/-- The moves of a thread do not concern the creation of the other. -/
theorem Inv.main_same (h : Inv N s) (hρ : (s.thread ρ).pc ≠ .unborn) (ρ' : Role)
    (hm : s.main = .create .producer ∨ s.main = .create ρ') :
    (s.main = .create .producer ∨ s.main = .create ρ') ∧ ρ' ≠ ρ := by
  refine ⟨hm, ?_⟩
  rintro rfl
  exact hρ (h.unborn ρ' hm)

/-- A thread goes on to another place, with the same items moved. -/
theorem Inv.goto (h : Inv N s) {p q : Pc} {ℓ : Option Role} (hpc : (s.thread ρ).pc = p)
    (hl : LockStep ρ s.lock ℓ p.holds q.holds) (hflag : p ≠ .flag ∧ q ≠ .flag) (hpast : q.past = p.past)
    (hp : p ≠ .unborn ∧ p ≠ .signal) (hguard : q.inSlot = true → ρ.blocked s.ready = false)
    (hsleep : q = .asleep → ρ.blocked s.ready = true) (hr : Thread.InRange N { s.thread ρ with pc := q }) :
    Inv N { s.goto ρ q with lock := ℓ } := by
  subst hpc
  refine h.move (θ := { s.thread ρ with pc := q }) (μ := s.main) hl hflag ?_ hguard hsleep (fun hs => absurd hs hp.2)
    hr (h.main_same hp.1)
  unfold Thread.made
  rw [hpast]

/-- A thread wakes. -/
theorem Inv.wake (h : Inv N s) (ρ : Role) : Inv N (s.wake ρ) := by
  unfold State.wake
  split
  · rename_i hpc
    obtain ⟨hlt, hle, -⟩ := h.range ρ
    have hi : (s.thread ρ).i < N := hlt (by rw [hpc]; rfl)
    exact h.goto hpc (.keep _ _) (by decide) rfl (by decide) nofun nofun ⟨fun _ => hi, hle, nofun⟩
  · exact h

/-- **A step of the thread that has the mutex on the slot.** -/
theorem Inv.work (h : Inv N s) (d : ℤ) (b : Bool) (σ τ : List ℤ) (hold : (s.thread ρ).pc.holds = true)
    (hidle : (s.thread ρ).pc ≠ .signal) (hpc : θ.pc.holds = true)
    (hslot : σ = τ ++ if (if θ.pc = .flag then decide (ρ = .producer) else b) then [d] else [])
    (hguard : θ.pc.inSlot = true → ρ.blocked b = false) (hwake : b = s.ready ∨ θ.pc = .signal)
    (hst : σ.length = ((s.set ρ θ).thread .producer).made)
    (hpr : τ.length = ((s.set ρ θ).thread .consumer).made) (hr : θ.InRange N) :
    Inv N { s.set ρ θ with data := d, ready := b, stored := σ, printed := τ } := by
  have hbusy := h.other_idle hold
  have hother (ρ' : Role) (hρ : ρ' ≠ ρ) : (s.set ρ θ).thread ρ' = s.thread ρ' := s.set_thread_ne θ hρ
  rw [← full_set (h.other_flag hold)] at hslot
  refine ⟨?_, hslot, fun ρ' hin => ?_, fun ρ' ha hb => ?_, hst, hpr, State.forall_set h.range hr, fun ρ' hρ' => ?_⟩
  · refine h.owner.step (.keep _ true) (iff_of_true hold rfl) ?_ fun ρ' hρ => ?_
    · exact iff_of_true ((congrArg (fun x : Thread => x.pc.holds) (s.set_thread_self ρ θ)).trans hpc) rfl
    · exact iff_of_eq (congrArg (fun x : Thread => x.pc.holds = true) (hother ρ' hρ))
  · have hin : ((s.set ρ θ).thread ρ').pc.inSlot = true := hin
    by_cases hρ : ρ' = ρ
    · subst hρ; rw [s.set_thread_self] at hin; exact hguard hin
    · -- the other thread has not the mutex
      rw [hother ρ' hρ] at hin
      obtain rfl : ρ' = ρ.other := Role.eq_other hρ
      cases hx : (s.thread ρ.other).pc <;> rw [hx] at hin hbusy <;> cases hin <;> cases hbusy
  · have ha : ((s.set ρ θ).thread ρ').pc = .asleep := ha
    have hb : ρ'.blocked b = false := hb
    show ((s.set ρ θ).thread ρ'.other).pc = .signal
    by_cases hρ : ρ' = ρ
    · subst hρ; rw [s.set_thread_self] at ha; rw [ha] at hpc; cases hpc
    · rw [hother ρ' hρ] at ha
      obtain rfl : ρ' = ρ.other := Role.eq_other hρ
      rw [ρ.other_other, s.set_thread_self]
      rcases hwake with hb' | hsig
      · rw [hb'] at hb
        have hw := h.wakeup ρ.other ha hb
        rw [ρ.other_other] at hw
        exact absurd hw hidle
      · exact hsig
  · have hρ : ρ' ≠ ρ := (h.main_same (by intro hu; rw [hu] at hold; cases hold) ρ' hρ').2
    exact (congrArg Thread.pc (hother ρ' hρ)).trans (h.unborn ρ' hρ')

/-- The producer stores a value: it is the one the slot then holds. -/
theorem Inv.store (h : Inv N s) (hpc : (s.thread .producer).pc = .access) (rand : ℤ) :
    Inv N ((s.goto .producer .flag).store rand) := by
  have hold : (s.thread .producer).pc.holds = true := by rw [hpc]; rfl
  have hready : s.ready = false := h.guard .producer (by rw [hpc]; rfl)
  obtain ⟨hlt, hle, -⟩ := h.range .producer
  have hslot := h.slot
  rw [h.full_self hold, hpc, hready] at hslot
  refine h.work (θ := { s.thread .producer with pc := .flag }) rand s.ready (s.stored ++ [rand]) s.printed hold
    (by rw [hpc]; nofun) rfl ?_ (fun _ => hready) (.inl rfl) ?_ ?_ ⟨fun _ => hlt (by rw [hpc]; rfl), hle, nofun⟩
  · -- the slot was empty, so nothing else is missing
    rw [hslot]; simp
  · rw [s.set_thread_self, List.length_append, h.stored]
    simp [Thread.made, Pc.past, hpc]
  · rw [s.set_thread_ne _ (by decide)]; exact h.printed

/-- The consumer prints the value in the slot: it is the one that was missing. -/
theorem Inv.print (h : Inv N s) (hpc : (s.thread .consumer).pc = .access) :
    Inv N (s.goto .consumer .flag).print := by
  have hold : (s.thread .consumer).pc.holds = true := by rw [hpc]; rfl
  have hguard : Role.blocked .consumer s.ready = false := h.guard .consumer (by rw [hpc]; rfl)
  have hready : s.ready = true := by simpa [Role.blocked] using hguard
  obtain ⟨hlt, hle, -⟩ := h.range .consumer
  have hslot := h.slot
  rw [h.full_self hold, hpc, hready] at hslot
  refine h.work (θ := { s.thread .consumer with pc := .flag }) s.data s.ready s.stored (s.printed ++ [s.data]) hold
    (by rw [hpc]; nofun) rfl ?_ (fun _ => hguard) (.inl rfl) ?_ ?_ ⟨fun _ => hlt (by rw [hpc]; rfl), hle, nofun⟩
  · -- the slot held the last value, so nothing is missing now
    rw [hslot]; simp
  · rw [s.set_thread_ne _ (by decide)]; exact h.stored
  · rw [s.set_thread_self, List.length_append, h.printed]
    simp [Thread.made, Pc.past, hpc]

/-- The update of the flag is the one the thread owed; now it owes the signal. -/
theorem Inv.flag (h : Inv N s) (hpc : (s.thread ρ).pc = .flag) :
    Inv N { s.goto ρ .signal with ready := ρ = .producer } := by
  have hold : (s.thread ρ).pc.holds = true := by rw [hpc]; rfl
  obtain ⟨hlt, hle, -⟩ := h.range ρ
  have hmade : ∀ ρ', ((s.set ρ { s.thread ρ with pc := .signal }).thread ρ').made = (s.thread ρ').made :=
    State.forall_set (P := fun ρ' x => x.made = (s.thread ρ').made) (fun _ => rfl)
      (by simp [Thread.made, Pc.past, hpc])
  have hslot := h.slot
  rw [h.full_self hold, hpc] at hslot
  refine h.work (θ := { s.thread ρ with pc := .signal }) s.data (ρ = .producer) s.stored s.printed hold
    (by rw [hpc]; nofun) rfl hslot nofun (.inr rfl) ?_ ?_ ⟨fun _ => hlt (by rw [hpc]; rfl), hle, nofun⟩
  · rw [hmade]; exact h.stored
  · rw [hmade]; exact h.printed

/-- The two threads move independently. -/
theorem State.goto_wake (s : State) (ρ : Role) (pc : Pc) : (s.goto ρ pc).wake ρ.other = (s.wake ρ.other).goto ρ pc := by
  have hne : (s.goto ρ pc).thread ρ.other = s.thread ρ.other := s.set_thread_ne _ ρ.other_ne
  unfold State.wake
  rw [hne]
  split
  · simp only [State.goto, State.set, Function.update_of_ne ρ.other_ne, Function.update_of_ne ρ.other_ne.symm,
      Function.update_comm ρ.other_ne]
  · rfl

theorem State.wake_thread_ne (s : State) (h : ρ' ≠ ρ) : (s.wake ρ).thread ρ' = s.thread ρ' := by
  unfold State.wake
  split
  · exact s.set_thread_ne _ h
  · rfl

theorem State.wake_awake (s : State) (ρ : Role) : ((s.wake ρ).thread ρ).pc ≠ .asleep := by
  unfold State.wake
  split
  · intro h
    rw [State.goto, s.set_thread_self] at h; cases h
  · assumption

/-- **A signal**: afterwards the other thread does not sleep. -/
theorem Inv.signal (h : Inv N s) (hpc : (s.thread ρ).pc = .signal) : Inv N ((s.goto ρ .unlock).wake ρ.other) := by
  -- the wakeup first: with the other thread awake nothing is owed to it
  rw [s.goto_wake]
  have hw := h.wake ρ.other
  have hpc' : ((s.wake ρ.other).thread ρ).pc = .signal := by rw [s.wake_thread_ne ρ.other_ne.symm]; exact hpc
  obtain ⟨hlt, hle, -⟩ := hw.range ρ
  refine hw.move (θ := { (s.wake ρ.other).thread ρ with pc := .unlock }) (ℓ := (s.wake ρ.other).lock)
    (μ := (s.wake ρ.other).main) ?_ ?_ ?_ nofun nofun (fun _ => s.wake_awake ρ.other) ?_
    (hw.main_same (by rw [hpc']; nofun))
  · rw [hpc']; exact .keep _ _
  · rw [hpc']; exact ⟨nofun, nofun⟩
  · simp [Thread.made, Pc.past, hpc']
  · exact ⟨fun _ => hlt (by rw [hpc']; rfl), hle, nofun⟩

/-- A step of a thread keeps the invariant. -/
theorem inv_move (h : Inv N s) (hm : Move N s ρ s') : Inv N s' := by
  obtain ⟨hlt, hle, -⟩ := h.range ρ
  cases hm with
  | enter hpc hi =>
    exact h.goto hpc (.keep _ _) (by decide) rfl (by decide) nofun nofun ⟨fun _ => hi, hle, nofun⟩
  | leave hpc hi =>
    have hN : (s.thread ρ).i = N := by omega
    exact h.goto hpc (.keep _ _) (by decide) rfl (by decide) nofun nofun ⟨nofun, hle, fun _ => hN⟩
  | acquire hpc hl =>
    have hfree : LockStep ρ s.lock (some ρ) false true := by rw [hl]; exact .acquire
    rcases hpc with hpc | hpc
    · have hi := hlt (by rw [hpc]; rfl)
      exact h.goto hpc hfree (by decide) rfl (by decide) nofun nofun ⟨fun _ => hi, hle, nofun⟩
    · have hi := hlt (by rw [hpc]; rfl)
      exact h.goto hpc hfree (by decide) rfl (by decide) nofun nofun ⟨fun _ => hi, hle, nofun⟩
  | sleep hpc hb =>
    have hi := hlt (by rw [hpc]; rfl)
    exact h.goto hpc (.release _) (by decide) rfl (by decide) nofun (fun _ => hb) ⟨fun _ => hi, hle, nofun⟩
  | pass hpc hb =>
    have hi := hlt (by rw [hpc]; rfl)
    exact h.goto hpc (.keep _ _) (by decide) rfl (by decide) (fun _ => hb) nofun ⟨fun _ => hi, hle, nofun⟩
  | store rand hρ hpc => subst hρ; exact h.store hpc rand
  | print hρ hpc => subst hρ; exact h.print hpc
  | flag hpc => exact h.flag hpc
  | signal hpc => exact h.signal hpc
  | unlock hpc =>
    -- the round is over, and was counted when `g_data` was used
    have hi := hlt (by rw [hpc]; rfl)
    refine h.move (θ := ⟨.top, (s.thread ρ).i + 1⟩) (ℓ := none) (μ := s.main) ?_ ?_ ?_ nofun nofun
      (by rw [hpc]; nofun) ⟨nofun, hi, nofun⟩ (h.main_same (by rw [hpc]; nofun))
    · rw [hpc]; exact .release _
    · rw [hpc]; exact ⟨nofun, nofun⟩
    · simp [Thread.made, Pc.past, hpc]

/-- The main thread creates a thread. -/
theorem Inv.create (h : Inv N s) {μ : MainPc} (hu : (s.thread ρ).pc = .unborn)
    (hm : ∀ ρ', μ = .create .producer ∨ μ = .create ρ' → (s.main = .create .producer ∨ s.main = .create ρ') ∧ ρ' ≠ ρ) :
    Inv N { s.goto ρ .top with main := μ } := by
  obtain ⟨hlt, hle, -⟩ := h.range ρ
  refine h.move (θ := { s.thread ρ with pc := .top }) (ℓ := s.lock) ?_ ?_ ?_ nofun nofun (by rw [hu]; nofun)
    ⟨nofun, hle, nofun⟩ hm
  · rw [hu]; exact .keep _ _
  · rw [hu]; exact ⟨nofun, nofun⟩
  · simp [Thread.made, Pc.past, hu]

/-- **Every step keeps the invariant.** -/
theorem inv_step {l : Label} (h : Inv N s) (hst : s.step N l = some s') : Inv N s' := by
  rcases step_cases hst with ⟨hm, rfl⟩ | ⟨hm, rfl⟩ | ⟨pc, hpc, rfl⟩ | ⟨ρ, hmove⟩ | ⟨ρ, rfl⟩
  · refine h.create (h.unborn .producer (.inl hm)) fun ρ' hρ' => ⟨.inl hm, ?_⟩
    rintro rfl
    rcases hρ' with hρ' | hρ' <;> cases hρ'
  · -- with both threads created nothing is said about unborn ones
    refine h.create (h.unborn .consumer (.inr hm)) fun ρ' hρ' => ?_
    rcases hρ' with hρ' | hρ' <;> cases hρ'
  · exact ⟨h.owner, h.slot, h.guard, h.wakeup, h.stored, h.printed, h.range,
      fun ρ hρ => absurd hρ (not_or.2 ⟨hpc _, hpc _⟩)⟩
  · exact inv_move h hmove
  · exact h.wake ρ

theorem reach_inv (h : (conditionVariable N).Reachable s) : Inv N s :=
  h.inv (I := Inv N) inv_init fun _ _ _ _ hi _ hst => inv_step hi hst

/-! ## The handoff -/

/-- The values stored, the values printed and the slot, while the mutex is free. -/
theorem Inv.slot_free (h : Inv N s) (hl : s.lock = none) :
    s.stored = s.printed ++ if s.ready then [s.data] else [] := by
  have hslot := h.slot
  rwa [full_eq fun ρ hf => h.owner.free hl (t := ρ) (by rw [hf]; rfl)] at hslot

/-- **Somebody is awake**, as long as somebody is not done. -/
theorem Inv.awake (h : Inv N s) (hn : ∃ ρ, (s.thread ρ).pc ≠ .exited) :
    ∃ ρ, (s.thread ρ).pc ≠ .exited ∧ (s.thread ρ).pc ≠ .asleep := by
  by_contra hall
  push Not at hall
  have hpc (ρ : Role) : (s.thread ρ).pc = .exited ∨ (s.thread ρ).pc = .asleep := by
    by_cases hρ : (s.thread ρ).pc = .exited
    · exact .inl hρ
    · exact .inr (hall ρ hρ)
  -- nobody is about to signal, so every sleeper has reason to sleep
  have hblocked (ρ : Role) (hρ : (s.thread ρ).pc = .asleep) : ρ.blocked s.ready = true := by
    by_contra hb
    have hsig := h.wakeup ρ hρ (by simpa using hb)
    rcases hpc ρ.other with hx | hx <;> rw [hsig] at hx <;> cases hx
  have hfull : full s.thread s.ready = s.ready := full_eq (fun ρ hf => by rcases hpc ρ with hx | hx <;> rw [hf] at hx <;> cases hx) _
  have hslot := congrArg List.length h.slot
  rw [hfull, List.length_append, h.stored, h.printed] at hslot
  have hmade (ρ : Role) : (s.thread ρ).made = (s.thread ρ).i := by
    rcases hpc ρ with hx | hx <;> simp [Thread.made, Pc.past, hx]
  rw [hmade, hmade] at hslot
  have hend (ρ : Role) (hρ : (s.thread ρ).pc = .exited) : (s.thread ρ).i = N := (h.range ρ).exited hρ
  have hgo (ρ : Role) (hρ : (s.thread ρ).pc = .asleep) : (s.thread ρ).i < N := (h.range ρ).lt (by rw [hρ]; rfl)
  rcases hpc .producer with hp | hp <;> rcases hpc .consumer with hc | hc
  · obtain ⟨ρ, hρ⟩ := hn
    cases ρ
    · exact hρ hp
    · exact hρ hc
  · -- the last value is still there for the consumer
    have hb : s.ready = false := by simpa [Role.blocked] using hblocked .consumer hc
    have := hend _ hp
    have := hgo _ hc
    rw [hb] at hslot
    simp at hslot; omega
  · -- the consumer has had more than was stored
    have := hgo _ hp
    have := hend _ hc
    omega
  · have hb : s.ready = true := hblocked .producer hp
    have hb' : s.ready = false := by simpa [Role.blocked] using hblocked .consumer hc
    rw [hb] at hb'; cases hb'

/-- **The handoff**: for every number of items, in every reachable state in which the mutex is
free, the consumer has printed what the producer has stored, or all but the last value; it is
one behind exactly when `g_data_ready` is set, and the value it misses is then in `g_data`.
And never do all threads that are not done sleep. -/
theorem handoff (h : (conditionVariable N).Reachable s) :
    (s.lock = none →
      s.printed <+: s.stored ∧ s.stored.length ≤ s.printed.length + 1 ∧
      (s.ready = true ↔ s.stored.length = s.printed.length + 1) ∧
      (s.ready = true → s.stored = s.printed ++ [s.data])) ∧
    ¬ ((∃ ρ, (s.thread ρ).pc ≠ .exited) ∧ ∀ ρ, (s.thread ρ).pc ≠ .exited → (s.thread ρ).pc = .asleep) := by
  have hinv := reach_inv h
  constructor
  · intro hl
    have hslot := hinv.slot_free hl
    have hlen := congrArg List.length hslot
    cases hr : s.ready <;> rw [hr] at hslot hlen <;> simp at hslot hlen
    · exact ⟨⟨[], by simp [hslot]⟩, by omega, iff_of_false nofun (by omega), nofun⟩
    · exact ⟨⟨[s.data], hslot.symm⟩, by omega, iff_of_true rfl hlen, fun _ => hslot⟩
  · rintro ⟨hn, hall⟩
    obtain ⟨ρ, hρ, hawake⟩ := hinv.awake hn
    exact hawake (hall ρ hρ)

/-- The consumer sleeps first; the producer stores two values and the consumer prints one. -/
def secondStored : List Label :=
  [.main, .main, .consumer, .consumer, .consumer] ++ .replicate 7 (.producer 5) ++
    .replicate 6 .consumer ++ .replicate 7 (.producer 8)

theorem handoff_second :
    ((conditionVariable 2).after Sync.Trans.Free secondStored).stored = [5, 8] ∧
    ((conditionVariable 2).after Sync.Trans.Free secondStored).printed <+:
      ((conditionVariable 2).after Sync.Trans.Free secondStored).stored :=
  ⟨by decide +kernel, ((handoff (Sync.Trans.reach_after secondStored)).1 (by decide +kernel)).1⟩

end Handoff
