import LinuxExercises.Proof.Handoff

/-!
# `ex3_condition_variable.c` comes to an end

* `State.left`: the steps that are left. A round pays for its own steps and for the two more that
  its signal may cause the other thread; a spurious wakeup pays for nothing.
* `terminates`: with `k` spurious wakeups, no run has more than `18 * N + 8 + 3 * k` steps, and a
  run that can go on only by spurious wakeups has handed over all `N` values.
-/

namespace Handoff

open Sync

variable {N : ℕ} {s s' : State} {ρ ρ' : Role} {θ : Thread}

/-! ## What is left to do -/

/-- The steps to the end of the round, at most. -/
def Pc.left : Pc → ℕ
  | .unborn | .unlock => 2
  | .top => 1
  | .lock | .woken => 9
  | .test => 8
  | .asleep | .access => 7
  | .flag => 6
  | .signal => 5
  | .exited => 0

/-- The steps of a thread; a round takes nine. -/
def Thread.left (N : ℕ) (θ : Thread) : ℕ := 9 * (N - θ.i - θ.pc.inBody.toNat) + θ.pc.left

def MainPc.left : MainPc → ℕ
  | .create .producer => 4
  | .create .consumer => 3
  | .join .producer => 2
  | .join .consumer => 1
  | .ended => 0

def State.left (N : ℕ) (s : State) : ℕ :=
  (s.thread .producer).left N + (s.thread .consumer).left N + s.main.left

/-- A spurious wakeup. -/
def Label.isSpurious : Label → Bool
  | .spurious _ => true
  | _ => false

theorem left_set (s : State) (ρ : Role) (θ : Thread) :
    (s.set ρ θ).left N + (s.thread ρ).left N = s.left N + θ.left N := by
  have hmain : (s.set ρ θ).main = s.main := rfl
  unfold State.left
  rw [hmain]
  cases ρ
  · rw [s.set_thread_self, s.set_thread_ne θ (by decide : Role.consumer ≠ .producer)]
    omega
  · rw [s.set_thread_self, s.set_thread_ne θ (by decide : Role.producer ≠ .consumer)]
    omega

/-- A thread goes on to another place in its round. -/
theorem left_goto (s : State) (ρ : Role) (pc : Pc) (hb : pc.inBody = (s.thread ρ).pc.inBody) :
    (s.goto ρ pc).left N + (s.thread ρ).pc.left = s.left N + pc.left := by
  have hset := left_set (N := N) s ρ ⟨pc, (s.thread ρ).i⟩
  simp only [Thread.left, hb] at hset
  have hgoto : s.goto ρ pc = s.set ρ ⟨pc, (s.thread ρ).i⟩ := rfl
  rw [hgoto]
  omega

/-- A wakeup costs two steps: the mutex is taken and the flag tested once more. -/
theorem left_wake (s : State) (ρ : Role) : (s.wake ρ).left N ≤ s.left N + 2 := by
  unfold State.wake
  split
  · rename_i hpc
    have hgoto := left_goto (N := N) s ρ .woken (by rw [hpc]; rfl)
    rw [hpc] at hgoto
    simp only [Pc.left] at hgoto
    omega
  · omega

/-- **A step of a thread** leaves it, or the two together, less to do. -/
theorem left_move (h : Inv N s) (hm : Move N s ρ s') : s'.left N < s.left N := by
  have hround (pc : Pc) (hb : pc.inBody = (s.thread ρ).pc.inBody) (hlt : pc.left < (s.thread ρ).pc.left) :
      (s.goto ρ pc).left N < s.left N := by
    have hgoto := left_goto (N := N) s ρ pc hb
    omega
  obtain ⟨hlt, hle, -⟩ := h.range ρ
  cases hm with
  | enter hpc hi =>
    -- the round that begins is one of the nine-step rounds that were left
    have hset := left_set (N := N) s ρ ⟨.lock, (s.thread ρ).i⟩
    simp only [Thread.left, hpc, Pc.inBody, Pc.left, Bool.toNat_true, Bool.toNat_false] at hset
    have hgoto : s.goto ρ .lock = s.set ρ ⟨.lock, (s.thread ρ).i⟩ := rfl
    rw [hgoto]
    omega
  | leave hpc hi => exact hround .exited (by rw [hpc]; rfl) (by rw [hpc]; decide)
  | acquire hpc hl =>
    rcases hpc with hpc | hpc
    · exact hround .test (by rw [hpc]; rfl) (by rw [hpc]; decide)
    · exact hround .test (by rw [hpc]; rfl) (by rw [hpc]; decide)
  | sleep hpc hb => exact hround .asleep (by rw [hpc]; rfl) (by rw [hpc]; decide)
  | pass hpc hb => exact hround .access (by rw [hpc]; rfl) (by rw [hpc]; decide)
  | store rand hρ hpc => exact hround .flag (by rw [hpc]; rfl) (by rw [hpc]; decide)
  | print hρ hpc => exact hround .flag (by rw [hpc]; rfl) (by rw [hpc]; decide)
  | flag hpc => exact hround .signal (by rw [hpc]; rfl) (by rw [hpc]; decide)
  | signal hpc =>
    -- the signal pays for the wakeup
    have hgoto := left_goto (N := N) s ρ .unlock (by rw [hpc]; rfl)
    have hwake := left_wake (N := N) (s.goto ρ .unlock) ρ.other
    rw [hpc] at hgoto
    simp only [Pc.left] at hgoto
    omega
  | unlock hpc =>
    have hi : (s.thread ρ).i < N := hlt (by rw [hpc]; rfl)
    have hset := left_set (N := N) s ρ ⟨.top, (s.thread ρ).i + 1⟩
    simp only [Thread.left, hpc, Pc.inBody, Pc.left, Bool.toNat_true, Bool.toNat_false] at hset
    have hlock : State.left N { s.set ρ ⟨.top, (s.thread ρ).i + 1⟩ with lock := none } =
        (s.set ρ ⟨.top, (s.thread ρ).i + 1⟩).left N := rfl
    omega

theorem left_main (s : State) (μ : MainPc) : State.left N { s with main := μ } + s.main.left = s.left N + μ.left := by
  simp only [State.left]
  omega

/-- A step of the main thread leaves less to do. -/
theorem left_mainStep (h : Inv N s) (hst : s.mainStep = some s') : s'.left N < s.left N := by
  have hcreate (ρ : Role) (μ : MainPc) (hu : (s.thread ρ).pc = .unborn) (hμ : μ.left < s.main.left) :
      State.left N { s.goto ρ .top with main := μ } < s.left N := by
    have hgoto := left_goto (N := N) s ρ .top (by rw [hu]; rfl)
    have hleft : State.left N { s.goto ρ .top with main := μ } + s.main.left = (s.goto ρ .top).left N + μ.left :=
      left_main (s.goto ρ .top) μ
    rw [hu] at hgoto
    simp only [Pc.left] at hgoto
    omega
  have hjoin (μ : MainPc) (hμ : μ.left < s.main.left) : State.left N { s with main := μ } < s.left N := by
    have hleft := left_main (N := N) s μ
    omega
  unfold State.mainStep at hst
  rcases hm : s.main with (_ | _) | (_ | _) | _ <;> simp only [hm, reduceCtorEq, Option.some.injEq] at hst
  · subst hst
    exact hcreate .producer _ (h.unborn .producer (.inl hm)) (by rw [hm]; decide)
  · subst hst
    exact hcreate .consumer _ (h.unborn .consumer (.inr hm)) (by rw [hm]; decide)
  · split at hst
    · obtain rfl := Option.some.inj hst
      exact hjoin _ (by rw [hm]; decide)
    · cases hst
  · split at hst
    · obtain rfl := Option.some.inj hst
      exact hjoin _ (by rw [hm]; decide)
    · cases hst

/-- **What every step leaves to do.** -/
theorem left_step {l : Label} (h : Inv N s) (hst : s.step N l = some s') :
    s'.left N < s.left N + if l.isSpurious then 3 else 0 := by
  cases l with
  | main =>
    have hlt := left_mainStep h hst
    simpa [Label.isSpurious] using hlt
  | producer rand =>
    have hst : s.loop N .producer (·.store rand) = some s' := hst
    have hlt := left_move h (loop_move (.store rand rfl) hst)
    simpa [Label.isSpurious] using hlt
  | consumer =>
    have hst : s.loop N .consumer State.print = some s' := hst
    have hlt := left_move h (loop_move (.print rfl) hst)
    simpa [Label.isSpurious] using hlt
  | spurious ρ =>
    simp only [State.step] at hst
    split at hst
    · obtain rfl := Option.some.inj hst
      have hwake := left_wake (N := N) s ρ
      simp only [Label.isSpurious, if_true]
      omega
    · cases hst

/-! ## Where it comes to rest -/

/-- A thread that has not been created is still to be. -/
def State.Born (s : State) : Prop :=
  ∀ ρ, (s.thread ρ).pc = .unborn → s.main = .create .producer ∨ s.main = .create ρ

theorem set_unborn (h : ((s.set ρ θ).thread ρ').pc = .unborn) (hθ : θ.pc ≠ .unborn) :
    (s.thread ρ').pc = .unborn ∧ ρ' ≠ ρ := by
  by_cases hρ : ρ' = ρ
  · subst hρ
    rw [s.set_thread_self] at h
    exact absurd h hθ
  · rw [s.set_thread_ne θ hρ] at h
    exact ⟨h, hρ⟩

theorem wake_unborn (h : ((s.wake ρ).thread ρ').pc = .unborn) : (s.thread ρ').pc = .unborn := by
  unfold State.wake at h
  split at h
  · exact (set_unborn h nofun).1
  · exact h

theorem wake_main (s : State) (ρ : Role) : (s.wake ρ).main = s.main := by
  unfold State.wake
  split <;> rfl

/-- No thread is taken back. -/
theorem Move.unborn (hm : Move N s ρ s') (h : (s'.thread ρ').pc = .unborn) : (s.thread ρ').pc = .unborn := by
  cases hm with
  | signal hpc => exact (set_unborn (wake_unborn h) nofun).1
  | _ => exact (set_unborn h nofun).1

theorem Move.main_eq (hm : Move N s ρ s') : s'.main = s.main := by
  cases hm with
  | signal hpc => exact wake_main _ _
  | _ => rfl

theorem Move.born (hm : Move N s ρ s') (hb : s.Born) : s'.Born := by
  intro ρ' hu
  rw [hm.main_eq]
  exact hb ρ' (hm.unborn hu)

theorem born_mainStep (hb : s.Born) (hst : s.mainStep = some s') : s'.Born := by
  unfold State.mainStep at hst
  intro ρ hu
  rcases hm : s.main with (_ | _) | (_ | _) | _ <;> simp only [hm, reduceCtorEq, Option.some.injEq] at hst
  · subst hst
    have hne : ρ ≠ .producer := (set_unborn (s := s) hu nofun).2
    rw [Role.eq_other hne]
    exact .inr rfl
  · subst hst
    obtain ⟨hu, hne⟩ := set_unborn (s := s) hu nofun
    rcases hb ρ hu with h | h
    · cases hm.symm.trans h
    · cases hm.symm.trans h
      exact absurd rfl hne
  · split at hst
    · obtain rfl := Option.some.inj hst
      rcases hb ρ hu with h | h <;> cases hm.symm.trans h
    · cases hst
  · split at hst
    · obtain rfl := Option.some.inj hst
      rcases hb ρ hu with h | h <;> cases hm.symm.trans h
    · cases hst

theorem born_step {l : Label} (hb : s.Born) (hst : s.step N l = some s') : s'.Born := by
  cases l with
  | main => exact born_mainStep hb hst
  | producer rand =>
    have hst : s.loop N .producer (·.store rand) = some s' := hst
    exact (loop_move (.store rand rfl) hst).born hb
  | consumer =>
    have hst : s.loop N .consumer State.print = some s' := hst
    exact (loop_move (.print rfl) hst).born hb
  | spurious ρ =>
    simp only [State.step] at hst
    split at hst
    · obtain rfl := Option.some.inj hst
      intro ρ' hu
      rw [wake_main]
      exact hb ρ' (wake_unborn hu)
    · cases hst

theorem born_reach (h : (conditionVariable N).Reachable s) : s.Born :=
  h.inv (I := State.Born) (fun _ _ => .inl rfl) fun _ _ _ _ hb _ hst => born_step hb hst

/-- No thread can go on, nor can the main thread. -/
def State.Idle (N : ℕ) (s : State) : Prop := ∀ l : Label, l.isSpurious = false → s.step N l = none

/-- The step of a thread. -/
def Role.label : Role → Label
  | .producer => .producer 0
  | .consumer => .consumer

/-- **A thread is only ever stopped** by the mutex, the condition variable, or its end. -/
theorem stopped (h : s.step N ρ.label = none) :
    (s.thread ρ).pc = .unborn ∨ (s.thread ρ).pc = .asleep ∨ (s.thread ρ).pc = .exited ∨
      (s.lock ≠ none ∧ (s.thread ρ).pc.holds = false) := by
  have hloop : ∃ use, s.loop N ρ use = none := by
    cases ρ
    · exact ⟨(·.store 0), h⟩
    · exact ⟨State.print, h⟩
  obtain ⟨use, hloop⟩ := hloop
  unfold State.loop at hloop
  cases hpc : (s.thread ρ).pc <;> simp only [hpc, reduceCtorEq] at hloop
  case unborn => exact .inl rfl
  case asleep => exact .inr (.inl rfl)
  case exited => exact .inr (.inr (.inl rfl))
  case top => split at hloop <;> cases hloop
  case test => split at hloop <;> cases hloop
  case lock =>
    split at hloop
    · cases hloop
    · rename_i hl
      exact .inr (.inr (.inr ⟨hl, rfl⟩))
  case woken =>
    split at hloop
    · cases hloop
    · rename_i hl
      exact .inr (.inr (.inr ⟨hl, rfl⟩))

/-- **At rest everything is done.** -/
theorem idle_ended (h : Inv N s) (hb : s.Born) (hi : s.Idle N) : s.main = .ended ∧ ∀ ρ, (s.thread ρ).pc = .exited := by
  have hmain : s.mainStep = none := hi .main rfl
  have hstop (ρ : Role) : s.step N ρ.label = none := hi _ (by cases ρ <;> rfl)
  have hborn (ρ : Role) : (s.thread ρ).pc ≠ .unborn := by
    intro hu
    rcases hb ρ hu with hm | hm <;> simp only [State.mainStep, hm] at hmain
    · cases hmain
    · cases ρ <;> cases hmain
  -- who has the mutex can go on
  have hfree : s.lock = none := by
    cases hl : s.lock with
    | none => rfl
    | some ρ =>
      have hold : (s.thread ρ).pc.holds = true := (h.owner ρ).2 hl
      rcases stopped (hstop ρ) with hx | hx | hx | ⟨-, hx⟩
      · rw [hx] at hold
        cases hold
      · rw [hx] at hold
        cases hold
      · rw [hx] at hold
        cases hold
      · rw [hx] at hold
        cases hold
  have hall : ∀ ρ, (s.thread ρ).pc = .exited := by
    by_contra hn
    obtain ⟨ρ, hx, ha⟩ := h.awake (not_forall.1 hn)
    rcases stopped (hstop ρ) with hu | hs | hx' | ⟨hl, -⟩
    · exact hborn ρ hu
    · exact ha hs
    · exact hx hx'
    · exact hl hfree
  refine ⟨?_, hall⟩
  rcases hm : s.main with (_ | _) | (_ | _) | _ <;> simp [State.mainStep, hm, hall] at hmain ⊢

/-- **The program comes to an end**: with `k` spurious wakeups a run has at most
`18 * N + 8 + 3 * k` steps; and where only a spurious wakeup is possible, the main thread has
ended, and the consumer has printed the `N` values that the producer stored, in their order. -/
theorem terminates (N : ℕ) :
    (∀ ls s, (conditionVariable N).run Trans.Free .init ls = some s →
      ls.length ≤ 18 * N + 8 + 3 * ls.countP Label.isSpurious) ∧
    ∀ s, (conditionVariable N).Reachable s → s.Idle N →
      s.main = .ended ∧ s.stored.length = N ∧ s.printed = s.stored := by
  constructor
  · intro ls s hrun
    have hle := Trans.run_length_add_le (T := conditionVariable N) (I := Inv N) (fun _ _ _ h hst => inv_step h hst)
      (State.left N) Label.isSpurious 3 (fun _ _ _ h hst => left_step h hst) inv_init hrun
    have hstart : State.left N .init = 18 * N + 8 := by
      simp [State.left, State.init, Thread.left, MainPc.left, Pc.left, Pc.inBody]
      omega
    omega
  · intro s hr hi
    have hI := reach_inv hr
    obtain ⟨hend, hall⟩ := idle_ended hI (born_reach hr) hi
    have hmade (ρ : Role) : (s.thread ρ).made = N := by
      have hN := (hI.range ρ).exited (hall ρ)
      simp [Thread.made, hall ρ, Pc.past, hN]
    have hfree : s.lock = none := by
      cases hl : s.lock with
      | none => rfl
      | some ρ =>
        have hold : (s.thread ρ).pc.holds = true := (hI.owner ρ).2 hl
        rw [hall ρ] at hold
        cases hold
    have hslot := hI.slot_free hfree
    have hlen := congrArg List.length hslot
    have hst := hI.stored
    have hpr := hI.printed
    rw [hmade] at hst hpr
    refine ⟨hend, hst, ?_⟩
    rw [List.length_append, hst, hpr] at hlen
    have hnil : (if s.ready then [s.data] else []) = [] := List.length_eq_zero_iff.1 (by omega)
    rw [hslot, hnil, List.append_nil]

end Handoff
