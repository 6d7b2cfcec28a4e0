import LinuxExercises.Spec.Counter
import LinuxExercises.Sync.Weight

/-!
# What the unprotected counter can be in the end

* `Inv`: the counter and every value read from it are at most the number of increments made,
  so `main` prints at most `T * N`.
* `Low`: a value read behind the first increment of a thread is not zero, and the last
  write of all is a last increment of its thread, so `main` prints at least 2.
* `Reachable.advance`: threads that run alone lose nothing; `reach_between` overlaps two pairs
  of increments around such runs.
* `printed_iff`: **`main` can print exactly the numbers from 2 to `T * N`**.
-/

namespace Counter

open Sync

variable {T N : ℕ} {s s' : State T} {k : Fin T} {l : Label T}

/-! ## What one step does -/

inductive Move (N : ℕ) (s : State T) : State T → Prop where
  | stop : Move N s { s with main := .ended }
  | mutex : s.main = .initMutex → Move N s { s with main := .create 0 }
  | create (k : ℕ) (h : k < T) : s.main = .create k →
      Move N s { s.set ⟨k, h⟩ ⟨.top, 0⟩ with main := .create (k + 1) }
  | created : Move N s { s with main := .join 0 }
  | joined (k : ℕ) (h : k < T) : s.main = .join k → (s.thread ⟨k, h⟩).pc = .exited →
      Move N s { s with main := .join (k + 1) }
  | allJoined (k : ℕ) : s.main = .join k → ¬ k < T → Move N s { s with main := .print }
  | print : s.main = .print → Move N s { s with main := .ended, printed := some s.counter }
  | enter (k : Fin T) : (s.thread k).pc = .top → (s.thread k).i < N →
      Move N s (s.set k ⟨.load, (s.thread k).i⟩)
  | leave (k : Fin T) : (s.thread k).pc = .top → ¬ (s.thread k).i < N →
      Move N s (s.set k ⟨.exited, (s.thread k).i⟩)
  | load (k : Fin T) : (s.thread k).pc = .load →
      Move N s (s.set k ⟨.store s.counter, (s.thread k).i⟩)
  | store (k : Fin T) (temp : ℕ) : (s.thread k).pc = .store temp →
      Move N s { s.set k ⟨.top, (s.thread k).i + 1⟩ with counter := temp + 1 }

theorem step_move (h : s.step N l = some s') : s.main ≠ .ended ∧ Move N s s' := by
  unfold State.step at h
  split at h
  · cases h
  rename_i hm
  refine ⟨hm, ?_⟩
  cases l with
  | main ok =>
    simp only [State.mainStep] at h
    cases hpc : s.main with
    | initMutex =>
      simp only [hpc, Option.some.injEq] at h
      subst h
      cases ok
      · exact .stop
      · exact .mutex hpc
    | create k =>
      simp only [hpc] at h
      split at h
      · split at h <;> simp only [Option.some.injEq] at h <;> subst h
        · exact .create k _ hpc
        · exact .stop
      · simp only [Option.some.injEq] at h
        subst h
        exact .created
    | join k =>
      simp only [hpc] at h
      split at h
      · split at h
        · rename_i hk he
          simp only [Option.some.injEq] at h
          subst h
          exact .joined k hk hpc he
        · cases h
      · rename_i hk
        simp only [Option.some.injEq] at h
        subst h
        exact .allJoined k hpc hk
    | print =>
      simp only [hpc, Option.some.injEq] at h
      subst h
      exact .print hpc
    | ended => exact absurd hpc hm
  | thread k =>
    simp only [State.incrementCounter] at h
    cases hpc : (s.thread k).pc with
    | top =>
      simp only [hpc, Option.some.injEq] at h
      subst h
      by_cases hi : (s.thread k).i < N
      · rw [if_pos hi]; exact .enter k hpc hi
      · rw [if_neg hi]; exact .leave k hpc hi
    | load =>
      simp only [hpc, Option.some.injEq] at h
      subst h
      exact .load k hpc
    | store temp =>
      simp only [hpc, Option.some.injEq] at h
      subst h
      exact .store k temp hpc
    | unborn => simp [hpc] at h
    | exited => simp [hpc] at h

@[simp] theorem State.set_thread_self (s : State T) (k : Fin T) (θ : Thread) : (s.set k θ).thread k = θ :=
  Function.update_self ..

@[simp] theorem State.set_thread_ne (s : State T) {j k : Fin T} (θ : Thread) (h : j ≠ k) :
    (s.set k θ).thread j = s.thread j := Function.update_of_ne h ..

/-! ## From above -/

/-- The increments made. -/
def State.made (s : State T) : ℕ := total Thread.i s.thread

/-- What holds of thread `k` alone: its place and its loop variable fit, and what it has read
is at most the number of increments made. -/
structure Thread.Ok (N made : ℕ) (θ : Thread) : Prop where
  bound : θ.i ≤ N
  unborn : θ.pc = .unborn → θ.i = 0
  exited : θ.pc = .exited → θ.i = N
  load : θ.pc = .load → θ.i < N
  store : ∀ temp, θ.pc = .store temp → θ.i < N ∧ temp ≤ made

/-- **The counter counts no increment twice.** -/
structure Inv (N : ℕ) (s : State T) : Prop where
  counter : s.counter ≤ s.made
  threads : ∀ k, (s.thread k).Ok N s.made
  unborn : ∀ n, s.main = .initMutex ∨ s.main = .create n → ∀ k : Fin T,
    s.main = .initMutex ∨ n ≤ k → (s.thread k).pc = .unborn
  joined : ∀ n, s.main = .join n → ∀ k : Fin T, (k : ℕ) < n → (s.thread k).pc = .exited
  print : s.main = .print → ∀ k, (s.thread k).pc = .exited
  printed : ∀ v, s.printed = some v → v = s.counter ∧ s.main = .ended ∧ ∀ k, (s.thread k).pc = .exited

theorem made_set (s : State T) (k : Fin T) (θ : Thread) :
    (s.set k θ).made + (s.thread k).i = s.made + θ.i := total_update ..

theorem Thread.Ok.mono {θ : Thread} {m m' : ℕ} (h : θ.Ok N m) (hm : m ≤ m') : θ.Ok N m' :=
  ⟨h.bound, h.unborn, h.exited, h.load, fun temp ht => ⟨(h.store temp ht).1, (h.store temp ht).2.trans hm⟩⟩

/-- **A running thread moves**: it makes no increment undone. -/
theorem Inv.turn {θ : Thread} {c : ℕ} (h : Inv N s) (hm : s.main ≠ .ended) (hu : (s.thread k).pc ≠ .unborn)
    (he : (s.thread k).pc ≠ .exited) (hi : (s.thread k).i ≤ θ.i) (hθ : θ.Ok N (s.set k θ).made)
    (hc : c ≤ (s.set k θ).made) : Inv N { s.set k θ with counter := c } := by
  have hmade : s.made ≤ (s.set k θ).made := by
    have := made_set s k θ
    omega
  refine ⟨hc, fun j => ?_, fun n hn j hj => ?_, fun n hn j hj => ?_, fun hp j => ?_, fun v hv => ?_⟩
  · show ((s.set k θ).thread j).Ok N (s.set k θ).made
    by_cases hjk : j = k
    · subst hjk
      rwa [State.set_thread_self]
    · rw [State.set_thread_ne s θ hjk]
      exact (h.threads j).mono hmade
  · have hne : j ≠ k := fun e => hu (e ▸ h.unborn n hn j hj)
    simpa [hne] using h.unborn n hn j hj
  · have hne : j ≠ k := fun e => he (e ▸ h.joined n hn j hj)
    simpa [hne] using h.joined n hn j hj
  · exact absurd (h.print hp k) he
  · exact absurd (h.printed v hv).2.1 hm

theorem inv_init : Inv N (State.init : State T) := by
  refine ⟨Nat.zero_le _, fun k => ?_, fun n _ k _ => rfl, ?_, ?_, ?_⟩
  · exact ⟨Nat.zero_le _, fun _ => rfl, by simp [State.init], by simp [State.init], by simp [State.init]⟩
  all_goals simp [State.init]

theorem inv_step (h : Inv N s) (hs : s.step N l = some s') : Inv N s' := by
  obtain ⟨hm, hmove⟩ := step_move hs
  cases hmove with
  | stop =>
    refine ⟨h.counter, h.threads, ?_, ?_, ?_, fun v hv => absurd (h.printed v hv).2.1 hm⟩
    all_goals simp
  | mutex hpc =>
    refine ⟨h.counter, h.threads, ?_, ?_, ?_, fun v hv => absurd (h.printed v hv).2.1 hm⟩
    · intro n _ k _
      exact h.unborn 0 (.inl hpc) k (.inl hpc)
    all_goals simp
  | create k hk hpc =>
    -- the new thread has made no increment before
    have hborn := h.unborn k (.inr hpc)
    have hold : (s.thread ⟨k, hk⟩).i = 0 := (h.threads _).unborn (hborn ⟨k, hk⟩ (.inr le_rfl))
    have hmade : (s.set ⟨k, hk⟩ ⟨.top, 0⟩).made = s.made := by
      have := made_set s ⟨k, hk⟩ ⟨.top, 0⟩
      simp only at this
      omega
    refine ⟨h.counter.trans hmade.ge, fun j => ?_, fun n hn j hj => ?_, ?_, ?_, fun v hv => absurd (h.printed v hv).2.1 hm⟩
    · show ((s.set ⟨k, hk⟩ ⟨.top, 0⟩).thread j).Ok N (s.set ⟨k, hk⟩ ⟨.top, 0⟩).made
      by_cases hjk : j = ⟨k, hk⟩
      · subst hjk
        rw [State.set_thread_self]
        exact ⟨Nat.zero_le _, fun _ => rfl, by simp, by simp, by simp⟩
      · rw [State.set_thread_ne s _ hjk]
        exact (h.threads j).mono hmade.ge
    · simp only [reduceCtorEq, MainPc.create.injEq, false_or] at hn hj
      subst hn
      have hne : j ≠ ⟨k, hk⟩ := by
        rintro rfl
        simp at hj
      simpa [hne] using hborn j (.inr (by omega))
    all_goals simp
  | created =>
    refine ⟨h.counter, h.threads, ?_, ?_, ?_, fun v hv => absurd (h.printed v hv).2.1 hm⟩
    all_goals simp
  | joined k hk hpc he =>
    refine ⟨h.counter, h.threads, ?_, fun n hn j hj => ?_, ?_, fun v hv => absurd (h.printed v hv).2.1 hm⟩
    · simp
    · simp only [MainPc.join.injEq] at hn
      subst hn
      rcases Nat.lt_succ_iff_lt_or_eq.1 hj with hlt | rfl
      · exact h.joined k hpc j hlt
      · exact he
    · simp
  | allJoined k hpc hk =>
    refine ⟨h.counter, h.threads, ?_, ?_, fun _ j => ?_, fun v hv => absurd (h.printed v hv).2.1 hm⟩
    · simp
    · simp
    · exact h.joined k hpc j (by omega)
  | print hpc =>
    refine ⟨h.counter, h.threads, ?_, ?_, ?_, fun v hv => ?_⟩
    · simp
    · simp
    · simp
    · exact ⟨(Option.some.inj hv).symm, rfl, h.print hpc⟩
  | enter k hpc hi =>
    have hmade := made_set s k ⟨.load, (s.thread k).i⟩
    simp only [add_left_inj] at hmade
    refine h.turn hm (by simp [hpc]) (by simp [hpc]) le_rfl ?_ (h.counter.trans hmade.ge)
    exact ⟨hi.le, by simp, by simp, fun _ => hi, by simp⟩
  | leave k hpc hi =>
    have hmade := made_set s k ⟨.exited, (s.thread k).i⟩
    simp only [add_left_inj] at hmade
    have hb := (h.threads k).bound
    refine h.turn hm (by simp [hpc]) (by simp [hpc]) le_rfl ?_ (h.counter.trans hmade.ge)
    exact ⟨hb, by simp, fun _ => le_antisymm hb (not_lt.1 hi), by simp, by simp⟩
  | load k hpc =>
    have hmade := made_set s k ⟨.store s.counter, (s.thread k).i⟩
    simp only [add_left_inj] at hmade
    have hi := (h.threads k).load hpc
    refine h.turn hm (by simp [hpc]) (by simp [hpc]) le_rfl ?_ (h.counter.trans hmade.ge)
    refine ⟨hi.le, by simp, by simp, by simp, fun temp ht => ⟨hi, ?_⟩⟩
    simp only [Pc.store.injEq] at ht
    exact ht ▸ h.counter.trans hmade.ge
  | store k temp hpc =>
    -- what was read is one of the increments made, and this is one more
    obtain ⟨hi, htemp⟩ := (h.threads k).store temp hpc
    have hmade := made_set s k ⟨.top, (s.thread k).i + 1⟩
    simp only at hmade
    refine h.turn hm (by simp [hpc]) (by simp [hpc]) (Nat.le_succ _) ?_ (by omega)
    exact ⟨hi, by simp, by simp, by simp, by simp⟩

theorem inv_reach (h : (raceCondition T N).Reachable s) : Inv N s :=
  h.inv inv_init fun _ _ _ _ hi _ hs => inv_step hi hs

/-! ## From below -/

/-- **Once a thread has incremented, nobody reads zero any more**, and a counter below two
means that some thread has not finished. -/
structure Low (N : ℕ) (s : State T) : Prop where
  counter : ∀ k, 0 < (s.thread k).i → 0 < s.counter
  store : ∀ k temp, (s.thread k).pc = .store temp → 0 < (s.thread k).i → 0 < temp
  last : 2 ≤ s.counter ∨ ∃ k, (s.thread k).i < N

/-- A step that leaves the counter and the loop variables alone. -/
theorem Low.keep {pc : Pc} (h : Low N s) (hpc : ∀ temp, pc = .store temp → 0 < (s.thread k).i → 0 < temp) :
    Low N (s.set k ⟨pc, (s.thread k).i⟩) := by
  have hi (j : Fin T) : ((s.set k ⟨pc, (s.thread k).i⟩).thread j).i = (s.thread j).i := by
    by_cases hj : j = k
    · subst hj
      simp
    · simp [hj]
  refine ⟨fun j hj => h.counter j (hi j ▸ hj), fun j temp hj hp => ?_, ?_⟩
  · rw [hi] at hp
    by_cases hjk : j = k
    · subst hjk
      simp only [State.set_thread_self] at hj
      exact hpc temp hj hp
    · rw [State.set_thread_ne _ _ hjk] at hj
      exact h.store j temp hj hp
  · rcases h.last with hc | ⟨j, hj⟩
    · exact .inl hc
    · exact .inr ⟨j, (hi j).trans_lt hj⟩

theorem low_step (hN : 2 ≤ N) (hI : Inv N s) (h : Low N s) (hs : s.step N l = some s') : Low N s' := by
  cases (step_move hs).2 with
  | create k hk hpc =>
    have hold : (s.thread ⟨k, hk⟩).i = 0 :=
      (hI.threads _).unborn (hI.unborn k (.inr hpc) ⟨k, hk⟩ (.inr le_rfl))
    have hkeep : Low N (s.set ⟨k, hk⟩ ⟨.top, (s.thread ⟨k, hk⟩).i⟩) := h.keep (by simp)
    rw [hold] at hkeep
    exact ⟨hkeep.counter, hkeep.store, hkeep.last⟩
  | enter k hpc hi => exact h.keep (by simp)
  | leave k hpc hi => exact h.keep (by simp)
  | load k hpc =>
    refine h.keep fun temp ht hp => ?_
    simp only [Pc.store.injEq] at ht
    exact ht ▸ h.counter k hp
  | store k temp hpc =>
    refine ⟨fun _ _ => Nat.succ_pos _, fun j temp' hj hp => ?_, ?_⟩
    · have hjk : j ≠ k := by
        rintro rfl
        simp at hj
      simp only [State.set_thread_ne _ _ hjk] at hj hp
      exact h.store j temp' hj hp
    · -- a first increment is not the last one of its thread
      by_cases hi : 0 < (s.thread k).i
      · have := h.store k temp hpc hi
        exact .inl (by show 2 ≤ temp + 1; omega)
      · refine .inr ⟨k, ?_⟩
        simp only [State.set_thread_self]
        omega
  | _ => exact ⟨h.counter, h.store, h.last⟩

theorem low_reach (hT : 0 < T) (hN : 2 ≤ N) (h : (raceCondition T N).Reachable s) : Low N s := by
  refine h.inv ?_ fun s l s' hr hl _ hs => low_step hN (inv_reach hr) hl hs
  refine ⟨fun k hk => absurd hk (lt_irrefl 0), fun k temp hk => ?_, .inr ⟨⟨0, hT⟩, ?_⟩⟩
  · cases hk
  · exact Nat.lt_of_lt_of_le Nat.zero_lt_two hN

/-- **What is printed lies between 2 and the number of increments.** -/
theorem printed_between (hT : 0 < T) (hN : 2 ≤ N) (h : (raceCondition T N).Reachable s) {v : ℕ}
    (hv : s.printed = some v) : 2 ≤ v ∧ v ≤ T * N := by
  have hI := inv_reach h
  obtain ⟨rfl, -, hall⟩ := hI.printed v hv
  have hi (k : Fin T) : (s.thread k).i = N := (hI.threads k).exited (hall k)
  constructor
  · rcases (low_reach hT hN h).last with hc | ⟨k, hk⟩
    · exact hc
    · exact absurd (hi k) hk.ne
  · have hmade : s.made = T * N := by
      simp [State.made, total, hi]
    exact hI.counter.trans hmade.le

/-! ## Runs -/

variable {e : Fin T → Thread} {c i m : ℕ}

/-- With all threads created, the program can get to these threads and this counter. -/
def Can (T N : ℕ) (e : Fin T → Thread) (c : ℕ) : Prop :=
  (raceCondition T N).Reachable ⟨c, e, .join 0, none⟩

theorem Can.thread (h : Can T N e c) {s' : State T}
    (hs : State.incrementCounter N ⟨c, e, .join 0, none⟩ k = some s') : (raceCondition T N).Reachable s' := by
  have hstep : (raceCondition T N).step ⟨c, e, .join 0, none⟩ (.thread k) = some s' := by
    simpa [raceCondition, State.step] using hs
  exact h.step trivial hstep

/-- A thread tests and reads. -/
theorem Can.load (h : Can T N e c) (hk : e k = ⟨.top, i⟩) (hi : i < N) :
    Can T N (Function.update e k ⟨.store c, i⟩) c := by
  have htest : Can T N (Function.update e k ⟨.load, i⟩) c :=
    h.thread (k := k) (by simp [State.incrementCounter, State.set, hk, hi])
  exact htest.thread (k := k) (by simp [State.incrementCounter, State.set])

/-- A thread writes. -/
theorem Can.store {t : ℕ} (h : Can T N e c) (hk : e k = ⟨.store t, i⟩) :
    Can T N (Function.update e k ⟨.top, i + 1⟩) (t + 1) :=
  h.thread (k := k) (by simp [State.incrementCounter, State.set, hk])

/-- A thread that runs alone loses nothing. -/
theorem Can.run (h : Can T N e c) (hk : e k = ⟨.top, i⟩) (hm : i + m ≤ N) :
    Can T N (Function.update e k ⟨.top, i + m⟩) (c + m) := by
  induction m with
  | zero => rwa [Nat.add_zero, Nat.add_zero, ← hk, Function.update_eq_self]
  | succ m ih =>
    have hrun := (ih (by omega)).load (k := k) (i := i + m) (Function.update_self ..) (by omega)
    simpa [Nat.add_assoc] using hrun.store (k := k) (t := c + m) (i := i + m) (Function.update_self ..)

/-- Neither do several that run one after the other. -/
theorem Can.runs {S : Finset (Fin T)} {n m : Fin T → ℕ} (h : Can T N e c)
    (hS : ∀ k ∈ S, e k = ⟨.top, n k⟩ ∧ n k + m k ≤ N) :
    Can T N (fun k => if k ∈ S then ⟨.top, n k + m k⟩ else e k) (c + ∑ k ∈ S, m k) := by
  induction S using Finset.induction_on with
  | empty => simpa using h
  | @insert k S hk ih =>
    obtain ⟨hek, hmk⟩ := hS k (Finset.mem_insert_self k S)
    have hrun := (ih fun j hj => hS j (Finset.mem_insert_of_mem hj)).run (k := k) (i := n k) (m := m k) (by simp [hk, hek]) hmk
    have heq : Function.update (fun j => if j ∈ S then (⟨.top, n j + m j⟩ : Thread) else e j) k ⟨.top, n k + m k⟩ =
        fun j => if j ∈ insert k S then ⟨.top, n j + m j⟩ else e j := by
      funext j
      by_cases hj : j = k
      · subst hj
        simp
      · simp [hj]
    rw [heq] at hrun
    rw [Finset.sum_insert hk]
    convert hrun using 1
    omega

/-- `main` creates all threads. -/
theorem can_start (T N : ℕ) : Can T N (fun _ => ⟨.top, 0⟩) 0 := by
  have hcreate (n : ℕ) (hn : n ≤ T) : (raceCondition T N).Reachable
      ⟨0, fun k => if (k : ℕ) < n then ⟨.top, 0⟩ else ⟨.unborn, 0⟩, .create n, none⟩ := by
    induction n with
    | zero =>
      have hinit : (raceCondition T N).step State.init (.main true) =
          some ⟨0, fun _ => ⟨.unborn, 0⟩, .create 0, none⟩ := rfl
      simpa using Trans.Reach.init.step trivial hinit
    | succ n ih =>
      refine (ih (by omega)).step (l := .main true) trivial ?_
      have hlt : n < T := hn
      simp only [raceCondition, State.step, reduceCtorEq, if_false, State.mainStep, dif_pos hlt, if_true, State.set,
        Option.some.injEq, State.mk.injEq, and_true, true_and]
      funext k
      by_cases hk : k = ⟨n, hlt⟩
      · subst hk
        simp
      · have hne : (k : ℕ) ≠ n := fun h => hk (Fin.ext h)
        rw [Function.update_of_ne hk]
        by_cases hkn : (k : ℕ) < n
        · rw [if_pos hkn, if_pos (by omega)]
        · rw [if_neg hkn, if_neg (by omega)]
  refine (hcreate T le_rfl).step (l := .main true) trivial ?_
  simp [raceCondition, State.step, State.mainStep]

/-- Finished threads exit, and `main` prints. -/
theorem Can.print (h : Can T N (fun _ => ⟨.top, N⟩) c) :
    ∃ s, (raceCondition T N).Reachable s ∧ s.printed = some c := by
  have hexit (n : ℕ) (hn : n ≤ T) : Can T N (fun k => if (k : ℕ) < n then ⟨.exited, N⟩ else ⟨.top, N⟩) c := by
    induction n with
    | zero => simpa using h
    | succ n ih =>
      refine (ih (by omega)).thread (k := ⟨n, hn⟩) ?_
      simp only [State.incrementCounter, State.set, lt_irrefl, if_false, Option.some.injEq, State.mk.injEq, and_true,
        true_and]
      funext k
      by_cases hk : k = ⟨n, hn⟩
      · subst hk
        simp
      · have hne : (k : ℕ) ≠ n := fun h => hk (Fin.ext h)
        rw [Function.update_of_ne hk]
        by_cases hkn : (k : ℕ) < n
        · rw [if_pos hkn, if_pos (by omega)]
        · rw [if_neg hkn, if_neg (by omega)]
  have hjoin (n : ℕ) (hn : n ≤ T) : (raceCondition T N).Reachable ⟨c, fun _ => ⟨.exited, N⟩, .join n, none⟩ := by
    induction n with
    | zero =>
      have := hexit T le_rfl
      simpa [Can] using this
    | succ n ih =>
      refine (ih (by omega)).step (l := .main true) trivial ?_
      have hlt : n < T := hn
      simp [raceCondition, State.step, State.mainStep, hlt]
  have hprint : (raceCondition T N).Reachable ⟨c, fun _ => ⟨.exited, N⟩, .print, none⟩ := by
    refine (hjoin T le_rfl).step (l := .main true) trivial ?_
    simp [raceCondition, State.step, State.mainStep]
  exact ⟨_, hprint.step (l := .main true) trivial rfl, rfl⟩

/-- Any number of increments can be shared out. -/
theorem exists_share (S : Finset (Fin T)) {a : ℕ} (ha : a ≤ S.card * N) :
    ∃ m : Fin T → ℕ, (∀ k, m k ≤ N) ∧ ∑ k ∈ S, m k = a := by
  induction S using Finset.induction_on generalizing a with
  | empty =>
    have h0 : a = 0 := by simpa using ha
    exact ⟨fun _ => 0, fun _ => Nat.zero_le _, by simp [h0]⟩
  | @insert k S hk ih =>
    rw [Finset.card_insert_of_notMem hk, Nat.succ_mul] at ha
    obtain ⟨m, hm, hsum⟩ := ih (a := a - min a N) (by omega)
    refine ⟨Function.update m k (min a N), fun j => ?_, ?_⟩
    · by_cases hj : j = k
      · subst hj
        simp
      · simpa [hj] using hm j
    · rw [Finset.sum_insert hk, Function.update_self]
      have hrest : ∑ j ∈ S, Function.update m k (min a N) j = ∑ j ∈ S, m j :=
        Finset.sum_congr rfl fun j hj => Function.update_of_ne (fun e : j = k => hk (e ▸ hj)) _ _
      omega

/-- **Two overlaps.** Thread `x` reads zero, and its first write undoes `a` increments of the
others; thread `y` reads before its last increment, and its write undoes `b` increments of `x`. -/
theorem can_overlap {x y : Fin T} (hxy : x ≠ y) {a b : ℕ} (ha : a ≤ (T - 2) * N + (N - 1)) (hb : b ≤ N - 1)
    (hN : 2 ≤ N) : Can T N (fun _ => ⟨.top, N⟩) (T * N - (a + b)) := by
  set R : Finset (Fin T) := (Finset.univ.erase x).erase y
  have hcard : R.card = T - 2 := by
    rw [Finset.card_erase_of_mem (by simp [hxy.symm]), Finset.card_erase_of_mem (Finset.mem_univ x)]
    simp
    omega
  have hxR : x ∉ R := by simp [R]
  have hyR : y ∉ R := by simp [R]
  have hR {k : Fin T} (hkx : k ≠ x) (hky : k ≠ y) : k ∈ R := by simp [R, hkx, hky]
  set a₁ := min a (N - 1) with ha₁
  obtain ⟨m, hm, hsum⟩ := exists_share (N := N) R (a := a - a₁) (by rw [hcard]; omega)
  -- `x` reads; `y` and the others make `a` increments; `x` writes
  have h₁ := (can_start T N).load (k := x) rfl (by omega)
  have h₂ := h₁.run (k := y) (i := 0) (m := a₁) (by simp [hxy.symm]) (by omega)
  have h₃ := h₂.runs (S := R) (n := fun _ => 0) (m := m) fun k hk => by
    have hkx : k ≠ x := fun e => hxR (e ▸ hk)
    have hky : k ≠ y := fun e => hyR (e ▸ hk)
    exact ⟨by simp [hkx, hky], by simpa using hm k⟩
  have h₄ := h₃.store (k := x) (t := 0) (i := 0) (by simp [hxR, hxy])
  -- the others finish, `y` but for its last increment
  have h₅ := h₄.runs (S := R) (n := m) (m := fun k => N - m k) fun k hk => by
    have hkx : k ≠ x := fun e => hxR (e ▸ hk)
    have := hm k
    exact ⟨by simp [hkx, hk], by omega⟩
  have h₆ := h₅.run (k := y) (i := a₁) (m := N - 1 - a₁) (by simp [hyR, hxy.symm]) (by omega)
  -- `y` reads; `x` makes `b` increments; `y` writes, and `x` finishes
  have h₇ := h₆.load (k := y) (i := a₁ + (N - 1 - a₁)) (Function.update_self ..) (by omega)
  have h₈ := h₇.run (k := x) (i := 1) (m := b) (by simp [hxR, hxy]) (by omega)
  have h₉ := h₈.store (k := y) (t := 0 + 1 + ∑ k ∈ R, (N - m k) + (N - 1 - a₁)) (i := a₁ + (N - 1 - a₁))
    (by simp [hxy.symm])
  have h := h₉.run (k := x) (i := 1 + b) (m := N - 1 - b) (by simp [hxy]) (by omega)
  convert h using 1
  · funext k
    by_cases hkx : k = x
    · subst hkx
      simp only [Function.update_self, Thread.mk.injEq, true_and]
      omega
    · by_cases hky : k = y
      · subst hky
        simp only [Function.update_of_ne hkx, Function.update_self, Thread.mk.injEq, true_and]
        omega
      · have := hm k
        simp only [Function.update_of_ne hkx, Function.update_of_ne hky, if_pos (hR hkx hky), Thread.mk.injEq, true_and]
        omega
  · have hrest : ∑ k ∈ R, (N - m k) + (a - a₁) = (T - 2) * N := by
      rw [← hsum, ← Finset.sum_add_distrib, Finset.sum_congr rfl fun k _ => Nat.sub_add_cancel (hm k)]
      simp [hcard]
    have hT : 2 ≤ T := by
      have h2 : ({x, y} : Finset (Fin T)).card ≤ T := by
        simpa using Finset.card_le_univ ({x, y} : Finset (Fin T))
      rwa [Finset.card_pair hxy] at h2
    have hall : T * N = (T - 2) * N + N + N := by
      obtain ⟨n, rfl⟩ := Nat.exists_eq_add_of_le hT
      rw [Nat.add_sub_cancel_left, Nat.add_mul, Nat.two_mul]
      omega
    omega

/-- **What the race can print**: with at least two threads and two increments each, `main`
can print a number if and only if it lies between 2 and the number of increments. -/
theorem printed_iff (hT : 2 ≤ T) (hN : 2 ≤ N) (v : ℕ) :
    (∃ s, (raceCondition T N).Reachable s ∧ s.printed = some v) ↔ 2 ≤ v ∧ v ≤ T * N := by
  constructor
  · rintro ⟨s, hs, hv⟩
    exact printed_between (by omega) hN hs hv
  · rintro ⟨h2, hv⟩
    have hx : (⟨0, by omega⟩ : Fin T) ≠ ⟨1, by omega⟩ := by simp
    have hall : T * N = (T - 2) * N + N + N := by
      obtain ⟨n, rfl⟩ := Nat.exists_eq_add_of_le hT
      rw [Nat.add_sub_cancel_left, Nat.add_mul, Nat.two_mul]
      omega
    -- `T * N - v` increments are to be lost
    have h := can_overlap hx (a := T * N - v - min (T * N - v) (N - 1)) (b := min (T * N - v) (N - 1)) (by omega) (by omega) hN
    have hlost : T * N - (T * N - v - min (T * N - v) (N - 1) + min (T * N - v) (N - 1)) = v := by omega
    rw [hlost] at h
    exact h.print

/-- The program as it is: three million increments, and `main` may print 2. -/
theorem printed_iff_two : ∃ s, (raceCondition 3 1000000).Reachable s ∧ s.printed = some 2 :=
  (printed_iff (by decide) (by decide) 2).2 ⟨by decide, by decide⟩

end Counter
