import LinuxExercises.Proof.Wakeup

/-!
# When `nConsumer.c` comes to an end

* `State.left`: the steps that are left. A round pays for its own steps and for the two more that
  its signal may cause each sleeper; a spurious wakeup pays for nothing.
* `runs_bounded`: with `k` spurious wakeups, no run has more than `z.steps + 3 * k` steps.
* `ends_iff`: every run that can go on only by spurious wakeups has ended if and only if what the
  consumers leave over fits into the buffer; otherwise producers wait for ever.
-/

namespace NConsumer

open Sync

variable {z : Sizes} {s s' : State z} {t : z.Tid} {θ : Thread}

/-! ## What is left to do -/

/-- The number of threads. -/
def Sizes.threads (z : Sizes) : ℕ := z.numProducers + z.numConsumers

/-- The steps to the end of the round, at most, if a signal may cause `w` steps. -/
def Pc.left (w : ℕ) : Pc → ℕ
  | .unborn | .unlock => 2
  | .top => 1
  | .signal => w + 3
  | .tally => w + 4
  | .advance => w + 5
  | .asleep | .access => w + 6
  | .test => w + 7
  | .lock | .woken => w + 8
  | .exited => 0

/-- The steps of a round. -/
def Sizes.round (z : Sizes) : ℕ := 2 * z.threads + 8

def Thread.left (z : Sizes) (θ : Thread) : ℕ :=
  z.round * (z.bound θ.role - θ.i - θ.pc.inBody.toNat) + θ.pc.left (2 * z.threads)

def MainPc.left (z : Sizes) : MainPc → ℕ
  | .create k => z.threads - k + z.threads + 2
  | .join k => z.threads - k + 1
  | .ended => 0

def State.left (s : State z) : ℕ := total (Thread.left z) s.thread + s.main.left z

/-- The steps of the whole program. -/
def Sizes.steps (z : Sizes) : ℕ :=
  z.round * (z.numProducers * z.bound .producer + z.numConsumers * z.bound .consumer) + 4 * z.threads + 2

/-- A spurious wakeup. -/
def Label.isSpurious : Label z → Bool
  | .spurious _ => true
  | _ => false

theorem left_set (s : State z) (t : z.Tid) (θ : Thread) :
    (s.set t θ).left + (s.thread t).left z = s.left + θ.left z := by
  have hupdate := total_update (w := Thread.left z) (f := s.thread) t θ
  simp only [State.left, State.set]
  omega

/-- A thread goes on to another place in its round. -/
theorem left_at (s : State z) (t : z.Tid) (hr : θ.role = (s.thread t).role) (hi : θ.i = (s.thread t).i)
    (hb : θ.pc.inBody = (s.thread t).pc.inBody) :
    (s.set t θ).left + (s.thread t).pc.left (2 * z.threads) = s.left + θ.pc.left (2 * z.threads) := by
  have hset := left_set s t θ
  simp only [Thread.left, hr, hi, hb] at hset
  omega

/-! ## Wakeups -/

/-- What a thread may have to do if it is woken. -/
def Thread.roused (z : Sizes) (θ : Thread) : ℕ := θ.left z + if θ.pc = .asleep then 2 else 0

theorem roused_wake (s : State z) (t : z.Tid) :
    total (Thread.roused z) (s.wake t).thread = total (Thread.roused z) s.thread := by
  unfold State.wake
  split
  · rename_i hpc
    have hsame : Thread.roused z ⟨(s.thread t).role, .woken, (s.thread t).i, (s.thread t).item⟩ =
        Thread.roused z (s.thread t) := by
      simp only [Thread.roused, Thread.left, hpc, Pc.inBody, Pc.left, reduceCtorEq, if_true, if_false]
      omega
    have hupdate := total_update (w := Thread.roused z) (f := s.thread) t
      ⟨(s.thread t).role, .woken, (s.thread t).i, (s.thread t).item⟩
    rw [hsame] at hupdate
    exact Nat.add_right_cancel hupdate
  · rfl

theorem roused_wakeAll (s : State z) (ws : List z.Tid) :
    total (Thread.roused z) (ws.foldl State.wake s).thread = total (Thread.roused z) s.thread := by
  induction ws generalizing s with
  | nil => rfl
  | cons u us ih => exact (ih (s.wake u)).trans (roused_wake s u)

theorem main_wakeAll (s : State z) (ws : List z.Tid) : (ws.foldl State.wake s).main = s.main := by
  induction ws generalizing s with
  | nil => rfl
  | cons u us ih =>
    refine (ih (s.wake u)).trans ?_
    unfold State.wake
    split <;> rfl

/-- **The wakeups of one signal** cost each thread two steps at most: the mutex is taken and the
condition tested once more. -/
theorem left_wakeAll (s : State z) (ws : List z.Tid) : (ws.foldl State.wake s).left ≤ s.left + 2 * z.threads := by
  have hle : total (Thread.left z) (ws.foldl State.wake s).thread ≤
      total (Thread.roused z) (ws.foldl State.wake s).thread :=
    Finset.sum_le_sum fun u _ => Nat.le_add_right _ _
  have hge : total (Thread.roused z) s.thread ≤ total (Thread.left z) s.thread + 2 * z.threads := by
    have hsum : ∑ u : z.Tid, ((s.thread u).left z + 2) = total (Thread.left z) s.thread + 2 * z.threads := by
      rw [Finset.sum_add_distrib]
      simp [total, Sizes.threads, Nat.mul_comm]
    rw [← hsum]
    refine Finset.sum_le_sum fun u _ => ?_
    unfold Thread.roused
    split <;> omega
  have hsame := roused_wakeAll s ws
  have hmain := main_wakeAll s ws
  unfold State.left
  rw [hmain]
  omega

/-! ## Every step leaves less -/

/-- **A step of a thread**, signals apart. -/
theorem left_move (h : Live s) (hm : Move s t s') : s'.left < s.left := by
  -- a step inside a round
  have hround {x : State z} {θ : Thread} (hx : x.thread = Function.update s.thread t θ) (hxm : x.main = s.main)
      (hr : θ.role = (s.thread t).role) (hi : θ.i = (s.thread t).i) (hb : θ.pc.inBody = (s.thread t).pc.inBody)
      (hlt : θ.pc.left (2 * z.threads) < (s.thread t).pc.left (2 * z.threads)) : x.left < s.left := by
    have hat := left_at s t hr hi hb
    have hsame : x.left = (s.set t θ).left := by
      simp only [State.left, State.set, hx, hxm]
    omega
  obtain ⟨-, hlt, -⟩ := h.range t
  cases hm with
  | enter item hpc hi =>
    -- the round that begins is one of the rounds that were left
    have hset := left_set s t ⟨(s.thread t).role, .lock, (s.thread t).i, item⟩
    obtain ⟨n, hn⟩ : ∃ n, z.bound (s.thread t).role - (s.thread t).i = n + 1 := Nat.exists_eq_succ_of_ne_zero (by omega)
    simp only [Thread.left, hpc, Pc.inBody, Pc.left, Bool.toNat_true, Bool.toNat_false, hn, Nat.add_sub_cancel,
      Nat.sub_zero, Nat.mul_succ, Sizes.round] at hset
    show (s.set t ⟨(s.thread t).role, .lock, (s.thread t).i, item⟩).left < s.left
    omega
  | leave hpc hi => exact hround rfl rfl rfl rfl (by rw [hpc]; rfl) (by rw [hpc]; simp [Pc.left])
  | acquire hpc hl =>
    rcases hpc with hpc | hpc
    · exact hround rfl rfl rfl rfl (by rw [hpc]; rfl) (by rw [hpc]; simp [Pc.left])
    · exact hround rfl rfl rfl rfl (by rw [hpc]; rfl) (by rw [hpc]; simp [Pc.left])
  | sleep hpc hb => exact hround rfl rfl rfl rfl (by rw [hpc]; rfl) (by rw [hpc]; simp [Pc.left])
  | pass hpc hb => exact hround rfl rfl rfl rfl (by rw [hpc]; rfl) (by rw [hpc]; simp [Pc.left])
  | access hpc =>
    unfold State.access
    cases hr : (s.thread t).role <;> simp only [hr]
    · exact hround rfl rfl rfl rfl (by rw [hpc]; rfl) (by rw [hpc]; simp [Pc.left])
    · exact hround (θ := ⟨.consumer, .advance, (s.thread t).i, _⟩) rfl rfl hr.symm rfl (by rw [hpc]; rfl)
        (by rw [hpc]; simp [Pc.left])
  | advance hpc =>
    unfold State.advance
    cases (s.thread t).role
    · exact hround rfl rfl rfl rfl (by rw [hpc]; rfl) (by rw [hpc]; simp [Pc.left])
    · exact hround rfl rfl rfl rfl (by rw [hpc]; rfl) (by rw [hpc]; simp [Pc.left])
  | tally hpc =>
    unfold State.tally
    cases (s.thread t).role
    · exact hround rfl rfl rfl rfl (by rw [hpc]; rfl) (by rw [hpc]; simp [Pc.left])
    · exact hround rfl rfl rfl rfl (by rw [hpc]; rfl) (by rw [hpc]; simp [Pc.left])
  | unlock hpc =>
    have hi := hlt (by rw [hpc]; rfl)
    have hset := left_set s t ⟨(s.thread t).role, .top, (s.thread t).i + 1, (s.thread t).item⟩
    simp only [Thread.left, hpc, Pc.inBody, Pc.left, Bool.toNat_true, Bool.toNat_false, Nat.sub_zero,
      Nat.sub_sub] at hset
    show (s.set t ⟨(s.thread t).role, .top, (s.thread t).i + 1, (s.thread t).item⟩).left < s.left
    omega

/-- A thread that the main thread is about to create is one of its threads. -/
theorem nth_lt {k : ℕ} (h : nth z k = some t) : k < z.threads := by
  obtain ⟨j, hj, hjt⟩ := exists_nth t
  rw [nth_inj h hjt]
  exact hj

/-- A step of the main thread. -/
theorem left_mainStep (hI : Inv s) (hst : s.mainStep = some s') : s'.left < s.left := by
  have hmain (μ : MainPc) (hμ : μ.left z < s.main.left z) : State.left { s with main := μ } < s.left := by
    simp only [State.left]
    omega
  unfold State.mainStep at hst
  cases hm : s.main with
  | create k =>
    cases hn : nth z k <;> simp only [hm, hn, Option.some.injEq] at hst <;> subst hst
    · exact hmain _ (by rw [hm]; simp only [MainPc.left]; omega)
    · rename_i t
      have hpc := hI.unborn k hm k le_rfl t hn
      have hat := left_at (θ := ⟨(s.thread t).role, .top, (s.thread t).i, (s.thread t).item⟩) s t rfl rfl
        (by rw [hpc]; rfl)
      have hlt := nth_lt hn
      rw [hpc] at hat
      simp only [Pc.left, State.left, State.set] at hat
      simp only [State.left, State.goto, State.set, hm, MainPc.left] at hat ⊢
      omega
  | join k =>
    cases hn : nth z k <;> simp only [hm, hn] at hst
    · obtain rfl := Option.some.inj hst
      exact hmain _ (by rw [hm]; simp only [MainPc.left]; omega)
    · have hlt := nth_lt hn
      split at hst
      · obtain rfl := Option.some.inj hst
        exact hmain _ (by rw [hm]; simp only [MainPc.left]; omega)
      · cases hst
  | ended => simp [hm] at hst

/-- **What every step leaves to do.** -/
theorem left_step {l : Label z} (hI : Inv s) (h : Live s) (hst : s.step l = some s') :
    s'.left < s.left + if l.isSpurious then 3 else 0 := by
  cases l with
  | main =>
    have hlt := left_mainStep hI hst
    simpa [Label.isSpurious] using hlt
  | thread t item =>
    have hlt := left_move h (threadStep_move hst)
    simpa [Label.isSpurious] using hlt
  | signal t ws =>
    simp only [State.step] at hst
    split at hst
    · rename_i hc
      obtain rfl := Option.some.inj hst
      have hat := left_at (θ := ⟨(s.thread t).role, .unlock, (s.thread t).i, (s.thread t).item⟩) s t rfl rfl
        (by rw [hc.1]; rfl)
      have hwake := left_wakeAll (s.goto t .unlock) ws
      have hgoto : s.goto t .unlock = s.set t ⟨(s.thread t).role, .unlock, (s.thread t).i, (s.thread t).item⟩ := rfl
      rw [hc.1] at hat
      rw [hgoto] at hwake ⊢
      simp only [Pc.left, Label.isSpurious] at hat ⊢
      simp only [Bool.false_eq_true, if_false]
      omega
    · cases hst
  | spurious t =>
    simp only [State.step] at hst
    split at hst
    · rename_i hpc
      obtain rfl := Option.some.inj hst
      have hat := left_at (θ := ⟨(s.thread t).role, .woken, (s.thread t).i, (s.thread t).item⟩) s t rfl rfl
        (by rw [hpc]; rfl)
      have hwake : s.wake t = s.set t ⟨(s.thread t).role, .woken, (s.thread t).i, (s.thread t).item⟩ := if_pos hpc
      rw [hpc] at hat
      rw [hwake]
      simp only [Pc.left, Label.isSpurious, if_true] at hat ⊢
      omega
    · cases hst

theorem left_init (z : Sizes) : State.left (.init z) = z.steps := by
  have hthread (ρ : Role) : Thread.left z ⟨ρ, .unborn, 0, 0⟩ = z.round * z.bound ρ + 2 := by
    simp [Thread.left, Pc.inBody, Pc.left]
  have hsum : total (Thread.left z) (State.init z).thread =
      z.round * (z.numProducers * z.bound .producer + z.numConsumers * z.bound .consumer) + 2 * z.threads := by
    unfold total State.init
    have hfin (n b : ℕ) : ∑ _t : Fin n, b = n * b := by simp
    simp only [hthread, Fintype.sum_sum_type, roleOf, hfin, Nat.mul_add, Nat.mul_left_comm _ z.round, Sizes.threads]
    omega
  have hmain : (State.init z).main.left z = 2 * z.threads + 2 := by
    simp only [State.init, MainPc.left]
    omega
  unfold State.left Sizes.steps
  omega

/-! ## Where it comes to rest -/

/-- Only spurious wakeups are possible. -/
def State.Idle (s : State z) : Prop := ∀ l : Label z, l.isSpurious = false → s.step l = none

/-- **A run comes to its end** but for spurious wakeups: with `k` of them it has at most
`z.steps + 3 * k` steps. -/
theorem runs_bounded (hpos : 1 ≤ z.bufferSize) (ls : List (Label z)) (s : State z)
    (h : (nConsumer z).run Trans.Free (.init z) ls = some s) :
    ls.length ≤ z.steps + 3 * ls.countP Label.isSpurious := by
  have hle := Trans.run_length_add_le (T := nConsumer z) (I := fun s => Inv s ∧ Live s)
    (fun _ _ _ hi hst => ⟨inv_step hi.1 hst, live_step hi.1 hi.2 hst⟩) State.left Label.isSpurious 3
    (fun _ _ _ hi hst => left_step hi.1 hi.2 hst) ⟨inv_init hpos, live_init⟩ h
  have hstart := left_init z
  omega

theorem runs_bounded_shipped : shippedRun.length ≤ shipped.steps + 3 * shippedRun.countP Label.isSpurious :=
  runs_bounded (by decide) shippedRun _ (Trans.run_eq_after (by decide +kernel))

/-- Where the leftovers fit, a program at rest has ended. -/
theorem idle_ended (hpos : 1 ≤ z.bufferSize) (hB : z.numProducers * z.numItems % z.numConsumers ≤ z.bufferSize)
    (hI : Inv s) (h : Live s) (hi : s.Idle) : s.main = .ended := by
  have hmain : s.mainStep = none := hi .main rfl
  cases hm : s.main with
  | ended => rfl
  | create k =>
    simp only [State.mainStep, hm] at hmain
    split at hmain <;> cases hmain
  | join k =>
    by_cases hx : ∃ t, (s.thread t).pc ≠ .exited
    · -- an unfinished thread that is awake can go on
      obtain ⟨t, ht, hta⟩ := exists_awake hI h hpos hB hx
      have hborn : (s.thread t).pc ≠ .unborn := by
        intro hu
        obtain ⟨k', hk', -⟩ := h.unborn t hu
        cases hm.symm.trans hk'
      obtain ⟨l, s', hl, hns⟩ := awake_enabled hI ht hta hborn
      have hnone := hi l (by
        cases l with
        | spurious u => exact absurd rfl (hns u)
        | _ => rfl)
      cases hl.symm.trans hnone
    · push Not at hx
      simp only [State.mainStep, hm] at hmain
      cases hn : nth z k with
      | none => simp [hn] at hmain
      | some t => simp [hn, hx t] at hmain

/-- A program that has ended has left the leftovers in the buffer. -/
theorem leftovers_fit (hI : Inv s) (h : Live s) (he : s.main = .ended) :
    z.numProducers * z.numItems % z.numConsumers ≤ z.bufferSize := by
  have hx := h.ended he
  have hfree : s.lock = none := hI.lock_free fun t => by rw [hx t]; rfl
  obtain ⟨q, hq, hring⟩ := hI.queue
  rw [State.settled_quiet fun t ht => by rw [hfree] at ht; cases ht] at hring
  have hlen := congrArg List.length hq
  rw [List.length_append, List.length_map, List.length_map] at hlen
  have hst := h.stored
  have htk := h.taken
  rw [made_all hI h fun t _ => hx t] at hst htk
  simp only [Sizes.num, Sizes.bound] at hst htk
  have hdiv := Nat.div_add_mod (z.numProducers * z.numItems) z.numConsumers
  have hle := hring.le
  omega

/-- A run that can go on only by spurious wakeups has ended, whatever the schedule. -/
def Sizes.Ends (z : Sizes) : Prop := ∀ s, (nConsumer z).Reachable s → s.Idle → s.main = .ended

/-- **When the program ends**: exactly when what the consumers leave over fits into the buffer. -/
theorem ends_iff (hpos : 1 ≤ z.bufferSize) :
    z.Ends ↔ z.numProducers * z.numItems % z.numConsumers ≤ z.bufferSize := by
  constructor
  · intro hall
    -- some run comes to rest
    obtain ⟨s, hs, hidle⟩ := Trans.exists_idle (T := nConsumer z) (I := fun s => Inv s ∧ Live s)
      (fun _ _ _ hi hst => ⟨inv_step hi.1 hst, live_step hi.1 hi.2 hst⟩) State.left Label.isSpurious 3
      (fun _ _ _ hi hst => left_step hi.1 hi.2 hst) ⟨inv_init hpos, live_init⟩ .init
    obtain ⟨hI, h⟩ := live_reachable hpos hs
    exact leftovers_fit hI h (hall s hs hidle)
  · intro hB s hs hidle
    obtain ⟨hI, h⟩ := live_reachable hpos hs
    exact idle_ended hpos hB hI h hidle

/-- The program ends as it is shipped; with five consumers, three items and one cell it does not. -/
theorem ends_iff_shipped : shipped.Ends ∧ ¬ Sizes.Ends ⟨1, 1, 5, 3⟩ :=
  ⟨(ends_iff (by decide)).2 (by decide), (ends_iff (by decide)).not.2 (by decide)⟩

end NConsumer
