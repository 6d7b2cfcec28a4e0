import LinuxExercises.Spec.NConsumer
import LinuxExercises.Sync.Owner

/-!
# The bounded buffer of `nConsumer.c`

* `Move`, `step_cases`: all that one step can do.
* `Inv`: the mutex has one holder, and the ring, with the updates the holder still owes
  (`State.settled`), holds the items stored and not taken yet.
* `bounded_buffer`: so while the mutex is free the buffer is a bounded queue.
-/

namespace NConsumer

open Sync

variable {z : Sizes} {s s' : State z} {t u : z.Tid} {θ : Thread}

/-- The thread has the mutex. -/
def Pc.holds : Pc → Bool
  | .test | .access | .advance | .tally | .signal | .unlock => true
  | _ => false

/-- The thread has updates of the shared variables left to do. -/
def Pc.owes : Pc → Bool
  | .advance | .tally => true
  | _ => false

/-! ## What one step can do -/

/-- What one step of thread `t` does. -/
inductive Move (s : State z) (t : z.Tid) : State z → Prop where
  | enter (item : ℤ) : (s.thread t).pc = .top → (s.thread t).i < z.bound (s.thread t).role →
      Move s t (s.set t { s.thread t with pc := .lock, item })
  | leave : (s.thread t).pc = .top → ¬ (s.thread t).i < z.bound (s.thread t).role → Move s t (s.goto t .exited)
  | acquire : (s.thread t).pc = .lock ∨ (s.thread t).pc = .woken → s.lock = none →
      Move s t { s.goto t .test with lock := some t }
  | sleep : (s.thread t).pc = .test → (s.thread t).role.blocked z s.ring.count = true →
      Move s t { s.goto t .asleep with lock := none }
  | pass : (s.thread t).pc = .test → (s.thread t).role.blocked z s.ring.count = false →
      Move s t (s.goto t .access)
  | access : (s.thread t).pc = .access → Move s t (s.access t)
  | advance : (s.thread t).pc = .advance → Move s t (s.advance t)
  | tally : (s.thread t).pc = .tally → Move s t (s.tally t)
  | unlock : (s.thread t).pc = .unlock →
      Move s t { s.set t { s.thread t with pc := .top, i := (s.thread t).i + 1 } with lock := none }

theorem threadStep_move {item : ℤ} (h : s.threadStep t item = some s') : Move s t s' := by
  unfold State.threadStep at h
  cases hpc : (s.thread t).pc <;> simp only [hpc, reduceCtorEq] at h
  case top =>
    by_cases hi : (s.thread t).i < z.bound (s.thread t).role
    · rw [if_pos hi] at h
      cases hr : (s.thread t).role <;> simp only [hr, Option.some.injEq] at h <;> subst h
      · rw [← hr]; exact .enter item hpc hi
      · exact .enter (s.thread t).item hpc hi
    · rw [if_neg hi] at h; simp only [Option.some.injEq] at h; subst h; exact .leave hpc hi
  case lock =>
    split at h <;> simp only [Option.some.injEq, reduceCtorEq] at h
    subst h; exact .acquire (.inl hpc) (by assumption)
  case woken =>
    split at h <;> simp only [Option.some.injEq, reduceCtorEq] at h
    subst h; exact .acquire (.inr hpc) (by assumption)
  case test =>
    by_cases hb : (s.thread t).role.blocked z s.ring.count = true
    · rw [if_pos hb] at h; simp only [Option.some.injEq] at h; subst h; exact .sleep hpc hb
    · rw [if_neg hb] at h; simp only [Option.some.injEq] at h; subst h
      exact .pass hpc (by simpa using hb)
  case access => simp only [Option.some.injEq] at h; subst h; exact .access hpc
  case advance => simp only [Option.some.injEq] at h; subst h; exact .advance hpc
  case tally => simp only [Option.some.injEq] at h; subst h; exact .tally hpc
  case unlock => simp only [Option.some.injEq] at h; subst h; exact .unlock hpc

/-- Where a step of the main thread takes it once the threads are created. -/
inductive MainMove (s : State z) : MainPc → Prop where
  | created (k : ℕ) : s.main = .create k → nth z k = none → MainMove s (.join 0)
  | joined (k : ℕ) (t : z.Tid) : s.main = .join k → nth z k = some t → (s.thread t).pc = .exited →
      MainMove s (.join (k + 1))
  | ended (k : ℕ) : s.main = .join k → nth z k = none → MainMove s .ended

/-- **What one step does.** -/
theorem step_cases {l : Label z} (h : s.step l = some s') :
    (∃ k t, s.main = .create k ∧ nth z k = some t ∧ s' = { s.goto t .top with main := .create (k + 1) }) ∨
    (∃ pc, MainMove s pc ∧ s' = { s with main := pc }) ∨
    (∃ t, Move s t s') ∨
    (∃ t ws, (s.thread t).pc = .signal ∧ (∀ u ∈ ws, s.Asleep (s.thread t).role.other u) ∧
      (ws = [] → ∀ u, ¬ s.Asleep (s.thread t).role.other u) ∧ s' = ws.foldl State.wake (s.goto t .unlock)) ∨
    ∃ t, s' = s.wake t := by
  cases l with
  | main =>
    simp only [State.step, State.mainStep] at h
    cases hm : s.main with
    | create k =>
      cases hn : nth z k <;> simp only [hm, hn, Option.some.injEq] at h <;> subst h
      · exact .inr (.inl ⟨_, .created k hm hn, rfl⟩)
      · exact .inl ⟨k, _, rfl, hn, rfl⟩
    | join k =>
      cases hn : nth z k <;> simp only [hm, hn] at h
      · simp only [Option.some.injEq] at h; subst h; exact .inr (.inl ⟨_, .ended k hm hn, rfl⟩)
      · split at h <;> simp only [Option.some.injEq, reduceCtorEq] at h
        subst h; exact .inr (.inl ⟨_, .joined k _ hm hn (by assumption), rfl⟩)
    | ended => simp [hm] at h
  | thread t item => exact .inr (.inr (.inl ⟨t, threadStep_move h⟩))
  | signal t ws =>
    simp only [State.step] at h
    split at h <;> simp only [Option.some.injEq, reduceCtorEq] at h
    rename_i hc
    exact .inr (.inr (.inr (.inl ⟨t, ws, hc.1, hc.2.1, hc.2.2, h.symm⟩)))
  | spurious t =>
    simp only [State.step] at h
    split at h <;> simp only [Option.some.injEq, reduceCtorEq] at h
    exact .inr (.inr (.inr (.inr ⟨t, h.symm⟩)))

/-! ## The invariant -/

/-- What the thread has left to do to the ring. -/
def Thread.finish (z : Sizes) (θ : Thread) (r : RingBuf ℤ) : RingBuf ℤ :=
  match θ.pc, θ.role with
  | .advance, .producer => { r.advanceIn z.bufferSize with count := r.count + 1 }
  | .advance, .consumer => r.fetch z.bufferSize
  | .tally, .producer => { r with count := r.count + 1 }
  | .tally, .consumer => { r with count := r.count - 1 }
  | _, _ => r

/-- The ring when the thread that has the mutex is done with it. -/
def State.settled (s : State z) : RingBuf ℤ :=
  match s.lock with
  | some t => (s.thread t).finish z s.ring
  | none => s.ring

/-- **The buffer is a queue** of the items stored and not taken. -/
structure Inv (s : State z) : Prop where
  role : ∀ t, (s.thread t).role = roleOf t
  owner : Owns (fun t => (s.thread t).pc.holds = true) s.lock
  queue : ∃ q, s.stored.map Prod.snd = s.taken.map Prod.snd ++ q ∧ s.settled.Holds z.bufferSize q
  guard : ∀ t, (s.thread t).pc = .access → (s.thread t).role.blocked z s.ring.count = false
  unborn : ∀ k, s.main = .create k → ∀ j ≥ k, ∀ t, nth z j = some t → (s.thread t).pc = .unborn

theorem finish_quiet {r : RingBuf ℤ} (h : θ.pc.owes = false) : θ.finish z r = r := by
  unfold Thread.finish
  cases hpc : θ.pc <;> simp_all [Pc.owes]

theorem State.settled_quiet {s : State z} (h : ∀ t, s.lock = some t → (s.thread t).pc.owes = false) :
    s.settled = s.ring := by
  unfold State.settled
  cases hl : s.lock with
  | none => rfl
  | some t => exact finish_quiet (h t hl)

@[simp] theorem State.set_thread_self (s : State z) (t : z.Tid) (θ : Thread) : (s.set t θ).thread t = θ :=
  Function.update_self _ _ _

theorem State.set_thread_ne (s : State z) {t u : z.Tid} (θ : Thread) (h : u ≠ t) :
    (s.set t θ).thread u = s.thread u := Function.update_of_ne h _ _

/-- `main` creates different threads. -/
theorem nth_inj {j k : ℕ} (hj : nth z j = some t) (hk : nth z k = some t) : j = k := by
  unfold nth at hj hk
  cases t <;> grind

theorem inv_init (hpos : 0 < z.bufferSize) : Inv (.init z) := by
  refine ⟨fun t => rfl, fun t => by simp [State.init, Pc.holds], ⟨[], rfl, ?_⟩, fun t h => ?_, fun _ _ _ _ _ _ => rfl⟩
  · exact ⟨rfl, Nat.zero_le _, hpos, (Nat.zero_mod _).symm, fun k hk => absurd hk (Nat.not_lt_zero k)⟩
  · simp [State.init] at h

/-- The thread that has the mutex is the one that the mutex names. -/
theorem Inv.lock_eq (h : Inv s) (ht : (s.thread t).pc.holds = true) : s.lock = some t := (h.owner t).1 ht

theorem Inv.holds_of_lock (h : Inv s) (hl : s.lock = some t) : (s.thread t).pc.holds = true := (h.owner t).2 hl

/-- Nobody has the mutex, so it is free. -/
theorem Inv.lock_free (h : Inv s) (hn : ∀ t, (s.thread t).pc.holds = false) : s.lock = none := by
  cases hl : s.lock with
  | none => rfl
  | some t => have := h.holds_of_lock hl; rw [hn t] at this; cases this

/-- A thread that owes nothing may take or give back the mutex: the settled ring is the same. -/
theorem Inv.settled_eq (h : Inv s) {ℓ : Option z.Tid} {μ : MainPc}
    (hl : LockStep t s.lock ℓ (s.thread t).pc.holds θ.pc.holds)
    (ho : (s.thread t).pc.owes = false) (ho' : θ.pc.owes = false) :
    State.settled { s.set t θ with lock := ℓ, main := μ } = s.settled := by
  by_cases hx : ∃ x, s.lock = some x ∧ x ≠ t
  · obtain ⟨x, hx, hxt⟩ := hx
    have hl' : ℓ = some x := by
      have hnot : (s.thread t).pc.holds ≠ true := fun ht => hxt (Option.some.inj (hx.symm.trans (h.lock_eq ht)))
      rw [hx] at hl
      generalize (s.thread t).pc.holds = b at hl hnot
      generalize θ.pc.holds = b' at hl
      cases hl with
      | release => exact absurd rfl hnot
      | keep => rfl
    subst hl'
    show (Function.update s.thread t θ x).finish z s.ring = s.settled
    rw [Function.update_of_ne hxt, State.settled, hx]
  · -- the mutex is free or in the hands of `t`, before and after
    push Not at hx
    have hx' : ∀ x, ℓ = some x → x = t := by
      intro x hl'
      generalize hlk : s.lock = o at hl
      generalize (s.thread t).pc.holds = b at hl
      generalize θ.pc.holds = b' at hl
      cases hl with
      | acquire => exact (Option.some.inj hl').symm
      | release => simp at hl'
      | keep => exact hx x (hlk.trans hl')
    rw [State.settled_quiet (s := s) fun x hlx => by rw [hx x hlx]; exact ho]
    refine State.settled_quiet fun x hlx => ?_
    rw [hx' x hlx]
    show (Function.update s.thread t θ t).pc.owes = false
    rw [Function.update_self]; exact ho'

/-- **A step of one thread that leaves the ring alone**: it moves, takes or gives back the
mutex; the main thread may move with it. -/
theorem Inv.move (h : Inv s) {ℓ : Option z.Tid} {μ : MainPc} (hr : θ.role = (s.thread t).role)
    (hl : LockStep t s.lock ℓ (s.thread t).pc.holds θ.pc.holds)
    (ho : (s.thread t).pc.owes = false) (ho' : θ.pc.owes = false)
    (hg : θ.pc = .access → θ.role.blocked z s.ring.count = false)
    (hm : ∀ k', μ = .create k' → (∃ k ≤ k', s.main = .create k) ∧ ∀ j ≥ k', nth z j ≠ some t) :
    Inv { s.set t θ with lock := ℓ, main := μ } := by
  refine ⟨fun u => ?_, ?_, ?_, fun u hu => ?_, fun k' hk' j hj u hu => ?_⟩
  · by_cases hut : u = t
    · subst hut; exact (congrArg Thread.role (s.set_thread_self u θ)).trans (hr.trans (h.role u))
    · exact (congrArg Thread.role (s.set_thread_ne θ hut)).trans (h.role u)
  · refine h.owner.step hl Iff.rfl ?_ fun u hut => ?_
    · exact iff_of_eq (congrArg (fun x : Thread => x.pc.holds = true) (s.set_thread_self t θ))
    · exact iff_of_eq (congrArg (fun x : Thread => x.pc.holds = true) (s.set_thread_ne θ hut))
  · rw [h.settled_eq hl ho ho']; exact h.queue
  · by_cases hut : u = t
    · subst hut
      have hu : ((s.set u θ).thread u).pc = .access := hu
      rw [s.set_thread_self] at hu
      show ((s.set u θ).thread u).role.blocked z s.ring.count = false
      rw [s.set_thread_self]; exact hg hu
    · have hu : ((s.set t θ).thread u).pc = .access := hu
      rw [s.set_thread_ne θ hut] at hu
      show ((s.set t θ).thread u).role.blocked z s.ring.count = false
      rw [s.set_thread_ne θ hut]; exact h.guard u hu
  · obtain ⟨⟨k, hkk, hk⟩, hne⟩ := hm k' hk'
    have hut : u ≠ t := fun e => hne j hj (e ▸ hu)
    exact (congrArg Thread.pc (s.set_thread_ne θ hut)).trans (h.unborn k hk j (by omega) u hu)

/-- The moves of a thread do not concern the creation of others. -/
theorem Inv.main_same (h : Inv s) (hu : (s.thread t).pc ≠ .unborn) (k' : ℕ) (hk : s.main = .create k') :
    (∃ k ≤ k', s.main = .create k) ∧ ∀ j ≥ k', nth z j ≠ some t :=
  ⟨⟨k', le_rfl, hk⟩, fun j hj hn => hu (h.unborn k' hk j hj t hn)⟩

/-- The same from a known place, while the main thread stays where it is. -/
theorem Inv.keep (h : Inv s) {p : Pc} {ℓ : Option z.Tid} (ht : (s.thread t).pc = p) (hr : θ.role = (s.thread t).role)
    (hl : LockStep t s.lock ℓ p.holds θ.pc.holds) (ho : p.owes = false) (ho' : θ.pc.owes = false)
    (hg : θ.pc = .access → θ.role.blocked z s.ring.count = false) (hu : p ≠ .unborn) :
    Inv { s.set t θ with lock := ℓ } := by
  subst ht
  exact h.move (μ := s.main) hr hl ho ho' hg (h.main_same hu)

/-- A thread wakes. -/
theorem Inv.wake (h : Inv s) (t : z.Tid) : Inv (s.wake t) := by
  unfold State.wake
  split
  · rename_i ht
    exact h.keep (θ := { s.thread t with pc := .woken }) ht rfl (.keep _ _) rfl rfl nofun nofun
  · exact h

theorem Inv.wakeAll (h : Inv s) (ws : List z.Tid) : Inv (ws.foldl State.wake s) := by
  induction ws generalizing s with
  | nil => exact h
  | cons u us ih => exact ih (h.wake u)

/-- **A step of the thread that has the mutex on the ring.** -/
theorem Inv.work (h : Inv s) {β : RingBuf ℤ} {σ τ : List (z.Tid × ℤ)}
    (ht : (s.thread t).pc.holds = true) (hr : θ.role = (s.thread t).role) (ht' : θ.pc.holds = true)
    (hne : θ.pc ≠ .access)
    (hq : ∃ q, σ.map Prod.snd = τ.map Prod.snd ++ q ∧ (θ.finish z β).Holds z.bufferSize q) :
    Inv { s.set t θ with ring := β, stored := σ, taken := τ } := by
  have hlock := h.lock_eq ht
  have hu : (s.thread t).pc ≠ .unborn := fun e => by rw [e] at ht; cases ht
  refine ⟨fun u => ?_, ?_, ?_, fun u hu' => ?_, fun k hk j hj u hu' => ?_⟩
  · by_cases hut : u = t
    · subst hut; exact (congrArg Thread.role (s.set_thread_self u θ)).trans (hr.trans (h.role u))
    · exact (congrArg Thread.role (s.set_thread_ne θ hut)).trans (h.role u)
  · refine h.owner.step (.keep _ true) (iff_of_true ht rfl) ?_ fun u hut => ?_
    · exact iff_of_true ((congrArg (fun x : Thread => x.pc.holds) (s.set_thread_self t θ)).trans ht') rfl
    · exact iff_of_eq (congrArg (fun x : Thread => x.pc.holds = true) (s.set_thread_ne θ hut))
  · have hs : State.settled { s.set t θ with ring := β, stored := σ, taken := τ } = θ.finish z β := by
      unfold State.settled
      show (match s.lock with | some x => _ | none => _) = _
      rw [hlock]
      show (Function.update s.thread t θ t).finish z β = _
      rw [Function.update_self]
    rw [hs]; exact hq
  · -- nobody else has the mutex
    have hu'' : ((s.set t θ).thread u).pc = .access := hu'
    by_cases hut : u = t
    · subst hut; rw [s.set_thread_self] at hu''; exact absurd hu'' hne
    · rw [s.set_thread_ne θ hut] at hu''
      exact absurd (h.owner.excl (show (s.thread u).pc.holds = true by rw [hu'']; rfl) ht) hut
  · have hut : u ≠ t := fun e => (h.main_same hu k hk).2 j hj (e ▸ hu')
    exact (congrArg Thread.pc (s.set_thread_ne θ hut)).trans (h.unborn k hk j hj u hu')

/-- The settled ring, for the thread that has the mutex. -/
theorem Inv.settled_of (h : Inv s) (ht : (s.thread t).pc.holds = true) :
    s.settled = (s.thread t).finish z s.ring := by
  unfold State.settled; rw [h.lock_eq ht]

/-- The access to the buffer stores or fetches an item of the queue. -/
theorem Inv.access (h : Inv s) (ht : (s.thread t).pc = .access) : Inv (s.access t) := by
  have hold : (s.thread t).pc.holds = true := by rw [ht]; rfl
  have hg := h.guard t ht
  obtain ⟨q, hq, hring⟩ := h.queue
  rw [h.settled_of hold, finish_quiet (by rw [ht]; rfl)] at hring
  have hle := hring.le
  have hcount := hring.count
  unfold State.access
  cases hr : (s.thread t).role <;> simp only [hr]
  · rw [hr] at hg
    have hlt : q.length < z.bufferSize := by
      simp only [Role.blocked, decide_eq_false_iff_not] at hg; omega
    refine h.work (θ := { s.thread t with pc := .advance }) hold rfl rfl (by simp)
      ⟨q ++ [(s.thread t).item], ?_, ?_⟩
    · rw [List.map_append, hq, List.append_assoc]; rfl
    · have hf := hring.store hlt (s.thread t).item
      simp only [Thread.finish, hr]; exact hf
  · rw [hr] at hg
    have hpos : q ≠ [] := by
      rintro rfl
      simp only [Role.blocked, decide_eq_false_iff_not] at hg; exact hg hcount
    obtain ⟨q', hq', hring'⟩ := hring.fetch hpos
    refine h.work (θ := ⟨.consumer, .advance, (s.thread t).i, s.ring.cells s.ring.outIdx⟩) hold hr.symm rfl
      (by simp) ⟨q', ?_, hring'⟩
    show s.stored.map Prod.snd = (s.taken ++ [(t, s.ring.cells s.ring.outIdx)]).map Prod.snd ++ q'
    rw [List.map_append, List.append_assoc, hq, hq']; rfl

/-- The updates of `in`, `out` and `count` are the ones the thread owed. -/
theorem Inv.advance (h : Inv s) (ht : (s.thread t).pc = .advance) : Inv (s.advance t) := by
  have hold : (s.thread t).pc.holds = true := by rw [ht]; rfl
  have hq := h.queue
  rw [h.settled_of hold] at hq
  unfold State.advance
  cases hr : (s.thread t).role <;> simp only [Thread.finish, ht, hr] at hq ⊢
  · refine h.work (θ := { s.thread t with pc := .tally }) hold rfl rfl (by simp) ?_
    simp only [Thread.finish, hr]; exact hq
  · refine h.work (θ := { s.thread t with pc := .tally }) hold rfl rfl (by simp) ?_
    simp only [Thread.finish, hr]; exact hq

theorem Inv.tally (h : Inv s) (ht : (s.thread t).pc = .tally) : Inv (s.tally t) := by
  have hold : (s.thread t).pc.holds = true := by rw [ht]; rfl
  have hq := h.queue
  rw [h.settled_of hold] at hq
  unfold State.tally
  cases hr : (s.thread t).role <;> simp only [Thread.finish, ht, hr] at hq ⊢
  · exact h.work (θ := { s.thread t with pc := .signal }) hold rfl rfl (by simp) hq
  · exact h.work (θ := { s.thread t with pc := .signal }) hold rfl rfl (by simp) hq

/-- **Every step of a thread keeps the invariant.** -/
theorem inv_move (h : Inv s) (hm : Move s t s') : Inv s' := by
  cases hm with
  | enter item ht hi => exact h.keep (θ := { s.thread t with pc := .lock, item }) ht rfl (.keep _ _) rfl rfl nofun nofun
  | leave ht hi => exact h.keep (θ := { s.thread t with pc := .exited }) ht rfl (.keep _ _) rfl rfl nofun nofun
  | acquire ht hl =>
    have hfree : LockStep t s.lock (some t) false true := by rw [hl]; exact .acquire
    rcases ht with ht | ht
    · exact h.keep (θ := { s.thread t with pc := .test }) ht rfl hfree rfl rfl nofun nofun
    · exact h.keep (θ := { s.thread t with pc := .test }) ht rfl hfree rfl rfl nofun nofun
  | sleep ht hb => exact h.keep (θ := { s.thread t with pc := .asleep }) ht rfl (.release _) rfl rfl nofun nofun
  | pass ht hb => exact h.keep (θ := { s.thread t with pc := .access }) ht rfl (.keep _ _) rfl rfl (fun _ => hb) nofun
  | access ht => exact h.access ht
  | advance ht => exact h.advance ht
  | tally ht => exact h.tally ht
  | unlock ht =>
    exact h.keep (θ := { s.thread t with pc := .top, i := (s.thread t).i + 1 }) ht rfl (.release _) rfl rfl nofun nofun

/-- **Every step keeps the invariant.** -/
theorem inv_step {l : Label z} (h : Inv s) (hs : s.step l = some s') : Inv s' := by
  rcases step_cases hs with ⟨k, t, hm, hn, rfl⟩ | ⟨pc, hm, rfl⟩ | ⟨t, hm⟩ | ⟨t, ws, ht, hws, -, rfl⟩ | ⟨t, rfl⟩
  · have ht := h.unborn k hm k le_rfl t hn
    refine h.move (θ := { s.thread t with pc := .top }) (ℓ := s.lock) rfl ?_ ?_ rfl (by simp) fun k' hk' => ?_
    · rw [ht]; exact .keep _ _
    · rw [ht]; rfl
    · cases hk'
      exact ⟨⟨k, by omega, hm⟩, fun j hj hj' => by have := nth_inj hn hj'; omega⟩
  · exact ⟨h.role, h.owner, h.queue, h.guard, fun k hk => by cases hm <;> cases hk⟩
  · exact inv_move h hm
  · refine Inv.wakeAll ?_ ws
    exact h.keep (θ := { s.thread t with pc := .unlock }) ht rfl (.keep _ _) rfl rfl nofun nofun
  · exact h.wake t

theorem inv_reachable (hpos : 0 < z.bufferSize) (h : (nConsumer z).Reachable s) : Inv s :=
  h.inv (inv_init hpos) fun _ _ _ _ hi _ hs => inv_step hi hs

/-- **The bounded buffer**: with any sizes, in every reachable state in which the mutex is
free, `count`, `in` and `out` are in range and fit each other, the cells from `out` on hold
in order the items stored and not taken yet, and the items taken are the first ones stored. -/
theorem bounded_buffer (hpos : 1 ≤ z.bufferSize) (h : (nConsumer z).Reachable s) (hfree : s.lock = none) :
    (0 ≤ s.ring.count ∧ s.ring.count ≤ z.bufferSize) ∧
      (s.ring.inIdx < z.bufferSize ∧ s.ring.outIdx < z.bufferSize) ∧
      (s.ring.inIdx : ℤ) = (s.ring.outIdx + s.ring.count) % z.bufferSize ∧
      s.taken.map Prod.snd <+: s.stored.map Prod.snd ∧
      (List.range s.ring.count.toNat).map (fun k => s.ring.cells ((s.ring.outIdx + k) % z.bufferSize)) =
        (s.stored.map Prod.snd).drop s.taken.length := by
  obtain ⟨q, hq, hring⟩ := (inv_reachable hpos h).queue
  rw [State.settled_quiet fun t ht => by rw [hfree] at ht; cases ht] at hring
  have hcount := hring.count
  have hle := hring.le
  refine ⟨by omega, ⟨hring.in_lt, hring.out_lt⟩, ?_, ⟨q, hq.symm⟩, ?_⟩
  · rw [hring.in_eq, hcount]; push_cast; rfl
  have hdrop : (s.stored.map Prod.snd).drop s.taken.length = q := by
    have hlen : s.taken.length = (s.taken.map Prod.snd).length := (List.length_map _).symm
    rw [hq, hlen, List.drop_left]
  rw [hdrop, hcount, Int.toNat_natCast]
  refine List.ext_getElem? fun k => ?_
  by_cases hk : k < q.length
  · rw [hring.get k hk, List.getElem?_map, List.getElem?_range hk]; rfl
  · rw [List.getElem?_eq_none (by simp; omega), List.getElem?_eq_none (by omega)]

/-- Four items stored and three taken. -/
def fourStored : List (Label shipped) :=
  mains 6 ++ round (prod 0) 10 ++ round (prod 1) 20 ++ round (cons 0) 0 ++ round (prod 0) 30 ++ round (cons 1) 0 ++
    round (prod 1) 40 ++ round (cons 2) 0

theorem bounded_buffer_four :
    ((nConsumer shipped).after Sync.Trans.Free fourStored).ring.count = 1 ∧
    ((nConsumer shipped).after Sync.Trans.Free fourStored).taken.map Prod.snd <+:
      ((nConsumer shipped).after Sync.Trans.Free fourStored).stored.map Prod.snd :=
  ⟨by decide +kernel,
    (bounded_buffer (by decide) (Sync.Trans.reach_after fourStored) (by decide +kernel)).2.2.2.1⟩

end NConsumer
