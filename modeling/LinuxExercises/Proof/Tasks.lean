import LinuxExercises.Spec.Tasks

/-!
# The worker's buffer

* `Inv`: what the queue and the worker hold are whole tasks with their terminator, of at
  most `MSGSZ` bytes; so every text the worker prints is the string of its dispatcher.
* `overrun`: a task of 255 bytes fills the buffer with its terminator, and the worker
  writes another one behind it.
* `worker_iff`: **the worker stays inside its buffer and prints the dispatched strings in
  every run if and only if no dispatcher has a task of 255 bytes**.
-/

namespace Tasks

open Chat Sync

variable {argv : ℕ → List CStr} {mem : ℕ → UInt8} {s s' : State} {i prio n : ℕ} {task : CStr} {l : Label}

/-! ## The invariant -/

/-- Dispatcher `i` has this priority and task, which with its terminator takes `n` bytes and
fits. -/
structure Sent (argv : ℕ → List CStr) (i prio n : ℕ) (task : CStr) : Prop where
  args : dispatcherArgs (argv i) = some (prio, task)
  size : n = task.bytes.length + 1
  fits : n ≤ msgSz

/-- The first `n` bytes of the buffer are the task of dispatcher `i` with its terminator. -/
def Holds (argv : ℕ → List CStr) (buffer : ℕ → UInt8) (n prio i : ℕ) : Prop :=
  ∃ task, Sent argv i prio n task ∧ ∀ j < n, buffer j = (task.bytes ++ [0]).getD j 0

/-- **What is on its way are whole tasks.** -/
structure Inv (argv : ℕ → List CStr) (s : State) : Prop where
  opened : ∀ i prio task, s.dispatcher i = .opened prio task → dispatcherArgs (argv i) = some (prio, task)
  queued : ∀ msg ∈ s.queue, ∃ task, Sent argv msg.sender msg.prio msg.bytes.length task ∧ msg.bytes = task.bytes ++ [0]
  taken : ∀ n prio i, s.worker = .terminate n prio i → Holds argv s.buffer n prio i
  ended : ∀ n prio i, s.worker = .print n prio i → Holds argv s.buffer n prio i ∧ s.buffer n = 0
  printed : s.Faithful argv

/-- The string the worker prints is the task: its own terminator is the first zero byte. -/
theorem text_eq {buffer : ℕ → UInt8} (h : Sent argv i prio n task)
    (hb : ∀ j < n, buffer j = (task.bytes ++ [0]).getD j 0) (hn : buffer n = 0) : text buffer n = task.bytes := by
  have hmem : (List.range (n + 1)).map buffer = task.bytes ++ [0, 0] := by
    have hlen := h.size
    apply List.ext_getElem (by simp [hlen])
    intro j hj hj'
    simp only [List.length_map, List.length_range] at hj
    rw [List.getElem_map, List.getElem_range]
    rcases Nat.lt_succ_iff_lt_or_eq.1 hj with hlt | rfl
    · rw [hb j hlt]
      by_cases hin : j < task.bytes.length
      · rw [List.getD_eq_getElem?_getD, List.getElem?_append_left hin, List.getElem_append_left hin]
        simp [hin]
      · have hlast : j = task.bytes.length := by omega
        subst hlast
        simp
    · rw [hn]
      simp [hlen]
  unfold text
  rw [hmem, cstr, List.takeWhile_append_of_pos]
  · simp
  · intro b hb
    have hne : b ≠ 0 := fun h0 => task.noNul (h0 ▸ hb)
    simpa using hne

/-! ## The steps keep it -/

theorem Inv.dispatcherStep (h : Inv argv s) (hs : s.dispatcherStep argv i = some s') : Inv argv s' := by
  have hexit : ∀ status, Inv argv { s with dispatcher := Function.update s.dispatcher i (.exited status) } := by
    intro status
    refine ⟨?_, h.queued, h.taken, h.ended, h.printed⟩
    intro k prio task hk
    by_cases hki : k = i
    · subst hki
      simp at hk
    · exact h.opened k prio task (by simpa [hki] using hk)
  unfold State.dispatcherStep at hs
  cases hd : s.dispatcher i with
  | start =>
    simp only [hd] at hs
    cases ha : dispatcherArgs (argv i) with
    | none =>
      simp only [ha, Option.some.injEq] at hs
      exact hs ▸ hexit 1
    | some x =>
      simp only [ha, Option.some.injEq] at hs
      by_cases hl : s.linked = true
      · rw [if_pos hl] at hs
        subst hs
        refine ⟨?_, h.queued, h.taken, h.ended, h.printed⟩
        intro k prio task hk
        by_cases hki : k = i
        · subst hki
          simp only [Function.update_self, DispatcherPc.opened.injEq] at hk
          rw [ha, ← hk.1, ← hk.2]
        · exact h.opened k prio task (by simpa [hki] using hk)
      · rw [if_neg hl] at hs
        exact hs ▸ hexit 1
  | opened prio task =>
    simp only [hd, mqSend] at hs
    by_cases hbig : msgSz < task.bytes.length + 1
    · rw [if_pos hbig, Option.some.injEq] at hs
      exact hs ▸ hexit 1
    · rw [if_neg hbig] at hs
      split at hs
      · simp only [Option.some.injEq] at hs
        subst hs
        refine ⟨(hexit 0).opened, ?_, h.taken, h.ended, h.printed⟩
        intro msg hmsg
        rcases (List.mem_orderedInsert _).1 hmsg with rfl | hmsg
        · exact ⟨task, ⟨h.opened i prio task hd, by simp, by simpa using hbig⟩, rfl⟩
        · exact h.queued msg hmsg
      · simp at hs
  | exited status => simp [hd] at hs

theorem Inv.workerStep {ok : Bool} (h : Inv argv s) (hs : s.workerStep ok = some s') : Inv argv s' := by
  unfold State.workerStep at hs
  cases hw : s.worker with
  | start =>
    simp only [hw, Option.some.injEq] at hs
    subst hs
    cases ok <;> exact ⟨h.opened, h.queued, by simp, by simp, h.printed⟩
  | receive =>
    simp only [hw] at hs
    cases ok with
    | false =>
      simp only [Bool.false_eq_true, if_false, Option.some.injEq] at hs
      subst hs
      exact ⟨h.opened, h.queued, by simp, by simp, h.printed⟩
    | true =>
      simp only [if_true, mqReceive] at hs
      cases hq : s.queue with
      | nil => simp [hq] at hs
      | cons msg queue =>
        simp only [hq, Option.some.injEq] at hs
        subst hs
        refine ⟨h.opened, fun m hm => h.queued m (hq ▸ List.mem_cons_of_mem _ hm), ?_, by simp, h.printed⟩
        intro n prio i hpc
        simp only [WorkerPc.terminate.injEq] at hpc
        obtain ⟨rfl, rfl, rfl⟩ := hpc
        obtain ⟨task, hsent, hbytes⟩ := h.queued msg (hq ▸ List.mem_cons_self)
        refine ⟨task, hsent, fun j hj => ?_⟩
        simp only [← hbytes]
        simp [List.getD_eq_getElem?_getD, hj]
  | terminate n prio i =>
    simp only [hw, Option.some.injEq] at hs
    subst hs
    refine ⟨h.opened, h.queued, by simp, ?_, h.printed⟩
    intro n' prio' i' hpc
    simp only [WorkerPc.print.injEq] at hpc
    obtain ⟨rfl, rfl, rfl⟩ := hpc
    obtain ⟨task, hsent, hbuf⟩ := h.taken _ _ _ hw
    refine ⟨⟨task, hsent, fun j hj => ?_⟩, by simp⟩
    have hne : j ≠ n := by omega
    simpa [hne] using hbuf j hj
  | print n prio i =>
    simp only [hw, Option.some.injEq] at hs
    subst hs
    refine ⟨h.opened, h.queued, by simp, by simp, ?_⟩
    intro k p b hmem
    rcases List.mem_append.1 hmem with hmem | hmem
    · exact h.printed k p b hmem
    · obtain ⟨⟨task, hsent, hbuf⟩, hzero⟩ := h.ended n prio i hw
      simp only [List.mem_singleton, Prod.mk.injEq] at hmem
      obtain ⟨rfl, rfl, rfl⟩ := hmem
      exact ⟨task, hsent.args, text_eq hsent hbuf hzero⟩
  | exited => simp [hw] at hs

theorem Inv.interrupt (h : Inv argv s) (hs : s.interrupt = some s') : Inv argv s' := by
  have hcleanup : Inv argv { s with linked := false, worker := .exited } :=
    ⟨h.opened, h.queued, by simp, by simp, h.printed⟩
  unfold State.interrupt at hs
  split at hs
  · simp at hs
  · simp only [Option.some.injEq] at hs
    exact hs ▸ hcleanup

theorem Inv.step (h : Inv argv s) (hs : s.step argv l = some s') : Inv argv s' := by
  cases l with
  | dispatcher i => exact h.dispatcherStep hs
  | worker ok => exact h.workerStep hs
  | interrupt => exact h.interrupt hs

/-- Only whole tasks are queued, received and printed, in every run. -/
theorem inv_reach (h : (tasks argv mem).Reachable s) : Inv argv s := by
  refine h.inv ⟨by simp [tasks], by simp [tasks], by simp [tasks], by simp [tasks], ?_⟩ ?_
  · simp [tasks, State.Faithful]
  · intro s l s' _ hi _ hs
    exact hi.step hs

/-! ## The indices -/

/-- Only the worker uses the buffer. -/
theorem indices_step (h : s.step argv l = some s') :
    s'.indices = s.indices ∨
      (∃ msg ∈ s.queue, s'.indices = List.range msg.bytes.length ++ s.indices) ∨
      ∃ n prio i, s.worker = .terminate n prio i ∧ s'.indices = n :: s.indices := by
  cases l with
  | dispatcher i =>
    left
    simp only [State.step, State.dispatcherStep, mqSend] at h
    split at h
    · split at h <;> simp only [Option.some.injEq] at h <;> subst h <;> rfl
    · split at h
      · simp only [Option.some.injEq] at h; subst h; rfl
      · split at h <;> simp only [Option.some.injEq, reduceCtorEq] at h; subst h; rfl
    · simp at h
  | worker ok =>
    simp only [State.step, State.workerStep] at h
    cases hw : s.worker with
    | start =>
      simp only [hw, Option.some.injEq] at h
      subst h
      cases ok <;> exact Or.inl rfl
    | receive =>
      simp only [hw, mqReceive] at h
      cases ok with
      | false =>
        simp only [Bool.false_eq_true, if_false, Option.some.injEq] at h
        subst h
        exact Or.inl rfl
      | true =>
        cases hq : s.queue with
        | nil => simp [hq] at h
        | cons msg queue =>
          simp only [hq, if_true, Option.some.injEq] at h
          subst h
          exact Or.inr (Or.inl ⟨msg, List.mem_cons_self, rfl⟩)
    | terminate n prio i =>
      simp only [hw, Option.some.injEq] at h
      subst h
      exact Or.inr (Or.inr ⟨n, prio, i, rfl, rfl⟩)
    | print n prio i =>
      simp only [hw, Option.some.injEq] at h
      subst h
      exact Or.inl rfl
    | exited => simp [hw] at h
  | interrupt =>
    left
    simp only [State.step, State.interrupt] at h
    split at h <;> simp only [Option.some.injEq, reduceCtorEq] at h
    subst h; rfl

theorem dispatches_eq (h : Sent argv i prio n task) : dispatches argv i = some task := by
  rw [dispatches, h.args, Option.map_some]

/-- Tasks of another length leave room for the terminator. -/
theorem within_reach (hd : ∀ i task, dispatches argv i = some task → task.bytes.length ≠ msgSz - 1)
    (h : (tasks argv mem).Reachable s) : s.Within := by
  refine h.inv (by simp [tasks, State.Within]) ?_
  intro s l s' hr hin _ hs
  have hi := inv_reach hr
  rcases indices_step hs with heq | ⟨msg, hmsg, heq⟩ | ⟨n, prio, i, hw, heq⟩
  · exact fun j hj => hin j (heq ▸ hj)
  · -- `mq_receive` uses the indices of the message
    obtain ⟨task, hsent, -⟩ := hi.queued msg hmsg
    intro j hj
    rw [heq, List.mem_append, List.mem_range] at hj
    rcases hj with hj | hj
    · have := hsent.fits
      omega
    · exact hin j hj
  · -- the terminator goes behind the message
    obtain ⟨task, hsent, -⟩ := hi.taken n prio i hw
    have hne := hd i task (dispatches_eq hsent)
    have hsize := hsent.size
    have hfits := hsent.fits
    intro j hj
    rw [heq, List.mem_cons] at hj
    rcases hj with rfl | hj
    · omega
    · exact hin j hj

/-- **A task of 255 bytes**: the worker writes to `buffer[256]`. -/
theorem overrun (mem : ℕ → UInt8) (h : dispatches argv i = some task) (hlen : task.bytes.length = msgSz - 1) :
    ∃ s, (tasks argv mem).Reachable s ∧ msgSz ∈ s.indices := by
  obtain ⟨⟨prio, task⟩, hargs, rfl⟩ := Option.map_eq_some_iff.1 h
  have hsize : task.bytes.length + 1 = msgSz := by
    rw [hlen]
    rfl
  -- the worker opens the queue, the dispatcher opens it and sends
  let s₁ : State := { (tasks argv mem).init with linked := true, worker := .receive }
  let s₂ : State := { s₁ with dispatcher := Function.update s₁.dispatcher i (.opened prio task) }
  have h₁ : (tasks argv mem).step (tasks argv mem).init (.worker true) = some s₁ := rfl
  have h₂ : (tasks argv mem).step s₁ (.dispatcher i) = some s₂ := by
    have hpc : s₁.dispatcher i = .start := rfl
    show s₁.dispatcherStep argv i = _
    unfold State.dispatcherStep
    rw [hpc]
    simp only [hargs]
    rfl
  let msg : Msg := ⟨prio, task.bytes ++ [0], i⟩
  let s₃ : State := { s₂ with queue := [msg], dispatcher := Function.update s₂.dispatcher i (.exited 0) }
  have h₃ : (tasks argv mem).step s₂ (.dispatcher i) = some s₃ := by
    have hpc : s₂.dispatcher i = .opened prio task := Function.update_self ..
    have hroom : s₂.queue.length < maxMsg := Nat.zero_lt_succ 9
    show s₂.dispatcherStep argv i = _
    rw [State.dispatcherStep, hpc]
    show mqSend s₂ i prio task = _
    rw [mqSend, if_neg (by omega), if_pos hroom]
    rfl
  -- the worker receives the message and ends it
  let s₄ : State := { s₃ with
    queue := []
    worker := .terminate msg.bytes.length prio i
    buffer := fun j => msg.bytes.getD j (s₃.buffer j)
    indices := List.range msg.bytes.length ++ s₃.indices }
  have h₄ : (tasks argv mem).step s₃ (.worker true) = some s₄ := rfl
  let s₅ : State := { s₄ with
    worker := .print msg.bytes.length prio i
    buffer := Function.update s₄.buffer msg.bytes.length 0
    indices := msg.bytes.length :: s₄.indices }
  have h₅ : (tasks argv mem).step s₄ (.worker true) = some s₅ := rfl
  refine ⟨s₅, .step (.step (.step (.step (.step .init trivial h₁) trivial h₂) trivial h₃) trivial h₄) trivial h₅, ?_⟩
  have hbytes : msg.bytes.length = msgSz := by
    rw [← hsize]
    exact List.length_append
  rw [← hbytes]
  exact List.mem_cons_self

/-- **The worker's buffer**: in every run every index the worker uses on its buffer is inside
it and every printed text is the dispatched string, if and only if no dispatcher with an
admitted priority has a task of `MSGSZ - 1` bytes. -/
theorem worker_iff (argv : ℕ → List CStr) (mem : ℕ → UInt8) :
    (∀ s, (tasks argv mem).Reachable s → s.Within ∧ s.Faithful argv) ↔
      ∀ i task, dispatches argv i = some task → task.bytes.length ≠ msgSz - 1 := by
  constructor
  · intro h i task hd hlen
    obtain ⟨s, hs, hind⟩ := overrun mem hd hlen
    have := (h s hs).1 msgSz hind
    omega
  · intro hd s hs
    exact ⟨within_reach hd hs, (inv_reach hs).printed⟩

/-- The command line `task_dispatcher 1 xx…x` with 255 bytes. -/
def longTask : List CStr :=
  [⟨[49], by decide⟩, ⟨.replicate (msgSz - 1) 120, fun h => absurd (List.eq_of_mem_replicate h) (by decide)⟩]

/-- **The longest task the queue takes**: the terminator goes to `buffer[256]`. -/
theorem longTask_overrun : ¬ ∀ (argv : ℕ → List CStr) (mem : ℕ → UInt8) (s : State),
    (tasks argv mem).Reachable s → s.Within ∧ s.Faithful argv := by
  intro h
  have hd : dispatches (fun _ => longTask) 0 = some ⟨.replicate (msgSz - 1) 120, _⟩ := rfl
  obtain ⟨s, hs, hind⟩ := overrun (fun _ => 0) hd List.length_replicate
  have := (h _ _ s hs).1 msgSz hind
  omega

end Tasks
