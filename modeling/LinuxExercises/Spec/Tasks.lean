import LinuxExercises.Spec.Input
import Mathlib.Data.List.Sort

/-!
# The task queue

`task_worker.c` takes the tasks that runs of `task_dispatcher.c` put on a POSIX message
queue. One step for each call that other processes can see: `mq_open`, `mq_send`,
`mq_receive`, and the worker's write of the terminator. The memory from the worker's
`buffer` on is a function of the index, so that an index past its end is seen too.
-/

namespace Tasks

open Chat (Bytes CStr cstr atoi)

/-- `MSGSZ`. -/
def msgSz : ℕ := 256

/-- `attr.mq_maxmsg`. -/
def maxMsg : ℕ := 10

/-- A message of the queue. The number of the dispatcher is for the statements. -/
structure Msg where
  prio : ℕ
  bytes : Bytes
  sender : ℕ

/-- `mq_receive` gives the oldest of the most urgent messages, so a message goes behind
those of at least its priority. -/
def enqueue (msg : Msg) (queue : List Msg) : List Msg :=
  queue.orderedInsert (fun a b => b.prio < a.prio) msg

/-- Where `main` of `task_dispatcher.c` is. -/
inductive DispatcherPc where
  | start
  /-- The queue is open. -/
  | opened (prio : ℕ) (task : CStr)
  | exited (status : ℕ)

/-- Where `main` of `task_worker.c` is. -/
inductive WorkerPc where
  | start
  /-- Before `mq_receive`. -/
  | receive
  /-- Before `buffer[n] = '\0'`. -/
  | terminate (n prio sender : ℕ)
  /-- Before the `printf`. -/
  | print (n prio sender : ℕ)
  | exited

/-- The queue, the processes and the worker's memory; for the statements, the indices the
worker has used on `buffer`, and what it has printed with the dispatcher it comes from. -/
structure State where
  /-- Does the queue have its name? -/
  linked : Bool
  queue : List Msg
  dispatcher : ℕ → DispatcherPc
  worker : WorkerPc
  buffer : ℕ → UInt8
  indices : List ℕ
  printed : List (ℕ × ℕ × Bytes)

/-- The command line of a dispatcher: a priority from 0 to 31 and a task. -/
def dispatcherArgs : List CStr → Option (ℕ × CStr)
  | [priority, task] =>
    let prio := (atoi priority.bytes).toNat
    if 31 < prio then none else some (prio, task)
  | _ => none

/-- `mq_send` of the task with its terminator: refused when it is longer than `mq_msgsize`,
blocked while the queue is full. -/
def mqSend (s : State) (i prio : ℕ) (task : CStr) : Option State :=
  if msgSz < task.bytes.length + 1 then
    some { s with dispatcher := Function.update s.dispatcher i (.exited 1) }
  else if s.queue.length < maxMsg then
    some { s with
      queue := enqueue ⟨prio, task.bytes ++ [0], i⟩ s.queue
      dispatcher := Function.update s.dispatcher i (.exited 0) }
  else none

/-- `main` of `task_dispatcher.c`, run `i` of it. -/
def State.dispatcherStep (argv : ℕ → List CStr) (s : State) (i : ℕ) : Option State :=
  match s.dispatcher i with
  | .start =>
    match dispatcherArgs (argv i) with
    | none => some { s with dispatcher := Function.update s.dispatcher i (.exited 1) }
    | some (prio, task) =>
      let pc := if s.linked then .opened prio task else .exited 1
      some { s with dispatcher := Function.update s.dispatcher i pc }
  | .opened prio task => mqSend s i prio task
  | .exited _ => none

/-- `mq_receive(mqdes, buffer, MSGSZ, &prio)`: the bytes of the message go to the front of
the buffer. It blocks on an empty queue. -/
def mqReceive (s : State) : Option State :=
  match s.queue with
  | [] => none
  | msg :: queue =>
    some { s with
      queue := queue
      worker := .terminate msg.bytes.length msg.prio msg.sender
      buffer := fun j => msg.bytes.getD j (s.buffer j)
      indices := List.range msg.bytes.length ++ s.indices }

/-- The string in the first `n + 1` bytes, the last of which is zero. -/
def text (buffer : ℕ → UInt8) (n : ℕ) : Bytes := cstr ((List.range (n + 1)).map buffer)

/-- `main` of `task_worker.c`; `ok` is whether `mq_open` and `mq_receive` succeed. -/
def State.workerStep (s : State) (ok : Bool) : Option State :=
  match s.worker with
  | .start => some (if ok then { s with linked := true, worker := .receive } else { s with worker := .exited })
  | .receive => if ok then mqReceive s else some { s with linked := false, worker := .exited }
  | .terminate n prio sender =>
    some { s with
      worker := .print n prio sender
      buffer := Function.update s.buffer n 0
      indices := n :: s.indices }
  | .print n prio sender =>
    some { s with
      worker := .receive
      printed := s.printed ++ [(sender, prio, text s.buffer n)] }
  | .exited => none

/-- `cleanup_and_exit` on a `SIGINT`. -/
def State.interrupt (s : State) : Option State :=
  match s.worker with
  | .exited => none
  | _ => some { s with linked := false, worker := .exited }

/-- Who takes a step. -/
inductive Label where
  | dispatcher (i : ℕ)
  | worker (ok : Bool)
  | interrupt

/-- One step of a process. -/
def State.step (argv : ℕ → List CStr) (s : State) : Label → Option State
  | .dispatcher i => s.dispatcherStep argv i
  | .worker ok => s.workerStep ok
  | .interrupt => s.interrupt

/-- **The worker and any runs of the dispatcher**, with these command lines; `buffer` is the
worker's memory at the start. -/
def tasks (argv : ℕ → List CStr) (buffer : ℕ → UInt8) : Sync.Trans State Label where
  init := ⟨false, [], fun _ => .start, .start, buffer, [], []⟩
  step := State.step argv

/-- The task that run `i` of the dispatcher has for the queue. -/
def dispatches (argv : ℕ → List CStr) (i : ℕ) : Option CStr := (dispatcherArgs (argv i)).map Prod.snd

/-- Every index the worker has used is inside its buffer. -/
def State.Within (s : State) : Prop := ∀ j ∈ s.indices, j < msgSz

/-- What the worker has printed are the strings of the dispatchers. -/
def State.Faithful (argv : ℕ → List CStr) (s : State) : Prop :=
  ∀ i prio b, (i, prio, b) ∈ s.printed → ∃ task, dispatcherArgs (argv i) = some (prio, task) ∧ b = task.bytes

/-! ## The order of the tasks -/

/-- The messages that were put on the queue and those that were taken off it, in order. -/
structure Log where
  sent : List Msg
  received : List Msg

/-- What a step adds to the log. -/
def State.log (s : State) (l : Label) (g : Log) : Log :=
  match l with
  | .dispatcher i =>
    match s.dispatcher i with
    | .opened prio task =>
      if msgSz < task.bytes.length + 1 then g else { g with sent := g.sent ++ [⟨prio, task.bytes ++ [0], i⟩] }
    | _ => g
  | .worker true =>
    match s.worker, s.queue with
    | .receive, msg :: _ => { g with received := g.received ++ [msg] }
    | _, _ => g
  | .worker false | .interrupt => g

/-- The system with its log. -/
def logged (argv : ℕ → List CStr) (buffer : ℕ → UInt8) : Sync.Trans (State × Log) Label :=
  (tasks argv buffer).ghost ⟨[], []⟩ State.log

/-- Dispatcher `i` is blocked in `mq_send`. -/
def State.Blocked (argv : ℕ → List CStr) (s : State) (i : ℕ) : Prop :=
  (∃ prio task, s.dispatcher i = .opened prio task) ∧ s.dispatcherStep argv i = none

end Tasks
