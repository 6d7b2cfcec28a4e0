import LinuxExercises.Sync.Ring
import LinuxExercises.Sync.Trans
import Mathlib.Data.Fintype.Sum
import Mathlib.Data.Fintype.Basic

/-!
# `nConsumer.c`: producers and consumers on one buffer

The producer and consumer threads and the main thread, one step for each operation on the
mutex, on a condition variable, and on a shared variable. A producer and a consumer run the
same loop (`Role`), with the two condition variables exchanged.

`pthread_cond_wait` gives the mutex back and sleeps in one step; a thread that is woken, by
a signal or for no reason, takes the mutex again before it re-tests its condition.
`pthread_create` succeeds. The printed lines, with the `ids` they print, and the sleeps are
left out.
-/

namespace NConsumer

open Sync

/-- `BUFFER_SIZE`, `NUM_PRODUCERS`, `NUM_CONSUMERS`, `NUM_ITEMS`. -/
structure Sizes where
  bufferSize : ℕ
  numProducers : ℕ
  numConsumers : ℕ
  numItems : ℕ

/-- The constants of the source. -/
def shipped : Sizes := ⟨5, 2, 3, 10⟩

/-- What a thread runs. A `producer` waits on `cond_full` and signals `cond_empty`, a
`consumer` the other way round. -/
inductive Role where
  | producer
  | consumer
  deriving DecidableEq, Repr

/-- The role that waits on the condition variable this role signals. -/
def Role.other : Role → Role
  | .producer => .consumer
  | .consumer => .producer

/-- The bound of the `for` loop. -/
def Sizes.bound (z : Sizes) : Role → ℕ
  | .producer => z.numItems
  | .consumer => z.numProducers * z.numItems / z.numConsumers

/-- `prod_threads` and `cons_threads`. -/
abbrev Sizes.Tid (z : Sizes) := Fin z.numProducers ⊕ Fin z.numConsumers

def roleOf {z : Sizes} : z.Tid → Role
  | .inl _ => .producer
  | .inr _ => .consumer

/-- Where a thread is. -/
inductive Pc where
  /-- Not created yet. -/
  | unborn
  /-- At the test `i < ...` of the `for` loop. -/
  | top
  /-- At `pthread_mutex_lock`. -/
  | lock
  /-- At the test of the `while` loop, with the mutex. -/
  | test
  /-- In `pthread_cond_wait`. -/
  | asleep
  /-- In `pthread_cond_wait`, woken, about to take the mutex. -/
  | woken
  /-- At `buffer[in] = item` or `item = buffer[out]`. -/
  | access
  /-- At the update of `in` or `out`. -/
  | advance
  /-- At `count++` or `count--`. -/
  | tally
  /-- At `pthread_cond_signal`. -/
  | signal
  /-- At `pthread_mutex_unlock`. -/
  | unlock
  | exited
  deriving DecidableEq, Repr

/-- A thread and its local variables. -/
structure Thread where
  role : Role
  pc : Pc
  i : ℕ
  item : ℤ
  deriving DecidableEq, Repr

/-- The main thread: it creates the threads in order, then joins them in order. -/
inductive MainPc where
  | create (k : ℕ)
  | join (k : ℕ)
  | ended
  deriving DecidableEq, Repr

/-- The shared variables and all threads; and, for the statements, the items stored and
taken so far, each with the thread that did it. -/
structure State (z : Sizes) where
  ring : RingBuf ℤ
  lock : Option z.Tid
  thread : z.Tid → Thread
  main : MainPc
  stored : List (z.Tid × ℤ)
  taken : List (z.Tid × ℤ)

variable {z : Sizes}

/-- The `k`-th thread that `main` creates and joins. -/
def nth (z : Sizes) (k : ℕ) : Option z.Tid :=
  if h : k < z.numProducers then some (.inl ⟨k, h⟩)
  else if h : k - z.numProducers < z.numConsumers then some (.inr ⟨k - z.numProducers, h⟩)
  else none

def State.init (z : Sizes) : State z :=
  ⟨⟨fun _ => 0, 0, 0, 0⟩, none, fun t => ⟨roleOf t, .unborn, 0, 0⟩, .create 0, [], []⟩

/-- The condition of the `while` loop. -/
def Role.blocked (z : Sizes) (count : ℤ) : Role → Bool
  | .producer => count = z.bufferSize
  | .consumer => count = 0

namespace State

/-- Thread `t` has changed. -/
def set (s : State z) (t : z.Tid) (th : Thread) : State z :=
  { s with thread := Function.update s.thread t th }

/-- Thread `t` goes on at `pc`. -/
def goto (s : State z) (t : z.Tid) (pc : Pc) : State z := s.set t { s.thread t with pc }

/-- Thread `t` is asleep on the condition variable of `ρ`. -/
def Asleep (s : State z) (ρ : Role) (t : z.Tid) : Prop :=
  (s.thread t).role = ρ ∧ (s.thread t).pc = .asleep

instance (s : State z) (ρ : Role) (t : z.Tid) : Decidable (s.Asleep ρ t) :=
  inferInstanceAs (Decidable (_ ∧ _))

/-- A sleeping thread wakes. -/
def wake (s : State z) (t : z.Tid) : State z :=
  if (s.thread t).pc = .asleep then s.goto t .woken else s

/-- The access to the buffer. -/
def access (s : State z) (t : z.Tid) : State z :=
  let th := s.thread t
  match th.role with
  | .producer =>
    { s.goto t .advance with ring := s.ring.write th.item, stored := s.stored ++ [(t, th.item)] }
  | .consumer =>
    let item := s.ring.cells s.ring.outIdx
    { s.set t { th with pc := .advance, item } with taken := s.taken ++ [(t, item)] }

/-- The update of `in` or `out`. -/
def advance (s : State z) (t : z.Tid) : State z :=
  match (s.thread t).role with
  | .producer => { s.goto t .tally with ring := s.ring.advanceIn z.bufferSize }
  | .consumer => { s.goto t .tally with ring := s.ring.advanceOut z.bufferSize }

/-- `count++` or `count--`. -/
def tally (s : State z) (t : z.Tid) : State z :=
  match (s.thread t).role with
  | .producer => { s.goto t .signal with ring := { s.ring with count := s.ring.count + 1 } }
  | .consumer => { s.goto t .signal with ring := { s.ring with count := s.ring.count - 1 } }

end State

/-- Who moves. -/
inductive Label (z : Sizes) where
  | main
  /-- Thread `t`; `item` is what `rand() % 100` gives a producer. -/
  | thread (t : z.Tid) (item : ℤ)
  /-- `pthread_cond_signal` of thread `t` wakes `ws`. -/
  | signal (t : z.Tid) (ws : List z.Tid)
  /-- A spurious wakeup. -/
  | spurious (t : z.Tid)

/-- One step of a thread, signals apart. -/
def State.threadStep (s : State z) (t : z.Tid) (item : ℤ) : Option (State z) :=
  let th := s.thread t
  match th.pc with
  | .top =>
    if th.i < z.bound th.role then
      match th.role with
      | .producer => some (s.set t { th with pc := .lock, item })
      | .consumer => some (s.goto t .lock)
    else some (s.goto t .exited)
  | .lock | .woken => if s.lock = none then some { s.goto t .test with lock := some t } else none
  | .test =>
    if th.role.blocked z s.ring.count then some { s.goto t .asleep with lock := none }
    else some (s.goto t .access)
  | .access => some (s.access t)
  | .advance => some (s.advance t)
  | .tally => some (s.tally t)
  | .unlock => some { s.set t { th with pc := .top, i := th.i + 1 } with lock := none }
  | .unborn | .asleep | .signal | .exited => none

/-- One step of the main thread. -/
def State.mainStep (s : State z) : Option (State z) :=
  match s.main with
  | .create k =>
    match nth z k with
    | some t => some { s.goto t .top with main := .create (k + 1) }
    | none => some { s with main := .join 0 }
  | .join k =>
    match nth z k with
    | some t => if (s.thread t).pc = .exited then some { s with main := .join (k + 1) } else none
    | none => some { s with main := .ended }
  | .ended => none

/-- **One step.** A signal wakes at least one of the threads that sleep, if there is one. -/
def State.step (s : State z) : Label z → Option (State z)
  | .main => s.mainStep
  | .thread t item => s.threadStep t item
  | .signal t ws =>
    let ρ := (s.thread t).role.other
    if (s.thread t).pc = .signal ∧ (∀ u ∈ ws, s.Asleep ρ u) ∧ (ws = [] → ∀ u, ¬ s.Asleep ρ u) then
      some (ws.foldl State.wake (s.goto t .unlock))
    else none
  | .spurious t => if (s.thread t).pc = .asleep then some (s.wake t) else none

/-- **The program** with these sizes. -/
def nConsumer (z : Sizes) : Trans (State z) (Label z) where
  init := .init z
  step := State.step

/-! ## Pieces of concrete runs -/

/-- `n` steps of the main thread. -/
def mains (n : ℕ) : List (Label z) := .replicate n .main

/-- A round of a thread's loop in which it finds the mutex free and need not wait. -/
def round (t : z.Tid) (item : ℤ) : List (Label z) :=
  .replicate 6 (.thread t item) ++ [.signal t [], .thread t item]

/-- `prod_threads[k]` of the shipped program. -/
def prod (k : ℕ) : shipped.Tid := .inl ⟨k % 2, Nat.mod_lt k Nat.two_pos⟩

/-- `cons_threads[k]` of the shipped program. -/
def cons (k : ℕ) : shipped.Tid := .inr ⟨k % 3, Nat.mod_lt k (Nat.succ_pos 2)⟩

end NConsumer
