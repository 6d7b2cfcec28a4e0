import LinuxExercises.Sync.Trans
import Mathlib.Data.Int.Notation
import Mathlib.Logic.Function.Basic

/-!
# `ex3_condition_variable.c`: one slot handed over

A producer and a consumer exchange `g_data` through the flag `g_data_ready`. Both wait on
`g_cond`, for opposite values of the flag, and each signals it after its own update. One step
for each operation on the mutex, on the condition variable, and on a shared variable.

`pthread_cond_wait` gives the mutex back and sleeps in one step; a thread that is woken, by
a signal or for no reason, takes the mutex again before it tests the flag again. A signal
reaches the other thread, as no third one can sleep. `pthread_create` succeeds. What the
producer prints, and the destruction of the mutex and the condition variable, are left out.
-/

namespace Handoff

open Sync

/-- The two threads: `producer_function` and `consumer_function`. -/
inductive Role where
  | producer
  | consumer
  deriving DecidableEq, Repr

def Role.other : Role → Role
  | .producer => .consumer
  | .consumer => .producer

/-- The condition of the `while` loop. -/
def Role.blocked : Role → Bool → Bool
  | .producer, ready => ready
  | .consumer, ready => !ready

/-- Where a thread is. -/
inductive Pc where
  /-- Not created yet. -/
  | unborn
  /-- At the test `i < NUMBER_DATAS`. -/
  | top
  /-- At `pthread_mutex_lock`. -/
  | lock
  /-- At the test of the `while` loop, with the mutex. -/
  | test
  /-- In `pthread_cond_wait`. -/
  | asleep
  /-- In `pthread_cond_wait`, woken, about to take the mutex. -/
  | woken
  /-- At `g_data = rand()`, or at the `printf` of `g_data`. -/
  | access
  /-- At the update of `g_data_ready`. -/
  | flag
  /-- At `pthread_cond_signal`. -/
  | signal
  /-- At `pthread_mutex_unlock`. -/
  | unlock
  | exited
  deriving DecidableEq, Repr

/-- A thread and its loop variable. -/
structure Thread where
  pc : Pc
  i : ℕ
  deriving DecidableEq, Repr

/-- The main thread: it creates both threads, then joins both, the producer first. -/
inductive MainPc where
  | create (ρ : Role)
  | join (ρ : Role)
  | ended
  deriving DecidableEq, Repr

/-- The shared variables and all threads; and, for the statements, the values the producer
stored and the values the consumer printed. -/
structure State where
  data : ℤ
  ready : Bool
  lock : Option Role
  thread : Role → Thread
  main : MainPc
  stored : List ℤ
  printed : List ℤ

namespace State

def init : State := ⟨0, false, none, fun _ => ⟨.unborn, 0⟩, .create .producer, [], []⟩

/-- Thread `ρ` has changed. -/
def set (s : State) (ρ : Role) (θ : Thread) : State :=
  { s with thread := Function.update s.thread ρ θ }

/-- Thread `ρ` goes on at `pc`. -/
def goto (s : State) (ρ : Role) (pc : Pc) : State := s.set ρ { s.thread ρ with pc }

/-- A sleeping thread wakes. -/
def wake (s : State) (ρ : Role) : State :=
  if (s.thread ρ).pc = .asleep then s.goto ρ .woken else s

/-- `g_data = rand()`. -/
def store (s : State) (rand : ℤ) : State := { s with data := rand, stored := s.stored ++ [rand] }

/-- The `printf` of `g_data` by the consumer. -/
def print (s : State) : State := { s with printed := s.printed ++ [s.data] }

/-- One step of the loop both threads run; `use` is what it does with `g_data`. -/
def loop (N : ℕ) (s : State) (ρ : Role) (use : State → State) : Option State :=
  let θ := s.thread ρ
  match θ.pc with
  | .top => if θ.i < N then some (s.goto ρ .lock) else some (s.goto ρ .exited)
  | .lock | .woken => if s.lock = none then some { s.goto ρ .test with lock := some ρ } else none
  | .test =>
    -- also behind `pthread_cond_wait`: the flag is tested again after every wakeup
    if ρ.blocked s.ready then some { s.goto ρ .asleep with lock := none }
    else some (s.goto ρ .access)
  | .access => some (use (s.goto ρ .flag))
  | .flag => some { s.goto ρ .signal with ready := ρ = .producer }
  -- one `g_cond` for both: whoever sleeps on it is the other thread
  | .signal => some ((s.goto ρ .unlock).wake ρ.other)
  | .unlock => some { s.set ρ ⟨.top, θ.i + 1⟩ with lock := none }
  | .unborn | .asleep | .exited => none

/-- `producer_function`; `rand` is what `rand()` gives. -/
def producerFunction (N : ℕ) (s : State) (rand : ℤ) : Option State :=
  s.loop N .producer (·.store rand)

/-- `consumer_function`. -/
def consumerFunction (N : ℕ) (s : State) : Option State :=
  s.loop N .consumer State.print

/-- `main`. -/
def mainStep (s : State) : Option State :=
  match s.main with
  | .create .producer => some { s.goto .producer .top with main := .create .consumer }
  | .create .consumer => some { s.goto .consumer .top with main := .join .producer }
  | .join .producer =>
    if (s.thread .producer).pc = .exited then some { s with main := .join .consumer } else none
  | .join .consumer => if (s.thread .consumer).pc = .exited then some { s with main := .ended } else none
  | .ended => none

end State

/-- Who moves. -/
inductive Label where
  | main
  | producer (rand : ℤ)
  | consumer
  /-- A spurious wakeup. -/
  | spurious (ρ : Role)

/-- **One step.** -/
def State.step (N : ℕ) (s : State) : Label → Option State
  | .main => s.mainStep
  | .producer rand => s.producerFunction N rand
  | .consumer => s.consumerFunction N
  | .spurious ρ => if (s.thread ρ).pc = .asleep then some (s.wake ρ) else none

/-- **The program**, for `NUMBER_DATAS = N`. -/
def conditionVariable (N : ℕ) : Trans State Label where
  init := .init
  step := State.step N

end Handoff
