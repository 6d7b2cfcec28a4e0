import LinuxExercises.Sync.Trans
import Mathlib.Logic.Function.Basic

/-!
# `ex2_race_condition_mutx.c`: increments without the mutex

`NUM_THREADS` threads increment `g_counter` `INCREMENTS` times each; the calls that would take
`g_lock` are commented out. As the file's own note says, `g_counter++` is
`temp = counter; temp = temp + 1; counter = temp`: one step reads the shared variable, one
writes it, and any other thread may run in between. `main` creates the threads, joins them in
order and prints the counter; it exits at once when the mutex or a thread cannot be made.

The counter never passes `NUM_THREADS * INCREMENTS`, far inside `long long`.
-/

namespace Counter

open Sync

/-- Where a thread is in `increment_counter`. -/
inductive Pc where
  /-- Not created yet. -/
  | unborn
  /-- At the test `i < INCREMENTS`. -/
  | top
  /-- Before `temp = counter`. -/
  | load
  /-- Before `counter = temp + 1`. -/
  | store (temp : ℕ)
  | exited
  deriving DecidableEq, Repr

/-- A thread and its loop variable. -/
structure Thread where
  pc : Pc
  i : ℕ
  deriving DecidableEq, Repr

/-- Where `main` is. -/
inductive MainPc where
  /-- At `pthread_mutex_init`. -/
  | initMutex
  /-- At the test of the loop that creates the threads. -/
  | create (k : ℕ)
  /-- At the test of the loop that joins them. -/
  | join (k : ℕ)
  | print
  | ended
  deriving DecidableEq, Repr

/-- The counter, the threads, and what `main` has printed. -/
structure State (T : ℕ) where
  counter : ℕ
  thread : Fin T → Thread
  main : MainPc
  printed : Option ℕ

variable {T : ℕ}

def State.init : State T := ⟨0, fun _ => ⟨.unborn, 0⟩, .initMutex, none⟩

/-- Thread `k` has changed. -/
def State.set (s : State T) (k : Fin T) (θ : Thread) : State T :=
  { s with thread := Function.update s.thread k θ }

/-- `increment_counter`, for `INCREMENTS = N`. -/
def State.incrementCounter (N : ℕ) (s : State T) (k : Fin T) : Option (State T) :=
  let θ := s.thread k
  match θ.pc with
  | .top => some (s.set k { θ with pc := if θ.i < N then .load else .exited })
  | .load => some (s.set k { θ with pc := .store s.counter })
  | .store temp => some { s.set k ⟨.top, θ.i + 1⟩ with counter := temp + 1 }
  | .unborn | .exited => none

/-- `main`; `ok` is whether `pthread_mutex_init` and `pthread_create` succeed. -/
def State.mainStep (s : State T) (ok : Bool) : Option (State T) :=
  match s.main with
  | .initMutex => some { s with main := if ok then .create 0 else .ended }
  | .create k =>
    if h : k < T then
      if ok then some { s.set ⟨k, h⟩ ⟨.top, 0⟩ with main := .create (k + 1) }
      else some { s with main := .ended }
    else some { s with main := .join 0 }
  | .join k =>
    if h : k < T then
      if (s.thread ⟨k, h⟩).pc = .exited then some { s with main := .join (k + 1) } else none
    else some { s with main := .print }
  | .print => some { s with main := .ended, printed := some s.counter }
  | .ended => none

/-- Who moves. -/
inductive Label (T : ℕ) where
  | main (ok : Bool)
  | thread (k : Fin T)

/-- **One step.** When `main` has ended, so have the threads. -/
def State.step (N : ℕ) (s : State T) (l : Label T) : Option (State T) :=
  if s.main = .ended then none
  else match l with
    | .main ok => s.mainStep ok
    | .thread k => s.incrementCounter N k

/-- **The program**, for `NUM_THREADS = T` and `INCREMENTS = N`. -/
def raceCondition (T N : ℕ) : Trans (State T) (Label T) where
  init := .init
  step := State.step N

end Counter
