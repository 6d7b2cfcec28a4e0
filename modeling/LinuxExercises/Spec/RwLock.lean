import LinuxExercises.Sync.RwLock
import LinuxExercises.Sync.Trans
import Mathlib.Data.Fintype.Sum

/-!
# `ex4_rw_lock.c`: readers and writers under a read-write lock

`NUM_THREAD_READ` readers print the shared data under `pthread_rwlock_rdlock`,
`NUM_THREAD_WRITE` writers increment and print it under `pthread_rwlock_wrlock`, each
`NUM_ITERATIONS` times. `main` creates all threads, joins them in order and destroys the lock.
One step for each lock call, each access to `g_shared_data`, and each `printf`; any other thread
may run in between. The calls of `usleep` are left out, and `pthread_create` succeeds, as the
program takes for granted.

Whether a reader also waits for the writers that wait is left open to the system; `polite`
says so. The data never passes 5 + 2 * 5, far inside `int`.
-/

namespace ReadWrite

open Sync

/-- What a line of the output says. -/
inductive Role where
  /-- `Reader %d reads data: %d.` -/
  | read
  /-- `Writer %d write data: %d.` -/
  | write
  deriving DecidableEq, Repr

/-- A line of the output. -/
structure Line where
  role : Role
  id : ℕ
  data : ℕ
  deriving DecidableEq, Repr

/-- Where a thread is. -/
inductive Pc where
  /-- Not created yet. -/
  | unborn
  /-- At the test `i < NUM_ITERATIONS`. -/
  | top
  /-- In `pthread_rwlock_rdlock` or `pthread_rwlock_wrlock`. -/
  | lock
  /-- Before `g_shared_data++` reads. -/
  | fetch
  /-- Before `g_shared_data++` writes. -/
  | store (temp : ℕ)
  /-- Before the argument of the `printf` is read. -/
  | load
  /-- In the `printf`. -/
  | print (data : ℕ)
  /-- At `pthread_rwlock_unlock`. -/
  | unlock
  | exited
  deriving DecidableEq, Repr

/-- A thread: its place, the `id` it was given, and its loop variable. -/
structure Thread where
  pc : Pc
  id : ℕ
  i : ℕ
  deriving DecidableEq, Repr

/-- Where `main` is: at the test of one of its four loops, or behind them. -/
inductive MainPc where
  | createRead (k : ℕ)
  | createWrite (k : ℕ)
  | joinRead (k : ℕ)
  | joinWrite (k : ℕ)
  /-- At `pthread_rwlock_destroy`. -/
  | destroy
  | ended
  deriving DecidableEq, Repr

/-- The shared data, the lock, the threads, and the output so far. -/
structure State (R W : ℕ) where
  sharedData : ℕ
  rwlock : RwLock
  thread : Fin R ⊕ Fin W → Thread
  main : MainPc
  output : List Line

variable {R W : ℕ}

def State.init (d : ℕ) : State R W := ⟨d, .free, fun _ => ⟨.unborn, 0, 0⟩, .createRead 0, []⟩

/-- Thread `k` has changed. -/
def State.set (s : State R W) (k : Fin R ⊕ Fin W) (θ : Thread) : State R W :=
  { s with thread := Function.update s.thread k θ }

/-- What readers and writers do alike; `role` is what the printed line calls the thread. -/
def State.common (N : ℕ) (role : Role) (s : State R W) (k : Fin R ⊕ Fin W) : Option (State R W) :=
  let θ := s.thread k
  match θ.pc with
  | .top => some (s.set k { θ with pc := if θ.i < N then .lock else .exited })
  | .load => some (s.set k { θ with pc := .print s.sharedData })
  | .print data => some { s.set k { θ with pc := .unlock } with output := s.output ++ [⟨role, θ.id, data⟩] }
  | .unlock => some { s.set k { θ with pc := .top, i := θ.i + 1 } with rwlock := s.rwlock.unlock }
  | _ => none

/-- A writer waits for the lock. -/
def State.WriterWaits (s : State R W) : Prop := ∃ k, (s.thread (.inr k)).pc = .lock

instance (s : State R W) : Decidable s.WriterWaits := inferInstanceAs (Decidable (∃ _, _))

/-- `read_function`, for `NUM_ITERATIONS = N`. -/
def State.readFunction (polite : Bool) (N : ℕ) (s : State R W) (k : Fin R) : Option (State R W) :=
  let θ := s.thread (.inl k)
  match θ.pc with
  | .lock =>
    if polite ∧ s.WriterWaits then none
    else s.rwlock.rdlock.map fun l => { s.set (.inl k) { θ with pc := .load } with rwlock := l }
  | _ => s.common N .read (.inl k)

/-- `write_function`. -/
def State.writeFunction (N : ℕ) (s : State R W) (k : Fin W) : Option (State R W) :=
  let θ := s.thread (.inr k)
  match θ.pc with
  | .lock => s.rwlock.wrlock.map fun l => { s.set (.inr k) { θ with pc := .fetch } with rwlock := l }
  | .fetch => some (s.set (.inr k) { θ with pc := .store s.sharedData })
  | .store temp => some { s.set (.inr k) { θ with pc := .load } with sharedData := temp + 1 }
  | _ => s.common N .write (.inr k)

/-- `main`. The ids are the entries `k + 1` of `read_ids` and `write_ids`. -/
def State.mainStep (s : State R W) : Option (State R W) :=
  match s.main with
  | .createRead k =>
    if h : k < R then some { s.set (.inl ⟨k, h⟩) ⟨.top, k + 1, 0⟩ with main := .createRead (k + 1) }
    else some { s with main := .createWrite 0 }
  | .createWrite k =>
    if h : k < W then some { s.set (.inr ⟨k, h⟩) ⟨.top, k + 1, 0⟩ with main := .createWrite (k + 1) }
    else some { s with main := .joinRead 0 }
  | .joinRead k =>
    if h : k < R then
      if (s.thread (.inl ⟨k, h⟩)).pc = .exited then some { s with main := .joinRead (k + 1) } else none
    else some { s with main := .joinWrite 0 }
  | .joinWrite k =>
    if h : k < W then
      if (s.thread (.inr ⟨k, h⟩)).pc = .exited then some { s with main := .joinWrite (k + 1) } else none
    else some { s with main := .destroy }
  | .destroy => some { s with main := .ended }
  | .ended => none

/-- Who moves. -/
inductive Label (R W : ℕ) where
  | main
  | thread (k : Fin R ⊕ Fin W)

/-- **One step.** When `main` has returned, the process is over. -/
def State.step (polite : Bool) (N : ℕ) (s : State R W) (l : Label R W) : Option (State R W) :=
  if s.main = .ended then none
  else match l with
    | .main => s.mainStep
    | .thread (.inl k) => s.readFunction polite N k
    | .thread (.inr k) => s.writeFunction N k

/-- **The program**, with `R` readers, `W` writers, `N` iterations, and the data `d` at first. -/
def rwLock (polite : Bool) (R W N d : ℕ) : Trans (State R W) (Label R W) where
  init := .init d
  step := State.step polite N

/-! ## What the output should be -/

/-- **The output of readers and writers that take turns**: with the data `d` at first, every
writer's line shows one more than the data before it, every reader's line the data. -/
def TakeTurns (d : ℕ) : List Line → Prop
  | [] => True
  | ⟨.read, _, data⟩ :: out => data = d ∧ TakeTurns d out
  | ⟨.write, _, data⟩ :: out => data = d + 1 ∧ TakeTurns (d + 1) out

/-- How many threads have the role. -/
def Role.threads (R W : ℕ) : Role → ℕ
  | .read => R
  | .write => W

/-- **A complete output**: readers and writers take turns, and each id from 1 on has its `N`
lines. -/
structure Complete (R W N d : ℕ) (out : List Line) : Prop where
  turns : TakeTurns d out
  lines : ∀ role id, out.countP (fun l => l.role = role ∧ l.id = id) =
    if 1 ≤ id ∧ id ≤ role.threads R W then N else 0

/-- The thread holds the lock. -/
def Pc.Holds : Pc → Prop
  | .fetch | .store _ | .load | .print _ | .unlock => True
  | .unborn | .top | .lock | .exited => False

end ReadWrite
