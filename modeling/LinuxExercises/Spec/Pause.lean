import LinuxExercises.Sync.Trans

/-!
# Loops that count signals in `pause`

`ex1_creat_run_signal.c`, `ex2_sigalrm_timer.c` and the child of `ex3_ipc_sigusr1.c` run the
same loop: wait in `pause` for a run of the handler, which counts in `g_count`, print, compare
`g_count` with `MAX_TIME`, and exit or go on. They differ in the comparison, in the line they
print first, and in that the second one gets its signal from `alarm` (`Loop`).

One step for each instruction; the handler may run between any two of them, as often as its
signal comes, and stays installed. `g_count` is an `int` and wraps. Until the handler is
installed a signal ends the process. What is printed is left out, and so is the parent of the third program, which does no
more than send signals.
-/

namespace Pause

open Sync

/-- The parameters of the loop. The comparison finds the limit itself. -/
structure Loop where
  maxTime : BitVec 32
  /-- The condition of the exit branch, on `g_count`. -/
  exits : BitVec 32 → Bool
  /-- It prints a line before the loop. -/
  greets : Bool
  /-- Its signal is the one of `alarm(1)`, which it calls before the loop and after each check. -/
  alarm : Bool
  maxTime_pos : 0 < maxTime.toInt
  exits_maxTime : exits maxTime = true

/-- `ex1_creat_run_signal.c`: `SIGINT`, `g_count == MAX_TIME`. -/
def ex1CreatRunSignal : Loop := ⟨3, fun c => c = 3, true, false, by decide, by decide⟩

/-- `ex2_sigalrm_timer.c`: `SIGALRM`, `g_count >= MAX_TIME`. -/
def ex2SigalrmTimer : Loop := ⟨10, fun c => (10 : BitVec 32).toInt ≤ c.toInt, true, true, by decide, by decide⟩

/-- The child of `ex3_ipc_sigusr1.c`: `SIGUSR1`, `g_count >= MAX_TIME`. -/
def ex3IpcSigusr1 : Loop := ⟨5, fun c => (5 : BitVec 32).toInt ≤ c.toInt, false, false, by decide, by decide⟩

/-- The three programs. -/
def programs : List Loop := [ex1CreatRunSignal, ex2SigalrmTimer, ex3IpcSigusr1]

/-- Where the process is. -/
inductive Pc where
  /-- At the call of `signal`. -/
  | install
  /-- At the `printf` before the loop. -/
  | greet
  /-- At the `alarm(1)` before the loop. -/
  | arm
  /-- At `pause`. -/
  | pause
  /-- In `pause`. -/
  | blocked
  /-- At the `printf` behind `pause`. -/
  | print
  /-- At the comparison with `MAX_TIME`. -/
  | check
  /-- At the `alarm(1)` at the end of the loop. -/
  | rearm
  /-- In the exit branch. -/
  | exiting
  | ended
  deriving DecidableEq, Repr

/-- `g_count`, whether an alarm is set, and where the process is. -/
structure State where
  pc : Pc
  count : BitVec 32
  armed : Bool
  deriving DecidableEq, Repr

def State.init : State := ⟨.install, 0, false⟩

/-- The handler: `g_count++`. -/
def State.handle (s : State) : State := { s with count := s.count + 1, armed := false }

/-- Where the loop waits first, once everything is printed. -/
def Loop.start (L : Loop) : Pc := if L.alarm then .arm else .pause

/-- The next instruction. -/
def Loop.mainStep (L : Loop) (s : State) : Option State :=
  match s.pc with
  | .install => some { s with pc := if L.greets then .greet else L.start }
  | .greet => some { s with pc := L.start }
  | .arm | .rearm => some { s with pc := .pause, armed := true }
  | .pause => some { s with pc := .blocked }
  | .print => some { s with pc := .check }
  | .check =>
    if L.exits s.count then some { s with pc := .exiting }
    else some { s with pc := if L.alarm then .rearm else .pause }
  | .exiting => some { s with pc := .ended }
  | .blocked | .ended => none

/-- The signal comes; the one of `alarm` only when an alarm is set. -/
def Loop.signal (L : Loop) (s : State) : Option State :=
  if L.alarm ∧ ¬ s.armed then none
  else
    match s.pc with
    | .ended => none
    -- the default action
    | .install => some { s with pc := .ended }
    -- `pause` returns when the handler has returned
    | .blocked => some { s.handle with pc := .print }
    | _ => some s.handle

inductive Label where
  /-- An instruction of the loop. -/
  | go
  /-- The signal comes. -/
  | signal
  deriving DecidableEq, Repr

/-- **The program.** -/
def Loop.program (L : Loop) : Trans State Label where
  init := .init
  step := fun s l =>
    match l with
    | .go => L.mainStep s
    | .signal => L.signal s

/-! ## What the loop is for -/

/-- **The loop stops at its limit**: it does not wait with the limit reached, and it exits at
each check with the limit reached. -/
def Loop.Stops (L : Loop) (s : State) : Prop :=
  (s.pc = .blocked → s.count.toInt < L.maxTime.toInt) ∧
  (s.pc = .check → L.maxTime.toInt ≤ s.count.toInt → ∃ t, L.program.step s .go = some t ∧ t.pc = .exiting)

/-- A run of the handler that the loop takes notice of. Outside `pause`, it does not reach the
limit before the next `pause`; and between `pause` and the comparison it does not pass the
values that the comparison finds. -/
def Loop.Timely (L : Loop) (s : State) : Label → Prop
  | .go => True
  | .signal =>
    match s.pc with
    | .greet | .arm | .pause | .rearm => (s.count + 1).toInt < L.maxTime.toInt
    | .print | .check => L.maxTime.toInt ≤ (s.count + 1).toInt → L.exits (s.count + 1) = true
    | .install | .blocked | .exiting | .ended => True

instance (L : Loop) : DecidableRel L.Timely := fun s l => by
  unfold Loop.Timely
  cases l with
  | go => infer_instance
  | signal => cases s.pc <;> infer_instance

end Pause
