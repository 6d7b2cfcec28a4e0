import LinuxExercises.Spec.Pause
import Mathlib.Data.Int.Notation

/-!
# `ex3_ipc_sigusr1.c`: a parent that sends signals to its child

The child is the loop of `Pause` that counts `SIGUSR1`. The parent sends it `MAX_TIME` of them
and then `SIGTERM`, waits for it and ends. A signal that is sent to a process that has one of
the kind pending is lost; a pending signal may be delivered between any two instructions. The
calls of `sleep` are left out, so nothing is assumed about who is faster, and so are the texts,
except for the counts that the child prints.
-/

namespace Sigusr1

open Sync

/-- The loop of the child, for `MAX_TIME = M`. -/
def childLoop (M : BitVec 32) (hM : 0 < M.toInt) : Pause.Loop :=
  ⟨M, fun c => M.toInt ≤ c.toInt, false, false, hM, by simp⟩

example : childLoop 5 (by decide) = Pause.ex3IpcSigusr1 := rfl

/-- How the child ended. -/
inductive Status where
  /-- By `_exit(0)`. -/
  | exited
  /-- By the default action of `SIGUSR1`. -/
  | usr1
  /-- By that of `SIGTERM`. -/
  | term
  deriving DecidableEq, Repr

/-- Where the parent is. -/
inductive ParentPc where
  | fork
  /-- At the test of the loop that sends the signals. -/
  | send (i : ℕ)
  /-- At `kill(pid_child, SIGTERM)`. -/
  | terminate
  /-- In `wait`. -/
  | wait
  /-- At the last `printf`. -/
  | print
  | ended
  deriving DecidableEq, Repr

/-- The parent, its child, the signals pending for the child, how it ended, and the counts it
has printed. -/
structure State where
  parent : ParentPc
  child : Option Pause.State
  usr1 : Bool
  term : Bool
  status : Option Status
  counts : List ℤ
  deriving DecidableEq, Repr

def State.init : State := ⟨.fork, none, false, false, none, []⟩

/-- `main` behind `fork` in the parent; `ok` is whether `fork` succeeds. A signal to a child that
has ended has no effect. -/
def State.parentStep (M : BitVec 32) (s : State) (ok : Bool) : Option State :=
  match s.parent with
  | .fork => some (if ok then { s with parent := .send 0, child := some .init } else { s with parent := .ended })
  | .send i =>
    if i < M.toNat then some { s with parent := .send (i + 1), usr1 := s.usr1 || s.status = none }
    else some { s with parent := .terminate }
  | .terminate => some { s with parent := .wait, term := s.status = none }
  | .wait => if s.status = none then none else some { s with parent := .print }
  | .print => some { s with parent := .ended }
  | .ended => none

/-- The next instruction of the child. -/
def State.childStep (L : Pause.Loop) (s : State) : Option State :=
  match s.child with
  | none => none
  | some c =>
    (L.mainStep c).map fun c' =>
      { s with
        child := some c'
        status := if c.pc = .exiting then some .exited else s.status
        counts := if c.pc = .print then s.counts ++ [c.count.toInt] else s.counts }

/-- `SIGUSR1` is delivered. -/
def State.deliverUsr1 (L : Pause.Loop) (s : State) : Option State :=
  match s.child with
  | none => none
  | some c =>
    if s.usr1 then
      (L.signal c).map fun c' =>
        { s with child := some c', usr1 := false, status := if c.pc = .install then some .usr1 else s.status }
    else none

/-- `SIGTERM` is delivered. -/
def State.deliverTerm (s : State) : Option State :=
  match s.child with
  | none => none
  | some c =>
    if s.term ∧ s.status = none then
      some { s with child := some { c with pc := .ended }, term := false, status := some .term }
    else none

/-- Who moves. -/
inductive Label where
  | parent (ok : Bool)
  | child
  | usr1
  | term
  deriving DecidableEq, Repr

/-- **The program**, for `MAX_TIME = M`. -/
def ipcSigusr1 (M : BitVec 32) (hM : 0 < M.toInt) : Trans State Label where
  init := .init
  step := fun s l =>
    match l with
    | .parent ok => s.parentStep M ok
    | .child => s.childStep (childLoop M hM)
    | .usr1 => s.deliverUsr1 (childLoop M hM)
    | .term => s.deliverTerm

/-- **What a run can come to**: the counts grow and stay within the limit; a child that exits
has printed one, and one that `SIGUSR1` has killed none. -/
def Outcome (M : BitVec 32) (counts : List ℤ) (status : Status) : Prop :=
  counts.Pairwise (· < ·) ∧ (∀ x ∈ counts, 1 ≤ x ∧ x ≤ M.toInt) ∧
    match status with
    | .exited => counts ≠ []
    | .usr1 => counts = []
    | .term => True

end Sigusr1
