import LinuxExercises.Spec.Bytes
import LinuxExercises.Sync.Program
import LinuxExercises.Sync.Table
import LinuxExercises.Sync.Trans

/-!
# `ex1_pipe.c`: `ls -l | wc -l`

Three processes with their own descriptor tables, and one pipe between them. The parent makes
the pipe, forks both children, closes its two ends and waits. Each child closes the end it
does not use, moves the other one to its standard descriptor with `dup2`, closes the original
and executes its program.

`ls` and `wc` are not part of the sources: they are any two programs, which act on the shared
state through their standard descriptors. The kernel is: `pipe` takes the two lowest free
numbers, `fork` copies the table, the end of a process closes everything it has open; a write
into a pipe without a read end is a `SIGPIPE`, one into a full pipe waits; a read from an empty
pipe waits as long as any process has a write end open, and is the end of the input then.
-/

namespace Pipe

open Sync
open Chat (Bytes)

abbrev Fd := ℕ

/-- What a descriptor denotes: a file from before the start, or an end of the pipe. -/
inductive File where
  | inherited
  | readEnd
  | writeEnd
  deriving DecidableEq, Repr

/-- `pid_child1` and `pid_child2`. -/
inductive Child where
  | child1
  | child2
  deriving DecidableEq, Repr

/-- The standard descriptor it redirects: `STDOUT_FILENO`, `STDIN_FILENO`. -/
def Child.std : Child → Fd
  | .child1 => 1
  | .child2 => 0

/-- How a process ended: its program has exited, it gave up with `EXIT_FAILURE` in the code of
`ex1_pipe.c`, or a signal has ended it. The parent that returns 0 has exited. -/
inductive End where
  | exited (st : UInt8)
  | failed
  | killed
  deriving DecidableEq, Repr

/-- `WEXITSTATUS`, if `WIFEXITED`. -/
def End.status : End → Option UInt8
  | .exited st => some st
  | .failed => some 1
  | .killed => none

/-- Where a child is. -/
inductive ChildPc where
  | unborn
  /-- At the `close` of the end it does not use. -/
  | closeOther
  | dup2
  /-- At the `close` of the end it has moved. -/
  | closeOwn
  | exec
  /-- In its program. -/
  | running
  | ended (e : End)
  deriving DecidableEq, Repr

/-- Where the parent is. -/
inductive ParentPc where
  | pipe
  | fork1
  | fork2
  | close0
  | close1
  | wait1
  | wait2 (st1 : End)
  /-- At the tests of both statuses. -/
  | report (st1 st2 : End)
  | ended (e : End)
  deriving DecidableEq, Repr

/-- The line about a child that the parent prints, with the status in it. -/
def Child.complaint (ρ : Child) (e : End) : List (Child × UInt8) :=
  match e.status with
  | some st => if st ≠ 0 then [(ρ, st)] else []
  | none => []

/-- The processes with their tables, `pipe_fds`, the bytes in the pipe, where the programs of the
children are, and the lines that the parent has printed. Two fields are for the statements: the
bytes that were read from the pipe, and whether a read has come to its end. -/
structure State (σ : Type*) where
  parent : ParentPc
  child : Child → ChildPc
  parentTable : Table File
  childTable : Child → Table File
  pipeFds : Fd × Fd
  buffer : Bytes
  prog : Child → σ
  taken : Bytes
  eof : Bool
  reported : List (Child × UInt8)

/-- What the kernel decides at a step of a child: the call fails, transfers so many bytes, brings
these bytes from a file, or a signal ends the process. -/
inductive Choice where
  | ok
  | fail
  | bytes (n : ℕ)
  | input (b : Bytes)
  | kill
  deriving DecidableEq, Repr

namespace State

variable {σ : Type*} (P : Child → Program UInt8 σ) (s : State σ)

/-- The entry of `pipe_fds` that a child uses: it writes to the second, or reads from the
first. -/
def own : Child → Fd
  | .child1 => s.pipeFds.2
  | .child2 => s.pipeFds.1

/-- The entry it does not use. -/
def other : Child → Fd
  | .child1 => s.pipeFds.1
  | .child2 => s.pipeFds.2

/-- Some process has the file open. -/
def held (f : File) : Bool :=
  s.parentTable.has f || (s.childTable .child1).has f || (s.childTable .child2).has f

/-- A child goes on at `pc`, with this table. -/
def goto (ρ : Child) (pc : ChildPc) (t : Table File) : State σ :=
  { s with child := Function.update s.child ρ pc, childTable := Function.update s.childTable ρ t }

/-- A child ends. -/
def exit (ρ : Child) (e : End) : State σ := s.goto ρ (.ended e) []

/-- `die` in the parent. -/
def die : State σ := { s with parent := .ended .failed, parentTable := [] }

/-- `fork` in the parent: the child gets a copy of its table. -/
def fork (ρ : Child) (pc : ParentPc) : State σ := { s.goto ρ .closeOther s.parentTable with parent := pc }

/-- `pipe(pipe_fds)`. -/
def pipe : State σ :=
  let r := s.parentTable.lowest
  let t := s.parentTable.put r (some .readEnd)
  { s with parent := .fork1, pipeFds := (r, t.lowest), parentTable := t.put t.lowest (some .writeEnd) }

/-- The parent; `ok` is whether `pipe` and `fork` succeed. -/
def parentStep (ok : Bool) : Option (State σ) :=
  match s.parent with
  | .pipe => some (if ok then s.pipe else s.die)
  | .fork1 => some (if ok then s.fork .child1 .fork2 else s.die)
  | .fork2 => some (if ok then s.fork .child2 .close0 else s.die)
  | .close0 => some { s with parent := .close1, parentTable := s.parentTable.put s.pipeFds.1 none }
  | .close1 => some { s with parent := .wait1, parentTable := s.parentTable.put s.pipeFds.2 none }
  | .wait1 =>
    match s.child .child1 with
    | .ended e => some { s with parent := .wait2 e }
    | _ => none
  | .wait2 st1 =>
    match s.child .child2 with
    | .ended e => some { s with parent := .report st1 e }
    | _ => none
  | .report st1 st2 =>
    some { s with
      parent := .ended (.exited 0)
      parentTable := []
      reported := Child.complaint .child1 st1 ++ Child.complaint .child2 st2 }
  | .ended _ => none

/-- The program of a child gets the result of its call. -/
def resume (ρ : Child) (r : Program.Result UInt8) : State σ :=
  { s with prog := Function.update s.prog ρ ((P ρ).next (s.prog ρ) r) }

/-- `read` on standard input. What another file than the pipe brings is up to the kernel. -/
def read (ρ : Child) (ch : Choice) : Option (State σ) :=
  match (s.childTable ρ).get 0 with
  | some .readEnd =>
    if s.buffer = [] then
      if s.held .writeEnd then none else some { s.resume P ρ (.read []) with eof := true }
    else match ch with
      | .bytes n =>
        if 0 < n ∧ n ≤ s.buffer.length then
          some { s.resume P ρ (.read (s.buffer.take n)) with
            buffer := s.buffer.drop n
            taken := s.taken ++ s.buffer.take n }
        else none
      | _ => none
  | some .inherited =>
    match ch with
    | .input b => some (s.resume P ρ (.read b))
    | .fail => some (s.resume P ρ .failed)
    | _ => none
  | some .writeEnd | none => some (s.resume P ρ .failed)

/-- `write` of `b` to standard output; `cap` is the capacity of the pipe. -/
def write (cap : ℕ) (ρ : Child) (b : Bytes) (ch : Choice) : Option (State σ) :=
  match (s.childTable ρ).get 1 with
  | some .writeEnd =>
    if s.held .readEnd then
      match ch with
      | .bytes n =>
        if n ≤ b.length ∧ (0 < n ∨ b = []) ∧ s.buffer.length + n ≤ cap then
          some { s.resume P ρ (.wrote n) with buffer := s.buffer ++ b.take n }
        else none
      | _ => none
    else some (s.exit ρ .killed)
  | some .inherited =>
    match ch with
    | .bytes n => if n ≤ b.length ∧ (0 < n ∨ b = []) then some (s.resume P ρ (.wrote n)) else none
    | .fail => some (s.resume P ρ .failed)
    | .kill => some (s.exit ρ .killed)
    | _ => none
  | some .readEnd | none => some (s.resume P ρ .failed)

/-- A child in its program. -/
def run (cap : ℕ) (ρ : Child) (ch : Choice) : Option (State σ) :=
  match (P ρ).call (s.prog ρ) with
  | .exit st => some (s.exit ρ (.exited st))
  | .read => s.read P ρ ch
  | .write b => s.write P cap ρ b ch

/-- A child; `fail` at `exec` is an `execlp` that comes back. -/
def childStep (cap : ℕ) (ρ : Child) (ch : Choice) : Option (State σ) :=
  let t := s.childTable ρ
  match s.child ρ with
  | .unborn => none
  | .closeOther => some (s.goto ρ .dup2 (t.put (s.other ρ) none))
  | .dup2 =>
    match t.dup2 (s.own ρ) ρ.std with
    | some t => some (s.goto ρ .closeOwn t)
    | none => some (s.exit ρ .failed)
  | .closeOwn => some (s.goto ρ .exec (t.put (s.own ρ) none))
  | .exec => some (if ch = .fail then s.exit ρ .failed else s.goto ρ .running t)
  | .running => s.run P cap ρ ch
  | .ended _ => none

end State

/-- Who moves. -/
inductive Label where
  | parent (ok : Bool)
  | child (ρ : Child) (ch : Choice)

variable {σ : Type*}

/-- **One step.** -/
def State.step (P : Child → Program UInt8 σ) (cap : ℕ) (s : State σ) : Label → Option (State σ)
  | .parent ok => s.parentStep ok
  | .child ρ ch => s.childStep P cap ρ ch

/-- The descriptors that are open at the start. -/
def inherited (start : List Bool) : Table File := start.map fun b => if b then some .inherited else none

/-- **The program**, with `ls` and `wc` as the programs of its children, these descriptors open
at the start, and a pipe of this capacity. -/
def pipeline (P : Child → Program UInt8 σ) (start : List Bool) (cap : ℕ) : Trans (State σ) Label where
  init := ⟨.pipe, fun _ => .unborn, inherited start, fun _ => [], (0, 0), [], fun ρ => (P ρ).start, [], false, []⟩
  step := State.step P cap

/-- No `pipe`, `fork` or `execlp` fails. -/
def NoFail (s : State σ) : Label → Prop
  | .parent ok => ok = true
  | .child ρ ch => s.child ρ = .exec → ch ≠ .fail

instance : DecidableRel (NoFail (σ := σ)) := fun _ l =>
  match l with
  | .parent _ => inferInstanceAs (Decidable (_ = true))
  | .child _ _ => inferInstanceAs (Decidable (_ → _))

/-! ## What the pipeline is for -/

/-- Every process that was started has ended, and the parent too. -/
def State.Over (s : State σ) : Prop :=
  (∃ e, s.parent = .ended e) ∧ ∀ ρ, s.child ρ = .unborn ∨ ∃ e, s.child ρ = .ended e

end Pipe
