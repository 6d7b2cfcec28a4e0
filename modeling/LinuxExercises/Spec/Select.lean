import LinuxExercises.Sync.Trans

/-!
# `ex4_select.c`: signals and lines in one loop

`main` waits in `select` for a line or a signal and looks at the flags of the handler when
`select` was interrupted. One step for each instruction; between any two of them `SIGINT` and
`SIGTERM` may be delivered, and `handle_signal` runs to its end at once.

`signal` keeps the handler installed and restarts `fgets`, not `select`; until its handler is
installed a signal ends the process. A `select` that has nothing to report waits until the
input is readable or a handler has run. What the lines say is left out.
-/

namespace Select

open Sync

inductive Signal where
  | int
  | term
  deriving DecidableEq, Repr

/-- What `select` has returned: the input is readable, or `ret < 0` with this `errno`. -/
inductive Ret where
  | ready
  | eintr
  | error
  deriving DecidableEq, Repr

/-- How the process has ended: by the exit branch, after an error of `select`, or by a signal
without a handler. -/
inductive Ending where
  | exited
  | failed
  | killed
  deriving DecidableEq, Repr

/-- Where the process is. -/
inductive Pc where
  /-- At `signal(SIGINT, handle_signal)`. -/
  | signalInt
  /-- At `signal(SIGTERM, handle_signal)`. -/
  | signalTerm
  /-- At the `printf` before the loop. -/
  | greet
  /-- At `FD_ZERO`. -/
  | fdZero
  /-- At `FD_SET`. -/
  | fdSet
  /-- At `select`. -/
  | select
  /-- In `select`. -/
  | blocked
  /-- At `if (ret < 0)`. -/
  | returned (r : Ret)
  /-- At `if (errno == EINTR)`. -/
  | errno (r : Ret)
  /-- At `perror("select")` and `exit(EXIT_FAILURE)`. -/
  | perror
  /-- At `if (g_sigint)`. -/
  | ifInt
  /-- At `g_sigint = 0`. -/
  | clearInt
  /-- At the `printf` for `SIGINT`. -/
  | printInt
  /-- At `if (g_sigterm)`. -/
  | ifTerm
  /-- In the exit branch, at its `printf`. -/
  | printTerm
  /-- Behind the loop. -/
  | leave
  /-- At `FD_ISSET`. -/
  | isSet
  /-- At or in `fgets`. -/
  | fgets
  /-- At the `printf` of the line. -/
  | echo
  | ended (e : Ending)
  deriving DecidableEq, Repr

/-- `g_sigint`, `g_sigterm`, and where the process is. -/
structure State where
  pc : Pc
  sigint : Bool
  sigterm : Bool
  deriving DecidableEq, Repr

def State.init : State := ⟨.signalInt, false, false⟩

/-- `handle_signal`. -/
def State.handleSignal (s : State) : Signal → State
  | .int => { s with sigint := true }
  | .term => { s with sigterm := true }

/-- The next instruction of `main`, `select` and `fgets` apart. -/
def State.mainStep (s : State) : Option State :=
  match s.pc with
  | .signalInt => some { s with pc := .signalTerm }
  | .signalTerm => some { s with pc := .greet }
  | .greet => some { s with pc := .fdZero }
  | .fdZero => some { s with pc := .fdSet }
  | .fdSet => some { s with pc := .select }
  | .returned .ready => some { s with pc := .isSet }
  | .returned r => some { s with pc := .errno r }
  | .errno .eintr => some { s with pc := .ifInt }
  | .errno _ => some { s with pc := .perror }
  | .perror => some { s with pc := .ended .failed }
  | .ifInt => if s.sigint then some { s with pc := .clearInt } else some { s with pc := .ifTerm }
  | .clearInt => some { s with pc := .printInt, sigint := false }
  | .printInt => some { s with pc := .ifTerm }
  -- otherwise `continue`: the flags are not looked at again before the next `select`
  | .ifTerm => if s.sigterm then some { s with pc := .printTerm } else some { s with pc := .fdZero }
  | .printTerm => some { s with pc := .leave }
  | .leave => some { s with pc := .ended .exited }
  -- the set has one member, so it is the readable one
  | .isSet => some { s with pc := .fgets }
  | .echo => some { s with pc := .fdZero }
  | .select | .blocked | .fgets | .ended _ => none

/-- A signal is delivered. -/
def State.deliver (s : State) (x : Signal) : Option State :=
  match s.pc, x with
  | .ended _, _ => none
  -- the default action
  | .signalInt, _ | .signalTerm, .term => some { s with pc := .ended .killed }
  -- only here does the handler return into a call that fails with `EINTR`
  | .blocked, x => some { s.handleSignal x with pc := .returned .eintr }
  | _, x => some (s.handleSignal x)

/-- What happens next. -/
inductive Label where
  /-- An instruction of `main`. -/
  | go
  /-- `select` is called: it returns at once, or (`none`) it waits. -/
  | select (r : Option Ret)
  /-- The input gets readable while `select` waits. -/
  | readable
  /-- `fgets` returns: a line, or `NULL`. -/
  | fgets (line : Bool)
  /-- A signal is delivered. -/
  | signal (x : Signal)
  deriving DecidableEq, Repr

/-- **One step.** -/
def State.step (s : State) : Label → Option State
  | .go => s.mainStep
  | .select none => if s.pc = .select then some { s with pc := .blocked } else none
  | .select (some r) => if s.pc = .select ∧ r ≠ .eintr then some { s with pc := .returned r } else none
  | .readable => if s.pc = .blocked then some { s with pc := .returned .ready } else none
  | .fgets line =>
    if s.pc = .fgets then some { s with pc := if line then .echo else .fdZero } else none
  | .signal x => s.deliver x

/-- **The program.** -/
def ex4Select : Trans State Label where
  init := .init
  step := State.step

/-! ## What the loop is for -/

/-- A step that is no signal. -/
def Label.Quiet (l : Label) : Prop := ∀ x, l ≠ .signal x

/-- **No signal is lost**: the process does not wait with a flag set, and once `SIGTERM` has
been handled it ends by the exit branch on its own. -/
def State.Safe (s : State) : Prop :=
  (s.pc = .blocked → s.sigterm = false ∧ s.sigint = false) ∧
  (s.sigterm = true → ∃ t, ex4Select.Leads (· = .go) s t ∧ t.pc = .ended .exited)

/-- The signal is delivered where the loop still looks at its flag before it waits again: while
`select` waits, or on the way from an interrupted `select` to the test of the flag. A `SIGINT`
behind its test is harmless when `SIGTERM` is there already, and so is one after an error. -/
def Seen (s : State) : Label → Prop
  | .signal x =>
    match s.pc with
    | .signalTerm => x = .term
    | .greet | .fdZero | .fdSet | .select | .returned .ready | .isSet | .fgets | .echo => False
    | .printInt | .ifTerm => x = .term ∨ s.sigterm = true
    | .returned .error | .errno .error | .perror => x = .int
    | _ => True
  | _ => True

instance : DecidableRel Seen := fun s l => by
  unfold Seen
  cases l with
  | signal x => cases s.pc with
    | returned r => cases r <;> infer_instance
    | errno r => cases r <;> infer_instance
    | _ => infer_instance
  | _ => infer_instance

end Select
