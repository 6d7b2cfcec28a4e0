import LinuxExercises.Spec.Chat

/-!
# p2pchat: the sends of a run

The calls of `send()` that the main thread makes in a run of the process, each with the
states before and after it.
-/

namespace Chat

/-- The record of the `send()` that the main thread is before. -/
def MainPc.sending : MainPc → Option Ptr
  | .send _ _ (.send p) => some p
  | .terminate _ (.send p) => some p
  | .exit (.send p) => some p
  | _ => none

/-- A call of `send()`. -/
structure SendStep where
  conn : Ptr
  choice : Choice
  before : State
  after : State

/-- Did the call write nothing? -/
def SendStep.failed (c : SendStep) : Bool :=
  c.before.mem.brokenPipe c.conn ∨ ¬ (c.choice = .ok ∧ (c.before.mem.connOf c.conn).isSome)

/-- The connection can be written: the peer has not reset it, and it was not shut down here. -/
def SendStep.Writable (c : SendStep) : Prop := c.before.mem.brokenPipe c.conn = false

/-- The registry in two states: its list and its records. -/
def SameRegistry (s s' : State) : Prop :=
  s'.mem.connHead = s.mem.connHead ∧ s'.mem.next = s.mem.next ∧ s'.mem.node = s.mem.node

/-- The call has come back with an error: `cmd_send` unlocks and has the error to report, with
the registry as it was; the other two go on to their `shutdown`. -/
def SendStep.CameBack (c : SendStep) : Prop :=
  match c.before.main with
  | .send id text _ => c.after.main = .send id text (.unlock c.conn false) ∧ SameRegistry c.before c.after
  | .terminate id _ => c.after.main = .terminate id (.shutdown c.conn)
  | .exit _ => c.after.main = .exit (.shutdown c.conn)
  | _ => False

/-- The process goes on behind the call, with the error if the call has failed. -/
def SendStep.Survived (c : SendStep) : Prop := c.after.main ≠ .ended ∧ (c.failed → c.CameBack)

/-- The calls so far and a step. -/
def noteSend (E : Env) (s : State) (l : Label) (calls : List SendStep) : List SendStep :=
  match s.main.sending, l, s.step E l with
  | some p, .main ch, some s' => ⟨p, ch, s, s'⟩ :: calls
  | _, _, _ => calls

/-- **p2pchat with the calls of `send()`** that the main thread has made. -/
def chatSends (E : Env) : Sync.Trans (State × List SendStep) Label := (chat E).ghost [] (noteSend E)

end Chat
