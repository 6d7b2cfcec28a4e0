import LinuxExercises.Spec.Receive

/-!
# p2pchat: a talk

The main thread of one process reads `send` and `terminate` lines for a connection
(`Talks`), and the receive thread of the peer gets what these commands have sent.
-/

namespace Chat

/-! ## The sender -/

/-- What a command line has to send to a peer. -/
def Cmd.text : Cmd → Option Bytes
  | .send _ msg => sendText msg
  | .terminate _ => some disconnect
  | _ => none

/-- The lines read so far and a step. -/
def noteLine (s : State) (l : Label) (cmds : List Cmd) : List Cmd :=
  match s.main, l with
  | .loop, .main (.line cmd) => cmds ++ [cmd]
  | _, _ => cmds

/-- p2pchat from `t` on, with the lines that the main thread has read since. -/
def talking (E : Env) (t : State) : Sync.Trans (State × List Cmd) Label :=
  (⟨t, State.step E⟩ : Sync.Trans State Label).ghost [] noteLine

/-- **The commands reach the peer**: `send` and `terminate` find record `q`, the descriptor of
the record found denotes connection `c`, and the kernel takes what they send. -/
def Carries (q : Ptr) (c : Sock) (s : State) : Label → Prop
  | .main ch =>
    match s.main with
    | .send id _ .find => (s.mem.listed.find? fun p => (s.mem.node p).id = id ∧ (s.mem.node p).active) = some q
    | .terminate id .find => (s.mem.listed.find? fun p => (s.mem.node p).id = id) = some q
    | .send _ _ (.send p) => ch = .ok ∧ s.mem.connOf p = some c ∧ s.mem.brokenPipe p = false
    | .terminate _ (.send p) => ch = .ok ∧ s.mem.connOf p = some c ∧ s.mem.brokenPipe p = false
    | .terminate _ (.shutdown p) => s.mem.connOf p = some c
    | _ => True
  | _ => True

instance (q : Ptr) (c : Sock) (s : State) (l : Label) : Decidable (Carries q c s l) := by
  unfold Carries
  split
  · split <;> infer_instance
  · infer_instance

/-- **The main thread talks on connection `c`**: from `t` on it reads these lines and works them
off, in a run of the process to `t'`. -/
structure Talks (E : Env) (t : State) (q : Ptr) (c : Sock) (cmds : List Cmd) (t' : State) : Prop where
  reach : (chat E).Reachable t
  idle : t.main = .loop
  opened : c < t.mem.opens
  run : (talking E t).Reach (fun x l => Carries q c x.1 l) (t', cmds)
  back : t'.main = .loop

/-- What the calls of `send()` on connection `c` from `t` to `t'` bring to the peer, each of them
in one chunk. -/
def handed (t t' : State) (c : Sock) : List RecvResult :=
  ((t'.mem.sends.drop t.mem.sends.length).filter (·.file = some (.conn c))).map (.data ·.text)

/-! ## The receiver -/

/-- A message that is not empty, that `cmd_send` admits, and that is no protocol text. -/
def IsMessage (msg : CStr) : Prop :=
  msg.bytes ≠ [] ∧ msg.bytes.length ≤ maxMsgLen ∧ msg.bytes.take 14 ≠ disconnect

instance (msg : CStr) : Decidable (IsMessage msg) := inferInstanceAs (Decidable (_ ∧ _))

/-- The messages and the requested disconnect. -/
def transcript (msgs : List CStr) : List Shown := msgs.map (fun msg => .message msg.bytes) ++ [.requestedDisconnect]

/-- The receive thread of record `p` runs through the chunks, and displays the messages, one
display each, and then the requested disconnect. -/
def Delivers (E : Env) (s : State) (p : Ptr) (chunks : List Bytes) (msgs : List CStr) : Prop :=
  ∃ s', (chat E).run Sync.Trans.Free s (receives p chunks) = some s' ∧
    s'.mem.screen = s.mem.screen ++ (transcript msgs).map (p, ·)

/-- The user's messages: not empty, and within the length that `cmd_send` admits. -/
def Admitted (msg : CStr) : Prop := msg.bytes ≠ [] ∧ msg.bytes.length ≤ maxMsgLen

/-- **The peer shows the conversation and stays**: its receive thread never leaves its loop
while these results come, and comes through all of them with each message displayed unchanged
and its record as before. -/
def Converses (E : Env) (p : Ptr) (s : State) (rs : List RecvResult) (msgs : List CStr) : Prop :=
  (∀ x, (fed E p s rs).Reachable x → ∀ q, x.1.mem.recv p = some q → q.InLoop) ∧
    ∃ s', (fed E p s rs).Reachable (s', []) ∧ s'.mem.recv p = some .top ∧
      s'.mem.screen = s.mem.screen ++ msgs.map (fun msg => (p, .message msg.bytes)) ∧ s'.mem.node p = s.mem.node p

end Chat
