import LinuxExercises.Spec.Chat
import LinuxExercises.Spec.Reap

/-!
# p2pchat: one call of `cmd_terminate`

`cmd_terminate` step by step on any registry, while the listener inserts records and
receive threads mark theirs in the window in which it has given up `conn_mutex`.
-/

namespace Chat

/-- The command has given up the mutex. -/
def TermPc.inWindow : TermPc → Bool
  | .join _ | .joining _ _ | .relock _ => true
  | _ => false

/-- An insertion or a mark. -/
def Meddle.isWindowAct : Meddle → Bool
  | .prepend .. | .mark _ => true
  | .rollback _ => false

/-- A call of `cmd_terminate`: the shared state, where the call is, its operations so far,
and the state in which it got the mutex back. -/
structure Terminating where
  mem : Mem
  pc : Flow TermPc
  ops : List Op
  relocked : Option Mem

/-- A step of the command, or an interference. -/
inductive TermLabel where
  | go (ch : Choice)
  | meddle (a : Meddle)

def Terminating.step (id : BitVec 32) (s : Terminating) : TermLabel → Option Terminating
  | .go ch =>
    match s.pc with
    | .goto q =>
      (cmdTerminate s.mem id ch q).map fun (op, f) =>
        { mem := s.mem.apply .main op
          pc := f
          ops := s.ops ++ [op]
          relocked := match q with
            | .relock _ => some (s.mem.apply .main op)
            | _ => s.relocked }
    | _ => none
  | .meddle a =>
    match s.pc with
    | .goto q => if q.inWindow && a.isWindowAct then some { s with mem := s.mem.meddle a } else none
    | _ => none

/-- **`cmd_terminate(id)`** on the registry of `m`. -/
def terminating (id : BitVec 32) (m : Mem) : Sync.Trans Terminating TermLabel where
  init := ⟨m, .goto .lock, [], none⟩
  step := Terminating.step id

/-- The calls among the operations: what acts on a socket, a thread, the list or the heap. -/
def Op.isCall : Op → Bool
  | .skip | .lock | .unlock | .deactivate _ | .joinReturn _ => false
  | _ => true

/-- A connection that was notified, if `send()` has written the protocol text, and shut down. -/
def Socket.ended (k : Socket) (written : Bool) : Socket :=
  { k with shut := true, outbox := k.outbox ++ if written then disconnect else [] }

/-- **What `cmd_terminate` does to its target**: `m` is the state at the call, `p` the record
with the id, `m'` the state in which the mutex was taken again, and `s` how the call returned.

* `calls`, `socket`: one send, one `shutdown`, one `close`, one join, one removal and one `free`,
  each for `p`, by which the socket of `p` was notified and shut down;
* `sent`, `closed`: the send and the `close` were on the socket of `p`;
* `sockets`, `files`: all other sockets and descriptors are as they were at the call;
* `gone`, `ended`: `p` is released and not listed, and its thread has ended;
* `rest`, `fields`: all other records are there as they were at `m'`. -/
structure Terminated (m : Mem) (p : Ptr) (m' : Mem) (s : Terminating) : Prop where
  calls : ∃ written prev, s.ops.filter Op.isCall =
    [.send p disconnect written, .shutdown p, .close (m.node p).sockfd (some p), .joinCall p, .unlink p prev, .free p]
  socket : ∃ written, .send p disconnect written ∈ s.ops ∧
    s.mem.socks (m.hist p).sock = (m.socks (m.hist p).sock).ended written
  sent : s.mem.sends = m.sends ++ [⟨p, (m.node p).active, some (.conn (m.hist p).sock), disconnect⟩]
  closed : (s.mem.hist p).closes = (m.hist p).closes ++ [some (.conn (m.hist p).sock)]
  sockets : ∀ c, c ≠ (m.hist p).sock → s.mem.socks c = m.socks c
  files : ∀ fd, s.mem.files fd = if fd = (m.node p).sockfd then none else m.files fd
  gone : (m'.hist p).life = .listed ∧ (s.mem.hist p).life = .released ∧ p ∉ s.mem.listed
  ended : s.mem.recv p = some .finished
  rest : s.mem.listed = m'.listed.erase p
  fields : ∀ q, q ≠ p → s.mem.node q = m'.node q
  unlocked : s.mem.connMutex = none

/-- **What `cmd_terminate(id)` is for**, called on the list `l` of `m`: it has no effect when no
record has the id, and otherwise ends this record, if its thread was created. -/
def Terminating.Removes (m : Mem) (l : List Ptr) (id : BitVec 32) (s : Terminating) : Prop :=
  ((∀ p ∈ l, (m.node p).id ≠ id) → s.mem = m ∧ s.ops.filter Op.isCall = []) ∧
    ∀ p ∈ l, (m.node p).id = id → (m.node p).thread = some p → ∃ m', s.relocked = some m' ∧ Terminated m p m' s

end Chat
