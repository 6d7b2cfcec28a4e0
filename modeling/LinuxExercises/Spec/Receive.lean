import LinuxExercises.Spec.Chat

/-!
# p2pchat: the receive thread on a stream

`receives` are its steps when the stream comes in given chunks. `fed` is the thread of one
record alone, whose calls of `recv` give the results of a list, one after the other.
-/

namespace Chat

/-- What a chunk of TCP bytes can be for the receive thread. -/
def IsChunk (b : Bytes) : Prop := b ≠ [] ∧ b.length ≤ bufSize - 1

instance (b : Bytes) : Decidable (IsChunk b) := inferInstanceAs (Decidable (_ ∧ _))

/-- The thread of record `p` is at `q`, on the connection `c` with these bytes to come. -/
structure State.Reads (s : State) (p : Ptr) (q : RecvPc) (c : Sock) (inbox : Bytes) : Prop where
  running : s.main ≠ .ended
  pc : s.mem.recv p = some q
  conn : s.mem.connOf p = some c
  inbox : (s.mem.socks c).inbox = inbox

/-- The steps of the receive thread of record `p` for a stream in these chunks: `recv` is
called, returns the chunk, and the chunk is worked on. -/
def receives (p : Ptr) : List Bytes → List Label
  | [] => []
  | b :: chunks =>
    .recv p .ok :: .recv p (.bytes b.length) :: .recv p .ok :: if (onData b).2 then receives p chunks else []

/-- What a call of `recv` gives: bytes, an interruption, the end of the stream, or an error. -/
inductive RecvResult where
  | data (b : Bytes)
  | eintr
  | eof
  | fail
  deriving DecidableEq

def RecvResult.choice : RecvResult → Choice
  | .data b => .bytes b.length
  | .eintr => .eintr
  | .eof => .eof
  | .fail => .fail

/-- The results before the end: chunks and interruptions. -/
def IsMiddle (r : RecvResult) : Prop := r = .eintr ∨ ∃ b, r = .data b ∧ IsChunk b

/-- Is the thread's `recv` allowed to give this at its end? -/
def Final (s : State) (c : Sock) : RecvResult → Prop
  | .fail => True
  | .eof => (s.mem.socks c).fin ∨ (s.mem.socks c).shut
  | _ => False

/-- The chunks among the results. -/
def chunksOf : List RecvResult → List Bytes
  | [] => []
  | .data b :: rs => b :: chunksOf rs
  | _ :: rs => chunksOf rs

/-- A step of the thread of record `p`, when `rs` are the results to come: only a thread
inside `recv` takes one. -/
def feed (E : Env) (p : Ptr) (s : State) (rs : List RecvResult) : Option (State × List RecvResult) :=
  match s.mem.recv p, rs with
  | some (.inRecv _), r :: rs => (s.step E (.recv p r.choice)).map (·, rs)
  | some (.inRecv _), [] => none
  | _, rs => (s.step E (.recv p .ok)).map (·, rs)

/-- **The receive thread of record `p` alone**, from `s` on and with these results of `recv`. -/
def fed (E : Env) (p : Ptr) (s : State) (rs : List RecvResult) : Sync.Trans (State × List RecvResult) Unit where
  init := (s, rs)
  step := fun x _ => feed E p x.1 x.2

/-- The texts among what was displayed. -/
def texts : List Shown → List Bytes
  | [] => []
  | .message text :: shown => text :: texts shown
  | _ :: shown => texts shown

/-- The loop of the thread has not ended. -/
def RecvPc.InLoop : RecvPc → Prop
  | .top | .inRecv _ | .got _ => True
  | _ => False

end Chat
