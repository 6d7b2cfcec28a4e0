import LinuxExercises.Spec.Echo
import Mathlib.Data.Fintype.Basic

/-!
# The echo pairs over datagrams

`udp_client` with `udp_server`, and `unix_socket_client_dgram` with
`unix_socket_server_dgram`: any number of client processes at one server. A UDP client has
a port of its own. A Unix client binds its socket to `CLIENT_PATH`, which is the same path
for all of them, and unlinks that path before its `bind` and at its end.

A datagram is delivered whole and in order; a receive with a smaller buffer drops the rest.
-/

namespace Datagram

open Chat (Bytes cstr)
open Echo (Chunk serverReceived snprintf)

/-- The two pairs. -/
inductive Pair where
  | udp
  | unix
  deriving DecidableEq

/-- `BUFFER_SIZE` of client and server. -/
def Pair.bufferSize : Pair → ℕ
  | .udp => 1024
  | .unix => 256

/-- The size of the server's `response`. -/
def Pair.responseSize : Pair → ℕ
  | .udp => 1024 + 18
  | .unix => 256 + 32

/-- What a client sends of the text in its buffer; the Unix client cuts it at its newline. -/
def Pair.message : Pair → Bytes → Bytes
  | .udp, buffer => cstr buffer
  | .unix, buffer => (cstr buffer).takeWhile (· ≠ 10)

/-- Does the server go back to its receive without an answer? The Unix server does for an
empty datagram (`recv_len <= 0`), the UDP server only after an error (`bytes_received < 0`). -/
def Pair.skips : Pair → Bytes → Bool
  | .udp, _ => false
  | .unix, buffer => buffer.length ≤ 0

/-- Where a client is. `unlink`, `bind`, `close` and `unlinkEnd` are those of the Unix
client; the UDP client goes back from `display` to `fgets`. -/
inductive ClientPc where
  | unlink
  | bind
  | fgets
  | send (message : Bytes)
  | receive
  | display (buffer : Bytes)
  | close
  | unlinkEnd
  | ended
  deriving DecidableEq

variable {ι : Type*} [DecidableEq ι]

/-- The clients and the server. `path` is the client whose socket `CLIENT_PATH` names;
`job` is the datagram the server is about to answer; `queue` and `inbox` are the datagrams
that wait at the sockets of the server and of each client. The last four are what has been
done: the datagrams the server has received and sent, with their clients, the messages
each client has sent, and the texts it has displayed. -/
structure State (ι : Type*) where
  input : ι → List Bytes
  client : ι → ClientPc
  path : Option ι
  job : Option (ι × Bytes)
  queue : List (ι × Bytes)
  inbox : ι → List Bytes
  received : List (ι × Bytes)
  sent : List (ι × Bytes)
  asked : ι → List Bytes
  shown : ι → List Bytes

inductive Label (ι : Type*) where
  | client (i : ι)
  | server
  deriving DecidableEq

def State.goto (s : State ι) (i : ι) (pc : ClientPc) : State ι :=
  { s with client := Function.update s.client i pc }

/-- `main` of a client. A Unix client without a line of input would send a buffer it has
never filled; it stops here. -/
def State.clientStep (P : Pair) (s : State ι) (i : ι) : Option (State ι) :=
  match s.client i with
  | .unlink => some { s.goto i .bind with path := none }
  | .bind => if s.path = none then some { s.goto i .fgets with path := some i } else some (s.goto i .ended)
  | .fgets =>
    match s.input i with
    | [] =>
      match P with
      | .udp => some (s.goto i .ended)
      | .unix => none
    | line :: lines => some { s.goto i (.send (P.message line)) with input := Function.update s.input i lines }
  | .send message =>
    some { s.goto i .receive with
      queue := s.queue ++ [(i, message)]
      asked := Function.update s.asked i (s.asked i ++ [message]) }
  | .receive =>
    match s.inbox i with
    | [] => none
    | datagram :: inbox =>
      -- `receive_message(..) > 0` in the UDP client
      some { s.goto i (if P = .udp ∧ datagram = [] then .fgets else .display (datagram.take (P.bufferSize - 1))) with
        inbox := Function.update s.inbox i inbox }
  | .display buffer =>
    some { s.goto i (if P = .udp then .fgets else .close) with
      shown := Function.update s.shown i (s.shown i ++ [cstr buffer]) }
  | .close => some (s.goto i .unlinkEnd)
  | .unlinkEnd => some { s.goto i .ended with path := none }
  | .ended => none

/-- The socket a datagram for client `i` arrives at: the one that `CLIENT_PATH` names, if it
is still open, or the one with the port of `i`. -/
def State.dest (P : Pair) (s : State ι) (i : ι) : Option ι :=
  match P with
  | .udp => some i
  | .unix => s.path.filter fun j => s.client j ≠ .unlinkEnd ∧ s.client j ≠ .ended

/-- The loop in `main` of the server. -/
def State.serverStep (P : Pair) (s : State ι) : Option (State ι) :=
  match s.job with
  | none =>
    match s.queue with
    | [] => none
    | (i, datagram) :: queue =>
      let buffer := datagram.take (P.bufferSize - 1)
      some { s with
        queue
        received := s.received ++ [(i, datagram)]
        job := if P.skips buffer then none else some (i, buffer) }
  | some (i, buffer) =>
    let response := snprintf P.responseSize serverReceived buffer
    match s.dest P i with
    | some j =>
      some { s with
        job := none
        inbox := Function.update s.inbox j (s.inbox j ++ [response])
        sent := s.sent ++ [(j, response)] }
    | none => some { s with job := none }

def State.step (P : Pair) (s : State ι) : Label ι → Option (State ι)
  | .client i => s.clientStep P i
  | .server => s.serverStep P

/-- Before the clients run; the server waits for its first datagram. -/
def State.init (P : Pair) (input : ι → List (Chunk P.bufferSize)) : State ι where
  input := fun i => (input i).map (·.bytes)
  client := fun _ => if P = .udp then .fgets else .unlink
  path := none
  job := none
  queue := []
  inbox := fun _ => []
  received := []
  sent := []
  asked := fun _ => []
  shown := fun _ => []

/-- **Clients and server**, under every interleaving. -/
def exchange (P : Pair) (input : ι → List (Chunk P.bufferSize)) : Sync.Trans (State ι) (Label ι) where
  init := .init P input
  step := State.step P

/-- Is the client between its message and the display of the answer? -/
def ClientPc.inExchange : ClientPc → Bool
  | .receive => true
  | .display _ => true
  | _ => false

/-- The messages whose answer fits the client's buffer and which the server does answer. -/
def Pair.Fits : Pair → Bytes → Prop
  | .udp, message => message.length ≤ 1006
  | .unix, message => 1 ≤ message.length ∧ message.length ≤ 238

instance (P : Pair) (message : Bytes) : Decidable (P.Fits message) := by
  unfold Pair.Fits
  split <;> infer_instance

/-- The client needs its path: it is past its `bind` and its answer has not arrived. -/
def State.needsPath (s : State ι) (i : ι) : Bool :=
  match s.client i with
  | .fgets => true
  | .send _ => true
  | .receive => s.inbox i = []
  | _ => false

/-- Messages of a good length are sent, and no client unlinks the path another one needs. -/
def Undisturbed (P : Pair) (s : State ι) : Label ι → Prop
  | .server => True
  | .client i =>
    match s.client i with
    | .send message => P.Fits message
    | .unlink => ∀ j, j ≠ i → s.needsPath j = false
    | .unlinkEnd => ∀ j, j ≠ i → s.needsPath j = false
    | _ => True

instance [Fintype ι] (P : Pair) : DecidableRel (Undisturbed (ι := ι) P) := fun s l => by
  unfold Undisturbed
  split
  · infer_instance
  · split <;> infer_instance

end Datagram
