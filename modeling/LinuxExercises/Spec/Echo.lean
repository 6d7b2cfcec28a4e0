import LinuxExercises.Sync.Trans
import LinuxExercises.Spec.Bytes

/-!
# The echo pairs over a stream

`tcp_client` with `tcp_server` and `unix_socket_client_stream` with
`unix_socket_server_stream`: one client and one server on one connection. The two pairs
are the same program up to the text and the size of the response (`StreamPair`).

Each `read`, `write` and `fgets` is a step, and so is the display of a response; the
connection is two streams of bytes, in which what was written is there for the next read.
-/

namespace Echo

open Chat (Bytes cstr)

/-- `"Server receive: "`. -/
def serverReceive : Bytes := [83, 101, 114, 118, 101, 114, 32, 114, 101, 99, 101, 105, 118, 101, 58, 32]

/-- `"Server received: "`. -/
def serverReceived : Bytes := [83, 101, 114, 118, 101, 114, 32, 114, 101, 99, 101, 105, 118, 101, 100, 58, 32]

/-- `snprintf(response, size, "<header>%s", buffer)`. -/
def snprintf (size : ℕ) (header buffer : Bytes) : Bytes := (header ++ cstr buffer).take (size - 1)

/-- A client with its server: `BUFFER_SIZE`, the text before the echo, and the size of the
response buffer, which has room for the echo of a full buffer. -/
structure StreamPair where
  bufferSize : ℕ
  header : Bytes
  responseSize : ℕ
  noNul : 0 ∉ header
  roomy : header.length + (bufferSize - 1) ≤ responseSize - 1
  readable : 1 < bufferSize

/-- `tcp_client.c` and `tcp_server.c`. -/
def tcp : StreamPair where
  bufferSize := 1024
  header := serverReceive
  responseSize := 1024 + 17
  noNul := by decide
  roomy := by decide
  readable := by decide

/-- `unix_socket_client_stream.c` and `unix_socket_server_stream.c`. -/
def unixStream : StreamPair where
  bufferSize := 1024
  header := serverReceived
  responseSize := 1024 + 18
  noNul := by decide
  roomy := by decide
  readable := by decide

/-- A chunk of input as `fgets(buffer, size, stdin)` delivers it, without NUL bytes. -/
structure Chunk (size : ℕ) where
  bytes : Bytes
  nonempty : bytes ≠ []
  fits : bytes.length ≤ size - 1
  noNul : 0 ∉ bytes

/-- Where the client is: before `fgets`, before `write`, in `read`, before `printf`. -/
inductive ClientPc where
  | fgets
  | send (buffer : Bytes)
  | receive
  | display (buffer : Bytes)
  | closed
  deriving DecidableEq

/-- Where the server is: in `read`, or before `write`. -/
inductive ServerPc where
  | receive
  | send (buffer : Bytes)
  | closed
  deriving DecidableEq

/-- A session: what `stdin` still holds, the two programs, the bytes on their way, and the
responses displayed so far. -/
structure Session where
  input : List Bytes
  client : ClientPc
  server : ServerPc
  toServer : Bytes
  toClient : Bytes
  displayed : List Bytes
  deriving DecidableEq

inductive Side where
  | client
  | server
  deriving DecidableEq

variable (P : StreamPair)

/-- `main` of the client. A `read` of `BUFFER_SIZE - 1` waits for the first byte; at the end
of the stream it returns 0 and ends the loop. -/
def Session.clientStep (s : Session) : Option Session :=
  match s.client with
  | .fgets =>
    match s.input with
    | [] => some { s with client := .closed }
    | chunk :: input => some { s with input, client := .send chunk }
  | .send buffer => some { s with toServer := s.toServer ++ cstr buffer, client := .receive }
  | .receive =>
    if s.toClient ≠ [] then
      some { s with
        toClient := s.toClient.drop (P.bufferSize - 1)
        client := .display (s.toClient.take (P.bufferSize - 1)) }
    else if s.server = .closed then some { s with client := .closed }
    else none
  | .display buffer => some { s with displayed := s.displayed ++ [cstr buffer], client := .fgets }
  | .closed => none

/-- `handle_client` of the TCP server, the loop in `main` of the Unix one. -/
def Session.serverStep (s : Session) : Option Session :=
  match s.server with
  | .receive =>
    if s.toServer ≠ [] then
      some { s with
        toServer := s.toServer.drop (P.bufferSize - 1)
        server := .send (s.toServer.take (P.bufferSize - 1)) }
    else if s.client = .closed then some { s with server := .closed }
    else none
  | .send buffer =>
    some { s with
      toClient := s.toClient ++ snprintf P.responseSize P.header buffer
      server := .receive }
  | .closed => none

def Session.step (s : Session) : Side → Option Session
  | .client => s.clientStep P
  | .server => s.serverStep P

/-- **An echo session** on the given chunks of input, from the established connection on. -/
def echo (chunks : List (Chunk P.bufferSize)) : Sync.Trans Session Side where
  init := ⟨chunks.map (·.bytes), .fgets, .receive, [], [], []⟩
  step := Session.step P

/-- What the client should display for a chunk. -/
def StreamPair.response (c : Chunk P.bufferSize) : Bytes := P.header ++ c.bytes

/-- **The session echoes**: at any time the responses displayed are those of the first
chunks, one by one, and nothing more can happen only after all of them. -/
def Echoes (chunks : List (Chunk P.bufferSize)) : Prop :=
  ∀ s, (echo P chunks).Reachable s →
    s.displayed <+: chunks.map P.response ∧
      ((echo P chunks).Stuck s → s.displayed = chunks.map P.response)

end Echo
