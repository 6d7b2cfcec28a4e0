import LinuxExercises.Spec.Bytes
import LinuxExercises.Sync.Chain

/-!
# p2pchat: the shared state

The globals of the chat process, its records, its descriptor table and the kernel's
sockets, and the atomic operations its threads perform on them (`Mem.apply`).

Records and sockets are named in the order they are made: record `p` is the one whose
`add_connection` drew the `p`-th id, so a name never comes back after `free`. The links
of the records (`next`) are kept apart from their other fields. Descriptor numbers do
come back: `close` frees the number at once, and a later `socket()` or `accept()` may
return any number that is free.

`print_mutex` is only held inside one `vprintf` and is left out, as are the texts that
the main thread prints.
-/

namespace Chat

/-- A `PeerConn`. -/
abbrev Ptr := ℕ

/-- A descriptor number. -/
abbrev Fd := ℕ

/-- A connection's socket in the kernel. -/
abbrev Sock := ℕ

/-- An IPv4 address (`struct in_addr`). -/
abbrev Addr := BitVec 32

/-- `struct sockaddr_in`. -/
structure SockAddr where
  addr : Addr
  port : ℕ
  deriving DecidableEq

/-- What a descriptor denotes: an inherited file, the listening socket, a connection. -/
inductive File where
  | std
  | listen
  | conn (c : Sock)
  deriving DecidableEq

/-- The fields of a `PeerConn`, except `next`. `thread` is what `pthread_create` has
stored: the receive thread of record `p` is named `p`. -/
structure PeerConn where
  id : BitVec 32
  sockfd : Fd
  ip : Bytes
  port : ℕ
  thread : Option Ptr
  active : Bool
  shouldRemove : Bool
  deriving DecidableEq

/-- A connection in the kernel: what the peer has sent and was not received yet, what the
peer did to the connection, whether it was shut down here, and what was sent to the peer. -/
structure Socket where
  inbox : Bytes
  fin : Bool
  reset : Bool
  shut : Bool
  outbox : Bytes
  deriving DecidableEq

/-- A fresh connection. -/
def Socket.fresh : Socket := ⟨[], false, false, false, []⟩

/-- The threads of the process. -/
inductive Tid where
  | main
  | listener
  | recv (p : Ptr)
  deriving DecidableEq

/-- Where a `conn_recv_thread` is: at the top of its loop (between two `recv` calls),
inside `recv`, with a filled buffer, and at its final marking block. -/
inductive RecvPc where
  | top
  | inRecv (c : Sock)
  | got (buf : Bytes)
  | lock
  | mark
  | unlock
  | finished
  deriving DecidableEq

/-- What `conn_recv_thread` prints. -/
inductive Shown where
  | message (text : Bytes)
  | requestedDisconnect
  | closedConnection
  | recvFailed
  deriving DecidableEq

/-- A record's life. -/
inductive Life where
  | unborn
  | allocated
  | listed
  | released
  deriving DecidableEq

/-- A `close()` for a record, and the file its number denoted then. -/
abbrev CloseCall := Option File

/-- What has happened to a record (for the statements; the program does not read it):
its socket, its life, the calls of `close` on its descriptor with the file each of them
hit, the calls of `pthread_join` on it with the thread each of them named, whether a join
has returned, and whether its `pthread_create` has failed. -/
structure Hist where
  sock : Sock
  life : Life
  closes : List CloseCall
  joins : List (Option Ptr)
  joined : Bool
  createFailed : Bool
  deriving DecidableEq

def Hist.unborn : Hist := ⟨0, .unborn, [], [], false, false⟩

/-- A `send()` of the main thread: the record it was for, whether it was active, and the
file the record's descriptor denoted. -/
structure SendCall where
  conn : Ptr
  active : Bool
  file : Option File
  text : Bytes
  deriving DecidableEq

/-- Bytes that a receive thread got from `recv`: the record of the thread, the socket
they came from. -/
structure RecvCall where
  conn : Ptr
  sock : Sock
  text : Bytes
  deriving DecidableEq

/-- **The shared state.** The fields from `allocs` on are bookkeeping for the statements:
the numbers of records and sockets so far, each record's history, the records inserted
and unlinked, the connections that the exit command owes a notice (the active ones when
`running` was cleared, and those inserted since), and the sends, receives and printed
lines. -/
structure Mem where
  connHead : Option Ptr
  connMutex : Option Tid
  next : Ptr → Option Ptr
  node : Ptr → PeerConn
  nextConnId : BitVec 32
  running : Bool
  files : Fd → Option File
  socks : Sock → Socket
  recv : Ptr → Option RecvPc
  allocs : ℕ
  opens : ℕ
  hist : Ptr → Hist
  inserted : List Ptr
  unlinked : List Ptr
  owed : List Ptr
  sends : List SendCall
  recvs : List RecvCall
  screen : List (Ptr × Shown)

/-- `server_sock`: the first number free after the standard streams. -/
def serverSock : Fd := 3

/-- The state in which `main` enters its command loop. -/
def Mem.init : Mem where
  connHead := none
  connMutex := none
  next := fun _ => none
  node := fun _ => ⟨0, 0, [], 0, none, false, false⟩
  nextConnId := 1
  running := true
  files := fun fd => if fd < serverSock then some .std else if fd = serverSock then some .listen else none
  socks := fun _ => .fresh
  recv := fun _ => none
  allocs := 0
  opens := 0
  hist := fun _ => .unborn
  inserted := []
  unlinked := []
  owed := []
  sends := []
  recvs := []
  screen := []

namespace Mem

variable (m : Mem)

/-- The records on the `conn_head` list, by following the links. -/
def listed : List Ptr := Sync.walk m.next m.allocs m.connHead

/-- Change a record. -/
def setNode (p : Ptr) (f : PeerConn → PeerConn) : Mem :=
  { m with node := Function.update m.node p (f (m.node p)) }

/-- Change a record's history. -/
def note (p : Ptr) (f : Hist → Hist) : Mem :=
  { m with hist := Function.update m.hist p (f (m.hist p)) }

/-- Change a socket. -/
def setSock (c : Sock) (f : Socket → Socket) : Mem :=
  { m with socks := Function.update m.socks c (f (m.socks c)) }

/-- Change where a receive thread is. -/
def setRecv (p : Ptr) (q : RecvPc) : Mem :=
  { m with recv := Function.update m.recv p (some q) }

end Mem

/-- The atomic operations. -/
inductive Op where
  | skip
  | lock
  | unlock
  /-- `malloc`, the id from `next_conn_id`, and the other fields of the new record. -/
  | alloc (fd : Fd) (c : Sock) (ip : Bytes) (port : ℕ)
  /-- `p->next = conn_head`. -/
  | link (p : Ptr)
  /-- `conn_head = p`. -/
  | publish (p : Ptr)
  /-- `prev->next = p->next`, or `conn_head = p->next`. -/
  | unlink (p : Ptr) (prev : Option Ptr)
  | free (p : Ptr)
  /-- `conn_head = NULL`. -/
  | clearHead
  /-- `socket()` or `accept()` returns `fd` for a new connection. -/
  | openConn (fd : Fd)
  | close (fd : Fd) (p : Option Ptr)
  | shutdown (p : Ptr)
  | send (p : Ptr) (text : Bytes) (sent : Bool)
  /-- `pthread_create` stores the thread and starts it. -/
  | create (p : Ptr)
  | createFail (p : Ptr)
  | joinCall (p : Ptr)
  | joinReturn (p : Ptr)
  /-- `active = 0`. -/
  | deactivate (p : Ptr)
  /-- `active = 0; should_remove = 1`. -/
  | mark (p : Ptr)
  /-- `running = 0`. -/
  | stop
  /-- `recv` hands the first `n` bytes of the inbox of `c` to the thread of `p`. -/
  | take (p : Ptr) (c : Sock) (n : ℕ)
  | print (p : Ptr) (line : Shown)
  deriving DecidableEq

/-- The connection a record's descriptor denotes now. -/
def Mem.connOf (m : Mem) (p : Ptr) : Option Sock :=
  match m.files (m.node p).sockfd with
  | some (.conn c) => some c
  | _ => none

/-- `send()` without `MSG_NOSIGNAL` raises `SIGPIPE`: the connection was reset by the peer
or shut down here. -/
def Mem.brokenPipe (m : Mem) (p : Ptr) : Bool :=
  match m.connOf p with
  | some c => (m.socks c).reset || (m.socks c).shut
  | none => false

/-- **What an operation of thread `t` does.** -/
def Mem.apply (m : Mem) (t : Tid) : Op → Mem
  | .skip => m
  | .lock => { m with connMutex := some t }
  | .unlock => { m with connMutex := none }
  | .alloc fd c ip port =>
    { m with
      node := Function.update m.node m.allocs ⟨m.nextConnId, fd, ip, port, none, true, false⟩
      nextConnId := m.nextConnId + 1
      hist := Function.update m.hist m.allocs ⟨c, .allocated, [], [], false, false⟩
      allocs := m.allocs + 1 }
  | .link p => { m with next := Function.update m.next p m.connHead }
  | .publish p =>
    { m.note p fun h => { h with life := .listed } with
      connHead := some p
      inserted := p :: m.inserted
      owed := if m.running then m.owed else p :: m.owed }
  | .unlink p prev =>
    { m with
      connHead := (Sync.unlink m.next m.connHead p prev).1
      next := (Sync.unlink m.next m.connHead p prev).2
      unlinked := p :: m.unlinked }
  | .free p => m.note p fun h => { h with life := .released }
  | .clearHead => { m with connHead := none, unlinked := m.listed ++ m.unlinked }
  | .openConn fd =>
    { m with
      files := Function.update m.files fd (some (.conn m.opens))
      socks := Function.update m.socks m.opens .fresh
      opens := m.opens + 1 }
  | .close fd p =>
    { m with
      files := Function.update m.files fd none
      hist := fun q =>
        if p = some q then { m.hist q with closes := (m.hist q).closes ++ [m.files fd] } else m.hist q }
  | .shutdown p =>
    { m with
      socks := match m.connOf p with
        | some c => Function.update m.socks c { m.socks c with shut := true }
        | none => m.socks }
  | .send p text sent =>
    { m with
      sends := m.sends ++ [⟨p, (m.node p).active, m.files (m.node p).sockfd, text⟩]
      socks := match m.connOf p, sent with
        | some c, true => Function.update m.socks c { m.socks c with outbox := (m.socks c).outbox ++ text }
        | _, _ => m.socks }
  | .create p => (m.setNode p fun n => { n with thread := some p }).setRecv p .top
  | .createFail p => m.note p fun h => { h with createFailed := true }
  | .joinCall p => m.note p fun h => { h with joins := h.joins ++ [(m.node p).thread] }
  | .joinReturn p => m.note p fun h => { h with joined := true }
  | .deactivate p => m.setNode p fun n => { n with active := false }
  | .mark p => m.setNode p fun n => { n with active := false, shouldRemove := true }
  | .stop => { m with running := false, owed := m.listed.filter fun p => (m.node p).active }
  | .take p c n =>
    { m.setSock c fun k => { k with inbox := k.inbox.drop n } with
      recvs := m.recvs ++ [⟨p, c, (m.socks c).inbox.take n⟩] }
  | .print p line => { m with screen := m.screen ++ [(p, line)] }

end Chat
