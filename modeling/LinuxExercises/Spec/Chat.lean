import LinuxExercises.Spec.ChatMem
import LinuxExercises.Sync.Trans

/-!
# p2pchat: the threads

The code of `connection.c`, `listener.c`, `command.c` and `main_p2pchat.c` as program
counters and partial step functions: one step for each lock, unlock, system call,
`pthread_*` call and `free`, and for each use of a record outside the lock. A loop over
the list under the lock is one step where it only reads, and one step an element where
it acts (`cmd_exit`).

A step function returns the operation and where the thread goes (`Flow`). What the
environment decides (a line of input, the result of a call) is in the label (`Choice`).
-/

namespace Chat

/-- The outside world of a run: `inet_pton`, `inet_ntop`, and the globals `main` has set. -/
structure Env where
  inetPton : Bytes → Option Addr
  inetNtop : Addr → Bytes
  localIp : Bytes
  listenPort : ℕ

/-- A command line, as `main` has parsed it. `idle` stands for `help`, `myip`, `myport` and
the lines that only print an error. -/
inductive Cmd where
  | idle
  | connect (ip port : Bytes)
  | list
  | terminate (id : BitVec 32)
  | send (id : BitVec 32) (msg : CStr)
  | exit
  deriving DecidableEq

/-- What the environment decides at a step. -/
inductive Choice where
  | ok
  | fail
  | eof
  | line (c : Cmd)
  /-- `socket()` returns this number. -/
  | fd (n : Fd)
  /-- `accept()` returns this number, for this peer. -/
  | peer (n : Fd) (a : SockAddr)
  /-- `recv` returns so many bytes. -/
  | bytes (n : ℕ)
  | eintr
  deriving DecidableEq

/-- Where a thread goes after a step of a function: on in it, back to its caller, or
nowhere, because `SIGPIPE` has ended the process. -/
inductive Flow (α : Type) where
  | goto (q : α)
  | ret
  | killed
  deriving DecidableEq

/-- The caller goes on at `k` when the function returns. -/
def Flow.lift {α β : Type} (f : α → β) (k : β) (dead : β) : Flow α → β
  | .goto q => f q
  | .ret => k
  | .killed => dead

/-- Wait for `conn_mutex`. -/
def Mem.lock {α : Type} (m : Mem) (q : α) : Option (Op × Flow α) :=
  if m.connMutex = none then some (.lock, .goto q) else none

/-! ## `add_connection`, `pthread_create` and their rollback -/

/-- Where `cmd_connect` or `listener_thread` is from `add_connection` on. -/
inductive SetupPc where
  | malloc (fd : Fd) (c : Sock) (a : SockAddr)
  | abort (fd : Fd) (c : Sock)
  | lock (p : Ptr) (fd : Fd)
  | link (p : Ptr) (fd : Fd)
  | publish (p : Ptr) (fd : Fd)
  | unlock (p : Ptr) (fd : Fd)
  | create (p : Ptr) (fd : Fd)
  | rbClose (p : Ptr) (fd : Fd)
  | rbLock (p : Ptr)
  | rbFind (p : Ptr)
  | rbUnlink (p : Ptr) (prev : Option Ptr)
  | rbFree (p : Ptr)
  | rbUnlock
  | log (p : Ptr)
  deriving DecidableEq

/-- `add_connection`, then `pthread_create`; if that fails, `close`, unlink and `free`. -/
def setupStep (E : Env) (m : Mem) (ch : Choice) : SetupPc → Option (Op × Flow SetupPc)
  | .malloc fd c a =>
    match ch with
    | .ok => some (.alloc fd c (E.inetNtop a.addr) a.port, .goto (.lock m.allocs fd))
    | .fail => some (.skip, .goto (.abort fd c))
    | _ => none
  | .abort fd _ => some (.close fd none, .ret)
  | .lock p fd => m.lock (.link p fd)
  | .link p fd => some (.link p, .goto (.publish p fd))
  | .publish p fd => some (.publish p, .goto (.unlock p fd))
  | .unlock p fd => some (.unlock, .goto (.create p fd))
  | .create p fd =>
    match ch with
    | .ok => some (.create p, .goto (.log p))
    | .fail => some (.createFail p, .goto (.rbClose p fd))
    | _ => none
  | .rbClose p fd => some (.close fd (some p), .goto (.rbLock p))
  | .rbLock p => m.lock (.rbFind p)
  | .rbFind p =>
    match Sync.findLink m.next m.connHead p m.listed with
    | some prev => some (.skip, .goto (.rbUnlink p prev))
    | none => some (.skip, .goto (.rbFree p))
  | .rbUnlink p prev => some (.unlink p prev, .goto (.rbFree p))
  | .rbFree p => some (.free p, .goto .rbUnlock)
  | .rbUnlock => some (.unlock, .ret)
  | .log _ => some (.skip, .ret)

/-! ## `conn_recv_thread` -/

/-- One round of the receive loop on a filled buffer: what it prints, and whether it goes
on (`strncmp(buf, "CMD:DISCONNECT", 14)` compares prefixes). -/
def onData (buf : Bytes) : Shown × Bool :=
  if (cstr buf).take 14 = disconnect then (.requestedDisconnect, false) else (.message (cstr buf), true)

/-- `conn_recv_thread` of record `p`. -/
def connRecvThread (m : Mem) (p : Ptr) (ch : Choice) : RecvPc → Option (Op × Flow RecvPc)
  | .top =>
    match m.connOf p with
    | some c => some (.skip, .goto (.inRecv c))
    | none => some (.print p .recvFailed, .goto .lock)
  | .inRecv c =>
    match ch with
    | .bytes n =>
      if 0 < n ∧ n ≤ bufSize - 1 ∧ n ≤ (m.socks c).inbox.length then
        some (.take p c n, .goto (.got ((m.socks c).inbox.take n)))
      else none
    | .eof =>
      if (m.socks c).inbox = [] ∧ ((m.socks c).fin ∨ (m.socks c).shut) then
        some (.print p .closedConnection, .goto .lock)
      else none
    | .eintr => some (.skip, .goto .top)
    | .fail => some (.print p .recvFailed, .goto .lock)
    | _ => none
  | .got buf => some (.print p (onData buf).1, .goto (if (onData buf).2 then .top else .lock))
  | .lock => m.lock .mark
  | .mark => some (.mark p, .goto .unlock)
  | .unlock => some (.unlock, .goto .finished)
  | .finished => none

/-- May the call of `pthread_join` return? The thread it names has ended. A call on a
`thread` field that was never filled is undefined; here it may return. -/
def Mem.joinable (m : Mem) : Option Ptr → Bool
  | some p => m.recv p = some .finished
  | none => true

/-! ## `reap_connections` -/

inductive ReapPc where
  | lock
  | scan
  | unlock (p : Ptr)
  | join (p : Ptr)
  | joining (p : Ptr) (t : Option Ptr)
  | relock (p : Ptr)
  | find (p : Ptr)
  | unlink (p : Ptr) (prev : Option Ptr)
  | free (p : Ptr)
  | log (p : Ptr)
  | leave
  deriving DecidableEq

/-- `reap_connections`. `scan` is the traversal from `conn_head`, which restarts there after
every removal. -/
def reapConnections (m : Mem) : ReapPc → Option (Op × Flow ReapPc)
  | .lock => m.lock .scan
  | .scan =>
    match m.listed.find? fun p => (m.node p).shouldRemove with
    | some p => some (.skip, .goto (.unlock p))
    | none => some (.skip, .goto .leave)
  | .unlock p => some (.unlock, .goto (.join p))
  | .join p => some (.joinCall p, .goto (.joining p (m.node p).thread))
  | .joining p t => if m.joinable t then some (.joinReturn p, .goto (.relock p)) else none
  | .relock p => m.lock (.find p)
  | .find p =>
    match Sync.findPrev p none m.listed with
    | some prev => some (.skip, .goto (.unlink p prev))
    | none => some (.skip, .goto .scan)
  | .unlink p prev => some (.unlink p prev, .goto (.free p))
  | .free p => some (.free p, .goto (.log p))
  | .log _ => some (.skip, .goto .scan)
  | .leave => some (.unlock, .ret)

/-! ## The commands -/

/-- A destination that has passed the checks of `cmd_connect`. -/
structure Dest where
  ip : Bytes
  port : ℕ
  deriving DecidableEq

/-- `is_valid_ipv4`. -/
def isValidIpv4 (E : Env) (ip : Bytes) : Bool := ip ≠ [] ∧ (E.inetPton ip).isSome

/-- Checks 1 to 3 of `cmd_connect`: the address, the port, no connection to itself. -/
def connectTarget (E : Env) (ip portstr : Bytes) : Option Dest :=
  if isValidIpv4 E ip then
    match parsePort portstr with
    | some port =>
      if (ip = E.localIp ∨ ip = loopback) ∧ port = E.listenPort then none else some ⟨ip, port⟩
    | none => none
  else none

inductive ConnectPc where
  | lock (d : Dest)
  | scan (d : Dest)
  | unlockDup (p : Ptr)
  | logDup (p : Ptr)
  | unlock (d : Dest)
  | socket (d : Dest)
  | connect (d : Dest) (fd : Fd) (c : Sock)
  | abort (fd : Fd) (c : Sock)
  | setup (q : SetupPc)
  deriving DecidableEq

/-- `cmd_connect` from its check 4 on. -/
def cmdConnect (E : Env) (m : Mem) (ch : Choice) : ConnectPc → Option (Op × Flow ConnectPc)
  | .lock d => m.lock (.scan d)
  | .scan d =>
    match m.listed.find? fun p => (m.node p).active ∧ (m.node p).port = d.port ∧ (m.node p).ip = d.ip with
    | some p => some (.skip, .goto (.unlockDup p))
    | none => some (.skip, .goto (.unlock d))
  | .unlockDup p => some (.unlock, .goto (.logDup p))
  | .logDup _ => some (.skip, .ret)
  | .unlock d => some (.unlock, .goto (.socket d))
  | .socket d =>
    match ch with
    | .fd n => if m.files n = none then some (.openConn n, .goto (.connect d n m.opens)) else none
    | .fail => some (.skip, .ret)
    | _ => none
  | .connect d fd c =>
    match E.inetPton d.ip, ch with
    | some a, .ok => some (.skip, .goto (.setup (.malloc fd c ⟨a, d.port⟩)))
    | some _, .fail => some (.skip, .goto (.abort fd c))
    | none, _ => some (.skip, .goto (.abort fd c))
    | _, _ => none
  | .abort fd _ => some (.close fd none, .ret)
  | .setup q => (setupStep E m ch q).map fun (op, f) => (op, f.lift (.goto ∘ .setup) .ret .killed)

inductive ListPc where
  | lock
  | print
  | unlock
  deriving DecidableEq

/-- `cmd_list` up to its call of `reap_connections`. -/
def cmdList (m : Mem) : ListPc → Option (Op × Flow ListPc)
  | .lock => m.lock .print
  | .print => some (.skip, .goto .unlock)
  | .unlock => some (.unlock, .ret)

/-- `send()` for record `p` by the main thread, which goes on at `k` with the result, unless
`SIGPIPE` ends the process. -/
def Mem.trySend {α : Type} (m : Mem) (p : Ptr) (text : Bytes) (ch : Choice) (k : Bool → α) : Op × Flow α :=
  if m.brokenPipe p then (.send p text false, .killed)
  else
    let sent := ch = .ok ∧ (m.connOf p).isSome
    (.send p text sent, .goto (k sent))

inductive TermPc where
  | lock
  | find
  | unlockNone
  | send (p : Ptr)
  | shutdown (p : Ptr)
  | close (p : Ptr)
  | clear (p : Ptr)
  | unlock (p : Ptr)
  | join (p : Ptr)
  | joining (p : Ptr) (t : Option Ptr)
  | relock (p : Ptr)
  | find2 (p : Ptr)
  | unlink (p : Ptr) (prev : Option Ptr)
  | free (p : Ptr)
  | leave
  deriving DecidableEq

/-- `cmd_terminate`. -/
def cmdTerminate (m : Mem) (id : BitVec 32) (ch : Choice) : TermPc → Option (Op × Flow TermPc)
  | .lock => m.lock .find
  | .find =>
    match m.listed.find? fun p => (m.node p).id = id with
    | some p => some (.skip, .goto (.send p))
    | none => some (.skip, .goto .unlockNone)
  | .unlockNone => some (.unlock, .ret)
  | .send p => some (m.trySend p disconnect ch fun _ => .shutdown p)
  | .shutdown p => some (.shutdown p, .goto (.close p))
  | .close p => some (.close (m.node p).sockfd (some p), .goto (.clear p))
  | .clear p => some (.deactivate p, .goto (.unlock p))
  | .unlock p => some (.unlock, .goto (.join p))
  | .join p => some (.joinCall p, .goto (.joining p (m.node p).thread))
  | .joining p t => if m.joinable t then some (.joinReturn p, .goto (.relock p)) else none
  | .relock p => m.lock (.find2 p)
  | .find2 p =>
    match Sync.findPrev p none m.listed with
    | some prev => some (.skip, .goto (.unlink p prev))
    | none => some (.skip, .goto .leave)
  | .unlink p prev => some (.unlink p prev, .goto (.free p))
  | .free p => some (.free p, .goto .leave)
  | .leave => some (.unlock, .ret)

inductive SendPc where
  | lock
  | find
  | unlockNone
  | send (p : Ptr)
  | unlock (p : Ptr) (sent : Bool)
  | log (p : Ptr)
  deriving DecidableEq

/-- What `cmd_send` sends for a message: nothing if it is too long. -/
def sendText (msg : CStr) : Option Bytes := if maxMsgLen < msg.bytes.length then none else some msg.bytes

/-- `cmd_send` from its step 2 on. -/
def cmdSend (m : Mem) (id : BitVec 32) (text : Bytes) (ch : Choice) : SendPc → Option (Op × Flow SendPc)
  | .lock => m.lock .find
  | .find =>
    match m.listed.find? fun p => (m.node p).id = id ∧ (m.node p).active with
    | some p => some (.skip, .goto (.send p))
    | none => some (.skip, .goto .unlockNone)
  | .unlockNone => some (.unlock, .ret)
  | .send p => some (m.trySend p text ch fun sent => .unlock p sent)
  | .unlock p sent => some (.unlock, if sent then .goto (.log p) else .ret)
  | .log _ => some (.skip, .ret)

inductive ExitPc where
  | stop
  | closeServer
  | lock
  | pass (cur : Option Ptr)
  | send (p : Ptr)
  | shutdown (p : Ptr)
  | close (p : Ptr)
  | clear (p : Ptr)
  | unlock
  | joinListener
  | relock
  | next (cur : Option Ptr)
  | joining (p : Ptr) (t : Option Ptr)
  | free (p : Ptr)
  | clearHead
  | leave
  deriving DecidableEq

/-- `cmd_exit`: one pass that closes the active connections, the join of the listener, and
one pass that joins and frees. -/
def cmdExit (m : Mem) (listenerDone : Bool) (ch : Choice) : ExitPc → Option (Op × Flow ExitPc)
  | .stop => some (.stop, .goto .closeServer)
  | .closeServer => some (.close serverSock none, .goto .lock)
  | .lock => m.lock (.pass m.connHead)
  | .pass none => some (.skip, .goto .unlock)
  | .pass (some p) =>
    if (m.node p).active then some (.skip, .goto (.send p)) else some (.skip, .goto (.pass (m.next p)))
  | .send p => some (m.trySend p disconnect ch fun _ => .shutdown p)
  | .shutdown p => some (.shutdown p, .goto (.close p))
  | .close p => some (.close (m.node p).sockfd (some p), .goto (.clear p))
  | .clear p => some (.deactivate p, .goto (.pass (m.next p)))
  | .unlock => some (.unlock, .goto .joinListener)
  | .joinListener => if listenerDone then some (.skip, .goto .relock) else none
  | .relock => m.lock (.next m.connHead)
  | .next none => some (.skip, .goto .clearHead)
  | .next (some p) => some (.joinCall p, .goto (.joining p (m.node p).thread))
  | .joining p t => if m.joinable t then some (.joinReturn p, .goto (.free p)) else none
  | .free p => some (.free p, .goto (.next (m.next p)))
  | .clearHead => some (.clearHead, .goto .leave)
  | .leave => some (.unlock, .ret)

/-! ## `main` and `listener_thread` -/

/-- Where the main thread is. `reap q after` is in `reap_connections`, called before the
command `after`, or at the end of `cmd_list` (`none`). -/
inductive MainPc where
  | loop
  | reap (q : ReapPc) (after : Option Cmd)
  | connect (q : ConnectPc)
  | list (q : ListPc)
  | terminate (id : BitVec 32) (q : TermPc)
  | send (id : BitVec 32) (text : Bytes) (q : SendPc)
  | exit (q : ExitPc)
  | ended
  deriving DecidableEq

/-- The dispatch of a command line in `main`, with the checks that come before any lock. -/
def dispatch (E : Env) : Cmd → MainPc
  | .idle => .loop
  | .connect ip port =>
    match connectTarget E ip port with
    | some d => .connect (.lock d)
    | none => .loop
  | .list => .list .lock
  | .terminate id => .terminate id .lock
  | .send id msg =>
    match sendText msg with
    | some text => .send id text .lock
    | none => .loop
  | .exit => .exit .stop

/-- `main` from its command loop on. -/
def mainStep (E : Env) (m : Mem) (listenerDone : Bool) (ch : Choice) : MainPc → Option (Op × MainPc)
  | .loop =>
    match ch with
    | .line c => some (.skip, .reap .lock (some c))
    | .eof => some (.skip, .ended)
    | _ => none
  | .reap q after =>
    (reapConnections m q).map fun (op, f) => (op, f.lift (.reap · after) ((after.map (dispatch E)).getD .loop) .ended)
  | .connect q => (cmdConnect E m ch q).map fun (op, f) => (op, f.lift .connect .loop .ended)
  | .list q => (cmdList m q).map fun (op, f) => (op, f.lift .list (.reap .lock none) .ended)
  | .terminate id q => (cmdTerminate m id ch q).map fun (op, f) => (op, f.lift (.terminate id) .loop .ended)
  | .send id text q => (cmdSend m id text ch q).map fun (op, f) => (op, f.lift (.send id text) .loop .ended)
  | .exit q => (cmdExit m listenerDone ch q).map fun (op, f) => (op, f.lift .exit .ended .ended)
  | .ended => none

/-- Where the listener thread is. -/
inductive ListenerPc where
  | check
  | accept
  | failed
  | setup (q : SetupPc)
  | finished
  deriving DecidableEq

/-- `listener_thread`. -/
def listenerThread (E : Env) (m : Mem) (ch : Choice) : ListenerPc → Option (Op × ListenerPc)
  | .check => some (.skip, if m.running then .accept else .finished)
  | .accept =>
    match ch with
    | .peer n a => if m.files n = none then some (.openConn n, .setup (.malloc n m.opens a)) else none
    | .fail => some (.skip, .failed)
    | _ => none
  | .failed => some (.skip, if m.running then .check else .finished)
  | .setup q => (setupStep E m ch q).map fun (op, f) => (op, f.lift .setup .check .finished)
  | .finished => none

/-! ## The process -/

/-- The chat process: the shared state and where its threads are. -/
structure State where
  mem : Mem
  main : MainPc
  listener : ListenerPc

/-- What the peer of a connection does: it sends bytes, closes, or resets. -/
inductive PeerEvent where
  | send (text : Bytes)
  | close
  | reset
  deriving DecidableEq

/-- A step: which thread moves, or the peer of which connection. -/
inductive Label where
  | main (ch : Choice)
  | listener (ch : Choice)
  | recv (p : Ptr) (ch : Choice)
  | peer (c : Sock) (e : PeerEvent)
  deriving DecidableEq

def PeerEvent.on (k : Socket) : PeerEvent → Socket
  | .send text => if k.fin ∨ k.reset then k else { k with inbox := k.inbox ++ text }
  | .close => { k with fin := true }
  | .reset => { k with reset := true }

/-- **One step of the process.** When `main` has returned, or was killed, nothing runs. -/
def State.step (E : Env) (s : State) (l : Label) : Option State :=
  if s.main = .ended then none
  else match l with
    | .main ch =>
      (mainStep E s.mem (s.listener = .finished) ch s.main).map fun (op, q) =>
        ⟨s.mem.apply .main op, q, s.listener⟩
    | .listener ch =>
      (listenerThread E s.mem ch s.listener).map fun (op, q) => ⟨s.mem.apply .listener op, s.main, q⟩
    | .recv p ch =>
      match s.mem.recv p with
      | some q =>
        (connRecvThread s.mem p ch q).map fun (op, f) =>
          ⟨(s.mem.apply (.recv p) op).setRecv p (f.lift id .finished .finished), s.main, s.listener⟩
      | none => none
    | .peer c e =>
      if c < s.mem.opens then some { s with mem := s.mem.setSock c (e.on ·) } else none

/-- The start of the command loop; the listener thread has been created. -/
def State.init : State := ⟨.init, .loop, .check⟩

/-- **p2pchat**, under every interleaving of its threads and its peers. -/
def chat (E : Env) : Sync.Trans State Label where
  init := .init
  step := State.step E

/-! ## Pieces of concrete runs -/

/-- The text of an address. -/
def dotted (a : Addr) : Bytes :=
  decimal (a.toNat >>> 24) ++ 46 :: decimal (a.toNat >>> 16 % 256) ++ 46 ::
    decimal (a.toNat >>> 8 % 256) ++ 46 :: decimal (a.toNat % 256)

/-- The host `10.0.0.2`. -/
def peerAddr : Addr := 0x0A000002

/-- A host that listens on `10.0.0.1:5000` and whose only peer is `10.0.0.2`. -/
def Env.demo : Env where
  inetPton := fun text => if text = dotted peerAddr then some peerAddr else none
  inetNtop := dotted
  localIp := dotted 0x0A000001
  listenPort := 5000

/-- The text `hi`. -/
def msgHi : CStr := ⟨[104, 105], by decide⟩

/-- `n` steps of the main thread. -/
def mains (n : ℕ) : List Label := .replicate n (.main .ok)

/-- `n` steps of the listener. -/
def listens (n : ℕ) : List Label := .replicate n (.listener .ok)

/-- The listener accepts a connection on descriptor `fd`, up to `malloc`. -/
def accepts (fd : Fd) : List Label := [.listener .ok, .listener (.peer fd ⟨peerAddr, 30000⟩)]

/-- The main thread reads a line and goes through an empty `reap_connections`. -/
def enters (c : Cmd) : List Label := .main (.line c) :: mains 3

/-- The main thread reads `connect 10.0.0.2 40000` and gets descriptor `fd`, up to `malloc`. -/
def connects (fd : Fd) : List Label :=
  enters (.connect (dotted peerAddr) (decimal 40000)) ++ mains 3 ++ [.main (.fd fd), .main .ok]

end Chat
