import LinuxExercises.Spec.Chat

/-!
# p2pchat: the registry machine

What the shared-state properties depend on, as an abstract machine. A `View` has the
memory, the two set-ups that may be under way (one by `cmd_connect`, one by
`listener_thread`, `add_connection` to `pthread_create`), the `Stage` of the main thread
outside of a set-up, and whether the listener thread has ended. A stage forgets which
command the main thread is in, where that does not matter: `reap_connections` and
`cmd_terminate` share the stages that join, unlink and free, `cmd_terminate` and
`cmd_exit` those that notify and close.

`Move` lists what a step can do, guards included.
-/

namespace Chat

/-- Who closes a connection or takes its record off the list. -/
inductive By where
  | reap
  | terminate
  | exit
  deriving DecidableEq

/-- What the main thread is after when it holds the mutex without a record in hand: nothing
more, the scan of `reap_connections`, the search of `cmd_terminate`. -/
inductive Held where
  | plain
  | scan
  | choose
  deriving DecidableEq

/-- Where the main thread is, outside of a set-up. -/
inductive Stage where
  /-- No mutex, no record. -/
  | rest
  | held (w : Held)
  /-- `cmd_connect` has a socket, and gives it back. -/
  | opened (fd : Fd) (c : Sock)
  | abandon (fd : Fd) (c : Sock)
  /-- An active record under the mutex (`cmd_send`, the duplicate of `cmd_connect`), and its
  log line. -/
  | found (p : Ptr)
  | log (p : Ptr)
  /-- `reap_connections` has met a marked record. -/
  | doomed (p : Ptr)
  | send (b : By) (p : Ptr)
  | shutdown (b : By) (p : Ptr)
  | close (b : By) (p : Ptr)
  | clear (b : By) (p : Ptr)
  | closed (p : Ptr)
  | join (b : By) (p : Ptr)
  | joining (b : By) (p : Ptr) (t : Option Ptr)
  | relock (b : By) (p : Ptr)
  | find (b : By) (p : Ptr)
  | unlink (b : By) (p : Ptr) (prev : Option Ptr)
  | free (b : By) (p : Ptr)
  | logFreed (p : Ptr)
  /-- `cmd_exit`. -/
  | exitStop
  | exitStart
  | exitLock
  | pass (cur : Option Ptr)
  | passed
  | waiting
  | exitRelock
  | next (cur : Option Ptr)
  | exitJoining (p : Ptr) (t : Option Ptr)
  | exitFree (p : Ptr)
  | clearHead
  | exitLeave
  | ended
  deriving DecidableEq

def ReapPc.stage : ReapPc → Stage
  | .lock => .rest
  | .scan => .held .scan
  | .unlock p => .doomed p
  | .join p => .join .reap p
  | .joining p t => .joining .reap p t
  | .relock p => .relock .reap p
  | .find p => .find .reap p
  | .unlink p prev => .unlink .reap p prev
  | .free p => .free .reap p
  | .log p => .logFreed p
  | .leave => .held .plain

def ConnectPc.stage : ConnectPc → Stage
  | .lock _ => .rest
  | .scan _ => .held .plain
  | .unlockDup p => .found p
  | .logDup p => .log p
  | .unlock _ => .held .plain
  | .socket _ => .rest
  | .connect _ fd c => .opened fd c
  | .abort fd c => .abandon fd c
  | .setup _ => .rest

def ListPc.stage : ListPc → Stage
  | .lock => .rest
  | .print => .held .plain
  | .unlock => .held .plain

def TermPc.stage : TermPc → Stage
  | .lock => .rest
  | .find => .held .choose
  | .unlockNone => .held .plain
  | .send p => .send .terminate p
  | .shutdown p => .shutdown .terminate p
  | .close p => .close .terminate p
  | .clear p => .clear .terminate p
  | .unlock p => .closed p
  | .join p => .join .terminate p
  | .joining p t => .joining .terminate p t
  | .relock p => .relock .terminate p
  | .find2 p => .find .terminate p
  | .unlink p prev => .unlink .terminate p prev
  | .free p => .free .terminate p
  | .leave => .held .plain

def SendPc.stage : SendPc → Stage
  | .lock => .rest
  | .find => .held .plain
  | .unlockNone => .held .plain
  | .send p => .found p
  | .unlock p _ => .found p
  | .log p => .log p

def ExitPc.stage : ExitPc → Stage
  | .stop => .exitStop
  | .closeServer => .exitStart
  | .lock => .exitLock
  | .pass cur => .pass cur
  | .send p => .send .exit p
  | .shutdown p => .shutdown .exit p
  | .close p => .close .exit p
  | .clear p => .clear .exit p
  | .unlock => .passed
  | .joinListener => .waiting
  | .relock => .exitRelock
  | .next cur => .next cur
  | .joining p t => .exitJoining p t
  | .free p => .exitFree p
  | .clearHead => .clearHead
  | .leave => .exitLeave

/-- **The stage of the main thread.** -/
def MainPc.stage : MainPc → Stage
  | .loop => .rest
  | .reap q _ => q.stage
  | .connect q => q.stage
  | .list q => q.stage
  | .terminate _ q => q.stage
  | .send _ _ q => q.stage
  | .exit q => q.stage
  | .ended => .ended

/-- The set-up the main thread is in. -/
def MainPc.inSetup : MainPc → Option SetupPc
  | .connect (.setup q) => some q
  | _ => none

/-- The set-up the listener thread is in. -/
def ListenerPc.inSetup : ListenerPc → Option SetupPc
  | .setup q => some q
  | _ => none

def State.setup (s : State) : Tid → Option SetupPc
  | .main => s.main.inSetup
  | .listener => s.listener.inSetup
  | .recv _ => none

/-- A state of the registry machine. -/
structure View where
  mem : Mem
  setup : Tid → Option SetupPc
  stage : Stage
  done : Bool

/-- **What the registry machine sees of a state.** -/
def State.view (s : State) : View := ⟨s.mem, s.setup, s.main.stage, s.listener = .finished⟩

/-- The thread that a label moves, and the choice of its environment. -/
def Label.who : Label → Option (Tid × Choice)
  | .main ch => some (.main, ch)
  | .listener ch => some (.listener, ch)
  | .recv p ch => some (.recv p, ch)
  | .peer _ _ => none

/-- Does the label move this thread? -/
def Label.by (l : Label) (t : Tid) : Bool := l.who.any fun w => w.1 = t

/-- A step of a set-up: `none` when it is over. -/
inductive SetupMove (m : Mem) (ch : Choice) : SetupPc → Op → Option SetupPc → Prop where
  | alloc (fd c a ip port) :
    SetupMove m ch (.malloc fd c a) (.alloc fd c ip port) (some (.lock m.allocs fd))
  | allocFails (fd c a) : SetupMove m ch (.malloc fd c a) .skip (some (.abort fd c))
  | abort (fd c) : SetupMove m ch (.abort fd c) (.close fd none) none
  | lock (p fd) (hm : m.connMutex = none) : SetupMove m ch (.lock p fd) .lock (some (.link p fd))
  | link (p fd) : SetupMove m ch (.link p fd) (.link p) (some (.publish p fd))
  | publish (p fd) : SetupMove m ch (.publish p fd) (.publish p) (some (.unlock p fd))
  | unlock (p fd) : SetupMove m ch (.unlock p fd) .unlock (some (.create p fd))
  | create (p fd) (hc : ch = .ok) : SetupMove m ch (.create p fd) (.create p) (some (.log p))
  | createFails (p fd) (hc : ch = .fail) :
    SetupMove m ch (.create p fd) (.createFail p) (some (.rbClose p fd))
  | rbClose (p fd) : SetupMove m ch (.rbClose p fd) (.close fd (some p)) (some (.rbLock p))
  | rbLock (p) (hm : m.connMutex = none) : SetupMove m ch (.rbLock p) .lock (some (.rbFind p))
  | rbHit (p prev) (hf : Sync.findLink m.next m.connHead p m.listed = some prev) :
    SetupMove m ch (.rbFind p) .skip (some (.rbUnlink p prev))
  | rbMiss (p) (hf : Sync.findLink m.next m.connHead p m.listed = none) :
    SetupMove m ch (.rbFind p) .skip (some (.rbFree p))
  | rbUnlink (p prev) : SetupMove m ch (.rbUnlink p prev) (.unlink p prev) (some (.rbFree p))
  | rbFree (p) : SetupMove m ch (.rbFree p) (.free p) (some .rbUnlock)
  | rbUnlock : SetupMove m ch .rbUnlock .unlock none
  | log (p) : SetupMove m ch (.log p) .skip none

/-- A step of the main thread outside of a set-up; `d`: the listener thread has ended. -/
inductive MainMove (m : Mem) (d : Bool) (ch : Choice) : Stage → Op → Stage → Prop where
  | stay (k) : MainMove m d ch k .skip k
  | eof : MainMove m d ch .rest .skip .ended
  | lock (w) (hm : m.connMutex = none) : MainMove m d ch .rest .lock (.held w)
  | give (w) : MainMove m d ch (.held w) .skip (.held .plain)
  | leave : MainMove m d ch (.held .plain) .unlock .rest
  | leaveExit : MainMove m d ch (.held .plain) .unlock .exitStop
  | open (n) (hn : m.files n = none) (hc : ch = .fd n) :
    MainMove m d ch .rest (.openConn n) (.opened n m.opens)
  | connectFails (fd c) : MainMove m d ch (.opened fd c) .skip (.abandon fd c)
  | abandon (fd c) : MainMove m d ch (.abandon fd c) (.close fd none) .rest
  | found (p) (hp : p ∈ m.listed) (ha : (m.node p).active) :
    MainMove m d ch (.held .plain) .skip (.found p)
  | sendFound (p text sent) (hb : ¬ m.brokenPipe p) :
    MainMove m d ch (.found p) (.send p text sent) (.found p)
  | killFound (p text) : MainMove m d ch (.found p) (.send p text false) .ended
  | unlockFound (p) : MainMove m d ch (.found p) .unlock (.log p)
  | unlockFailed (p) : MainMove m d ch (.found p) .unlock .rest
  | logged (p) : MainMove m d ch (.log p) .skip .rest
  | pick (p) (hp : p ∈ m.listed) (hr : (m.node p).shouldRemove) :
    MainMove m d ch (.held .scan) .skip (.doomed p)
  | unlockDoomed (p) : MainMove m d ch (.doomed p) .unlock (.join .reap p)
  | choose (p) (hp : p ∈ m.listed) : MainMove m d ch (.held .choose) .skip (.send .terminate p)
  | send (b p sent) (hb : ¬ m.brokenPipe p) :
    MainMove m d ch (.send b p) (.send p disconnect sent) (.shutdown b p)
  | kill (b p) : MainMove m d ch (.send b p) (.send p disconnect false) .ended
  | shutdown (b p) : MainMove m d ch (.shutdown b p) (.shutdown p) (.close b p)
  | close (b p) : MainMove m d ch (.close b p) (.close (m.node p).sockfd (some p)) (.clear b p)
  | clear (p) : MainMove m d ch (.clear .terminate p) (.deactivate p) (.closed p)
  | clearExit (p) : MainMove m d ch (.clear .exit p) (.deactivate p) (.pass (m.next p))
  | unlockClosed (p) : MainMove m d ch (.closed p) .unlock (.join .terminate p)
  | join (b p) : MainMove m d ch (.join b p) (.joinCall p) (.joining b p (m.node p).thread)
  | joined (b p t) (hj : m.joinable t) :
    MainMove m d ch (.joining b p t) (.joinReturn p) (.relock b p)
  | relock (b p) (hm : m.connMutex = none) : MainMove m d ch (.relock b p) .lock (.find b p)
  | findHit (b p prev) (hf : Sync.findPrev p none m.listed = some prev) :
    MainMove m d ch (.find b p) .skip (.unlink b p prev)
  | findMiss (b p w) (hf : Sync.findPrev p none m.listed = none) :
    MainMove m d ch (.find b p) .skip (.held w)
  | unlink (b p prev) : MainMove m d ch (.unlink b p prev) (.unlink p prev) (.free b p)
  | freeReap (p) : MainMove m d ch (.free .reap p) (.free p) (.logFreed p)
  | free (p) : MainMove m d ch (.free .terminate p) (.free p) (.held .plain)
  | logFreed (p) : MainMove m d ch (.logFreed p) .skip (.held .scan)
  | stop : MainMove m d ch .exitStop .stop .exitStart
  | closeServer : MainMove m d ch .exitStart (.close serverSock none) .exitLock
  | exitLock (hm : m.connMutex = none) : MainMove m d ch .exitLock .lock (.pass m.connHead)
  | passEnd : MainMove m d ch (.pass none) .skip .passed
  | passSkip (p) (ha : ¬ (m.node p).active) : MainMove m d ch (.pass (some p)) .skip (.pass (m.next p))
  | passPick (p) (ha : (m.node p).active) : MainMove m d ch (.pass (some p)) .skip (.send .exit p)
  | unlockPassed : MainMove m d ch .passed .unlock .waiting
  | joinListener (hd : d) : MainMove m d ch .waiting .skip .exitRelock
  | exitRelock (hm : m.connMutex = none) : MainMove m d ch .exitRelock .lock (.next m.connHead)
  | nextEnd : MainMove m d ch (.next none) .skip .clearHead
  | nextJoin (p) : MainMove m d ch (.next (some p)) (.joinCall p) (.exitJoining p (m.node p).thread)
  | exitJoined (p t) (hj : m.joinable t) :
    MainMove m d ch (.exitJoining p t) (.joinReturn p) (.exitFree p)
  | exitFree (p) : MainMove m d ch (.exitFree p) (.free p) (.next (m.next p))
  | clearHead : MainMove m d ch .clearHead .clearHead .exitLeave
  | exitLeave : MainMove m d ch .exitLeave .unlock .ended

/-- A step of the receive thread of record `p`. -/
inductive RecvMove (m : Mem) (p : Ptr) : RecvPc → Op → RecvPc → Prop where
  | call (c) (hc : m.connOf p = some c) : RecvMove m p .top .skip (.inRecv c)
  | bad : RecvMove m p .top (.print p .recvFailed) .lock
  | take (c n) : RecvMove m p (.inRecv c) (.take p c n) (.got ((m.socks c).inbox.take n))
  | again (c) : RecvMove m p (.inRecv c) .skip .top
  | over (c line) : RecvMove m p (.inRecv c) (.print p line) .lock
  | show (buf) : RecvMove m p (.got buf) (.print p (onData buf).1) .top
  | showLast (buf) : RecvMove m p (.got buf) (.print p (onData buf).1) .lock
  | lock (hm : m.connMutex = none) : RecvMove m p .lock .lock .mark
  | mark : RecvMove m p .mark (.mark p) .unlock
  | unlock : RecvMove m p .unlock .unlock .finished

/-- **What a step can do.** -/
inductive Move : View → Label → View → Prop where
  | setup {m su k d l t ch q op q'} (hl : l.who = some (t, ch)) (hs : su t = some q)
    (ht : t = .main ∧ k = .rest ∨ t = .listener) (h : SetupMove m ch q op q') :
    Move ⟨m, su, k, d⟩ l ⟨m.apply t op, Function.update su t q', k, d⟩
  | main {m su k d l ch op k'} (hl : l.who = some (.main, ch)) (hs : su .main = none)
    (h : MainMove m d ch k op k') : Move ⟨m, su, k, d⟩ l ⟨m.apply .main op, su, k', d⟩
  /-- `connect()` succeeds: a set-up begins. -/
  | connected {m su d l fd c} (a) (hs : su .main = none) :
    Move ⟨m, su, .opened fd c, d⟩ l ⟨m, Function.update su .main (some (.malloc fd c a)), .rest, d⟩
  /-- `accept()` succeeds: a set-up begins. -/
  | accepted {m su k l n} (a) (hl : l = .listener (.peer n a)) (hs : su .listener = none)
    (hn : m.files n = none) :
    Move ⟨m, su, k, false⟩ l
      ⟨m.apply .listener (.openConn n), Function.update su .listener (some (.malloc n m.opens a)), k, false⟩
  /-- The listener goes on with its loop. -/
  | listen {v l} : Move v l v
  | listenerEnds {m su k d l} (hs : su .listener = none) (hr : m.running = false) :
    Move ⟨m, su, k, d⟩ l ⟨m, su, k, true⟩
  | recv {m su k d l p q op q'} (hq : m.recv p = some q) (h : RecvMove m p q op q') :
    Move ⟨m, su, k, d⟩ l ⟨(m.apply (.recv p) op).setRecv p q', su, k, d⟩
  | peer {m su k d l c e} (hc : c < m.opens) :
    Move ⟨m, su, k, d⟩ l ⟨m.setSock c (PeerEvent.on · e), su, k, d⟩

end Chat
