import LinuxExercises.Spec.Chat
import LinuxExercises.Spec.Reap

/-!
# p2pchat: one connection set-up

`cmd_connect` or one iteration of `listener_thread`, step by step on any registry, while the
other threads insert, mark and remove records whenever `conn_mutex` is free, and open and
close descriptors of their own.
-/

namespace Chat

/-! ## What the other threads do -/

/-- What the list, the records and the descriptor table look like from outside. -/
structure Registry where
  list : List Ptr
  node : Ptr → PeerConn
  files : Fd → Option File

/-- A change to a registry. -/
inductive Change where
  | insert (p : Ptr) (n : PeerConn)
  | mark (p : Ptr)
  | deactivate (p : Ptr)
  | remove (p : Ptr)
  | opens (fd : Fd) (f : Option File)
  | closes (fd : Fd)

def Registry.change (r : Registry) : Change → Registry
  | .insert p n => { r with list := p :: r.list, node := Function.update r.node p n }
  | .mark p => { r with node := Function.update r.node p { r.node p with active := false, shouldRemove := true } }
  | .deactivate p => { r with node := Function.update r.node p { r.node p with active := false } }
  | .remove p => { r with list := r.list.erase p }
  | .opens fd f => { r with files := Function.update r.files fd f }
  | .closes fd => { r with files := Function.update r.files fd none }

/-- What another thread does: it adds a record, ends with the mark of its record, clears the
`active` of a record, removes and frees one, or opens or closes a descriptor. -/
inductive Disturb where
  | insert (fd : Fd) (c : Sock) (ip : Bytes) (port : ℕ) (started : Bool)
  | mark (p : Ptr)
  | deactivate (p : Ptr)
  | remove (p : Ptr)
  | opens (fd : Fd)
  | closes (fd : Fd)
  deriving DecidableEq

/-- It happens under `conn_mutex`. -/
def Disturb.locks : Disturb → Bool
  | .opens _ | .closes _ => false
  | _ => true

/-- **An interference**, as the operations of its thread. -/
def Mem.disturb (m : Mem) : Disturb → Mem
  | .insert fd c ip port started => m.meddle (.prepend fd c ip port started)
  | .mark p => m.meddle (.mark p)
  | .deactivate p => m.perform .main [.lock, .deactivate p, .unlock]
  | .remove p =>
    match Sync.findPrev p none m.listed with
    | some prev => m.perform .main [.lock, .unlink p prev, .free p, .unlock]
    | none => m
  | .opens fd => m.apply .main (.openConn fd)
  | .closes fd => m.apply .main (.close fd none)

/-- What an interference changes. -/
def Disturb.change (m : Mem) (a : Disturb) : Change :=
  match a with
  | .insert .. => .insert m.allocs ((m.disturb a).node m.allocs)
  | .mark p => .mark p
  | .deactivate p => .deactivate p
  | .remove p => .remove p
  | .opens fd => .opens fd (some (.conn m.opens))
  | .closes fd => .closes fd

/-! ## The set-up -/

/-- A command `connect` with its two arguments, or an iteration of the listener. -/
inductive Attempt where
  | connect (ip port : Bytes)
  | accept

/-- Where the set-up is, and at its end whether it has succeeded. -/
inductive AttemptPc where
  | connect (q : ConnectPc)
  | listener (q : ListenerPc)
  | left (success : Bool)
  deriving DecidableEq

/-- Checks 1 to 3 of `cmd_connect`; the listener starts in `accept`. -/
def Attempt.start (E : Env) : Attempt → AttemptPc
  | .connect ip port =>
    match connectTarget E ip port with
    | some d => .connect (.lock d)
    | none => .left false
  | .accept => .listener .accept

/-- The thread that sets up. -/
def AttemptPc.tid : AttemptPc → Tid
  | .listener _ => .listener
  | _ => .main

/-- The last step of a set-up that has succeeded. -/
def SetupPc.succeeds : SetupPc → Bool
  | .log _ => true
  | _ => false

def ConnectPc.succeeds : ConnectPc → Bool
  | .setup q => q.succeeds
  | _ => false

def ListenerPc.succeeds : ListenerPc → Bool
  | .setup q => q.succeeds
  | _ => false

/-- `cmd_connect`, or `listener_thread` up to its next iteration. -/
def attemptStep (E : Env) (m : Mem) (ch : Choice) : AttemptPc → Option (Op × AttemptPc)
  | .connect q => (cmdConnect E m ch q).map fun (op, f) => (op, f.lift .connect (.left q.succeeds) (.left false))
  | .listener q =>
    (listenerThread E m ch q).map fun (op, q') =>
      (op, if q' = .check ∨ q' = .finished then .left q.succeeds else .listener q')
  | .left _ => none

/-- A set-up: the shared state and where it is; for the statements its record, the sockets it
has opened, its calls of `close` with the file each of them hit, and what the other threads
have changed. -/
structure SettingUp where
  mem : Mem
  pc : AttemptPc
  own : Option Ptr
  opened : List (Fd × Sock)
  closed : List (Fd × Option File)
  changes : List Change

/-- The set-up has performed an operation. -/
def SettingUp.did (s : SettingUp) (op : Op) (pc : AttemptPc) : SettingUp where
  mem := s.mem.apply s.pc.tid op
  pc := pc
  own := match op with
    | .alloc .. => some s.mem.allocs
    | _ => s.own
  opened := match op with
    | .openConn fd => s.opened ++ [(fd, s.mem.opens)]
    | _ => s.opened
  closed := match op with
    | .close fd _ => s.closed ++ [(fd, s.mem.files fd)]
    | _ => s.closed
  changes := s.changes

/-- The descriptors that the set-up has open. -/
def SettingUp.descriptors (s : SettingUp) : List Fd := (s.opened.drop s.closed.length).map Prod.fst

/-- The interferences that can happen: under the mutex only when it is free, no removal of
the new record, and no close of its descriptor. -/
def SettingUp.admits (s : SettingUp) (a : Disturb) : Bool :=
  (!a.locks || s.mem.connMutex = none) &&
    match a with
    | .remove p => p ∈ s.mem.listed ∧ s.own ≠ some p
    | .opens fd => s.mem.files fd = none
    | .closes fd => fd ∉ s.descriptors
    | _ => true

/-- A step of the set-up, or an interference. -/
inductive AttemptLabel where
  | go (ch : Choice)
  | disturb (a : Disturb)

def SettingUp.step (E : Env) (s : SettingUp) : AttemptLabel → Option SettingUp
  | .go ch => (attemptStep E s.mem ch s.pc).map fun (op, pc) => s.did op pc
  | .disturb a =>
    if s.admits a then some { s with mem := s.mem.disturb a, changes := s.changes ++ [a.change s.mem] } else none

/-- **A set-up** on the registry of `m`. -/
def settingUp (E : Env) (a : Attempt) (m : Mem) : Sync.Trans SettingUp AttemptLabel where
  init := ⟨m, a.start E, none, [], [], []⟩
  step := SettingUp.step E

/-! ## A set-up that leaves no trace -/

def Mem.registry (m : Mem) : Registry := ⟨m.listed, m.node, m.files⟩

/-- What the other threads alone would have made of the registry. -/
def SettingUp.alone (m : Mem) (s : SettingUp) : Registry := s.changes.foldl Registry.change m.registry

def Change.isInsert : Change → Bool
  | .insert .. => true
  | _ => false

/-- **What a failed set-up leaves**, in the state `s`; `m` was the state at its start.

* `list`, `fields`, `files`: the list, the fields of its records and the descriptor table are
  what the other threads alone would have made of them;
* `sockets`: the socket that it opened, if any, was closed once, by the number it had;
* `gone`: its record, if any, is released and not listed;
* `ids`: `next_conn_id` has advanced by its record at most, apart from the inserted ones;
* `unlocked`, `running`: the mutex is free, and the chat goes on as before. -/
structure NoTrace (m : Mem) (s : SettingUp) : Prop where
  list : s.mem.listed = (s.alone m).list
  fields : ∀ p ∈ s.mem.listed, s.mem.node p = (s.alone m).node p
  files : s.mem.files = (s.alone m).files
  sockets : s.opened.length ≤ 1 ∧ s.closed = s.opened.map fun x => (x.1, some (.conn x.2))
  gone : ∀ p, s.own = some p → (s.mem.hist p).life = .released ∧ p ∉ s.mem.listed
  ids : s.mem.nextConnId =
    m.nextConnId + BitVec.ofNat 32 ((s.changes.filter Change.isInsert).length + s.own.elim 0 fun _ => 1)
  unlocked : s.mem.connMutex = none
  running : s.mem.running = m.running

end Chat
