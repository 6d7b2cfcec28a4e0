import LinuxExercises.Spec.SetUp

/-!
# p2pchat: connections to itself

`main` binds its listener to `INADDR_ANY`, so it accepts on every address of the host.
`wired` is the chat with the kernel's knowledge beside it of which accepted connection is the
other end of which outgoing one.
-/

namespace Chat

/-- The host: its text conversions, the addresses of its interfaces, what `socket()` and
`getsockname()` give to `get_local_ip` (`none`: one of them fails), and the listening port. -/
structure Host where
  inetPton : Bytes → Option Addr
  inetNtop : Addr → Bytes
  interfaces : List Addr
  sockname : Option Addr
  listenPort : ℕ

/-- `get_local_ip`. -/
def Host.getLocalIp (H : Host) : Option Bytes := H.sockname.map H.inetNtop

/-- What `main` stores in `local_ip`. -/
def Host.localIp (H : Host) : Bytes := H.getLocalIp.getD loopback

/-- The chat on this host. -/
def Host.env (H : Host) : Env := ⟨H.inetPton, H.inetNtop, H.localIp, H.listenPort⟩

/-- A connection to the address stays on the host: `127.0.0.0/8`, `0.0.0.0`, an interface. -/
def Host.isLocal (H : Host) (a : Addr) : Bool := a.toNat / 2 ^ 24 = 127 ∨ a = 0 ∨ a ∈ H.interfaces

/-- The two texts denote the host's own listener. -/
def Host.Own (H : Host) (ip portstr : Bytes) : Prop :=
  ip ≠ [] ∧ (∃ a, H.inetPton ip = some a ∧ H.isLocal a) ∧ parsePort portstr = some H.listenPort

/-- The own listener is given by one of the two texts that `cmd_connect` compares with. -/
def Host.Compared (H : Host) (ip portstr : Bytes) : Prop :=
  H.Own ip portstr → ip = H.localIp ∨ ip = loopback

/-- **`cmd_connect` refuses** the two texts before `connect()`, on every registry and whatever
the other threads do. -/
def Refuses (E : Env) (ip portstr : Bytes) : Prop :=
  ∀ m s, (settingUp E (.connect ip portstr) m).Reachable s → ∀ d fd c, s.pc ≠ .connect (.connect d fd c)

/-! ## Both ends -/

/-- What the kernel knows: the sockets that `cmd_connect` calls `connect()` on, with the
destination, and the pairs of an outgoing and an accepted socket that are one connection. -/
structure Wires where
  dialled : List (Sock × Dest)
  ends : List (Sock × Sock)

/-- The destination is the host's own listener. -/
def Host.reaches (H : Host) (d : Dest) : Bool := d.port = H.listenPort && (H.inetPton d.ip).any H.isLocal

/-- `cmd_connect` has its socket and goes on to `connect()`. -/
def noteDial (s : State) (l : Label) (dialled : List (Sock × Dest)) : List (Sock × Dest) :=
  match s.main, l with
  | .connect (.socket d), .main (.fd _) => (s.mem.opens, d) :: dialled
  | _, _ => dialled

/-- `accept()` may return the other end of the outgoing connection. -/
def Host.accepts (H : Host) (s : State) (w : Wires) (l : Label) (c : Sock) : Bool :=
  match s.listener, l with
  | .accept, .listener (.peer ..) =>
    (w.dialled.any fun x => x.1 = c ∧ H.reaches x.2) && c ∉ w.ends.map Prod.fst
  | _, _ => false

/-- A step of the chat; `accept()` returns the other end of an outgoing connection, or not. -/
def Host.wiredStep (H : Host) (x : State × Wires) (l : Label × Option Sock) : Option (State × Wires) :=
  (State.step H.env x.1 l.1).bind fun s =>
    match l.2 with
    | none => some (s, { x.2 with dialled := noteDial x.1 l.1 x.2.dialled })
    | some c => if H.accepts x.1 x.2 l.1 c then some (s, { x.2 with ends := (c, x.1.mem.opens) :: x.2.ends }) else none

/-- **The chat on a host, with its connections to itself.** -/
def wired (H : Host) : Sync.Trans (State × Wires) (Label × Option Sock) where
  init := (.init, ⟨[], []⟩)
  step := H.wiredStep

/-- The registry holds the two ends of one connection. -/
def BothEnds (m : Mem) (w : Wires) : Prop :=
  ∃ p ∈ m.listed, ∃ q ∈ m.listed, ((m.hist p).sock, (m.hist q).sock) ∈ w.ends

/-- A command `connect` of this step names the own listener by a compared text only. -/
def Host.ComparedAt (H : Host) (l : Label) : Prop :=
  ∀ ip portstr, l = .main (.line (.connect ip portstr)) → H.Compared ip portstr

end Chat
