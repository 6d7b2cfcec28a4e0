import LinuxExercises.Spec.Chat

/-!
# p2pchat: outgoing connections

The chat with a list beside it of the records that `cmd_connect` has created.
-/

namespace Chat

/-- `c->ip` and `c->port`. -/
def Mem.endpoint (m : Mem) (p : Ptr) : Bytes × ℕ := ((m.node p).ip, (m.node p).port)

/-- `add_connection` in `cmd_connect` gets its memory: the next record is an outgoing one. -/
def noteOutgoing (s : State) (l : Label) (out : List Ptr) : List Ptr :=
  match s.main, l with
  | .connect (.setup (.malloc ..)), .main .ok => s.mem.allocs :: out
  | _, _ => out

/-- **The chat, with the records created by `cmd_connect`.** -/
def outgoing (E : Env) : Sync.Trans (State × List Ptr) Label := (chat E).ghost [] noteOutgoing

/-- No two of these records are active, on the list and to the same address and port. -/
def OnePerEndpoint (m : Mem) (out : List Ptr) : Prop :=
  ∀ p ∈ m.listed, ∀ q ∈ m.listed, p ∈ out → q ∈ out → (m.node p).active → (m.node q).active →
    m.endpoint p = m.endpoint q → p = q

end Chat
