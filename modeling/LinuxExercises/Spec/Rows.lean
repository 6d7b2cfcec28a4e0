import LinuxExercises.Spec.Chat

/-!
# p2pchat: the table behind the list

What the list of connections is for: a table of rows that threads edit one edit at a time
(`connTable`), each thread only in its own ways. `Mem.rows` reads the table off the list and the
records. The field `thread`, which `pthread_create` fills outside the mutex, is no part of it.
-/

namespace Chat

/-- What a record says about its connection. -/
structure Row where
  conn : Ptr
  id : BitVec 32
  sockfd : Fd
  ip : Bytes
  port : ℕ
  active : Bool
  shouldRemove : Bool
  deriving DecidableEq

/-- An edit of the table. -/
inductive Edit where
  | add (r : Row)
  | drop (p : Ptr)
  | deactivate (p : Ptr)
  | mark (p : Ptr)
  | clear
  deriving DecidableEq

def Edit.on : Edit → List Row → List Row
  | .add r, rows => r :: rows
  | .drop p, rows => rows.filter fun r => r.conn ≠ p
  | .deactivate p, rows => rows.map fun r => if r.conn = p then { r with active := false } else r
  | .mark p, rows => rows.map fun r => if r.conn = p then { r with active := false, shouldRemove := true } else r
  | .clear, _ => []

/-- The threads that make the edit: connections are added and dropped by the main thread and the
listener, and marked by their own receive thread. -/
def Edit.By (t : Tid) : Edit → Prop
  | .add _ | .drop _ => t = .main ∨ t = .listener
  | .deactivate _ | .clear => t = .main
  | .mark p => t = .recv p

/-- The table is fit for the edit: what is added is new, active and not marked, what is changed
is there. -/
def Edit.Fits (rows : List Row) : Edit → Prop
  | .add r => (r.active = true ∧ r.shouldRemove = false) ∧ ∀ x ∈ rows, x.conn ≠ r.conn
  | .drop p | .deactivate p | .mark p => ∃ r ∈ rows, r.conn = p
  | .clear => True

instance (t : Tid) (e : Edit) : Decidable (e.By t) := by
  cases e <;> unfold Edit.By <;> infer_instance

instance (rows : List Row) (e : Edit) : Decidable (e.Fits rows) := by
  cases e <;> unfold Edit.Fits <;> infer_instance

/-- **The table**: one edit at a time. -/
def connTable : Sync.Trans (List Row) (Tid × Edit) where
  init := []
  step := fun rows (t, e) => if e.By t ∧ e.Fits rows then some (e.on rows) else none

/-- The row of a record. -/
def Mem.row (m : Mem) (p : Ptr) : Row :=
  let n := m.node p
  ⟨p, n.id, n.sockfd, n.ip, n.port, n.active, n.shouldRemove⟩

/-- **The table that the list spells.** -/
def Mem.rows (m : Mem) : List Row := m.listed.map m.row

end Chat
