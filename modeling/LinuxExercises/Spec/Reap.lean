import LinuxExercises.Spec.ChatMem

/-!
# p2pchat: `reap_connections` under interference

The loop of `reap_connections` with its own pointers, on the shared state of the chat. It
holds `conn_mutex` but for one window in each round that meets a marked record, where it
joins the record's thread; what the other threads do in the `k`-th window is `ws k`.
-/

namespace Chat

/-- Some operations of one thread, in order. -/
def Mem.perform (m : Mem) (t : Tid) (ops : List Op) : Mem := ops.foldl (fun m op => m.apply t op) m

/-- What another thread does to the list. -/
inductive Meddle where
  /-- `listener_thread` calls `add_connection`, and then `pthread_create`, which succeeds
  (`started`) or not. -/
  | prepend (fd : Fd) (c : Sock) (ip : Bytes) (port : ℕ) (started : Bool)
  /-- The end of `conn_recv_thread` for a listed record. -/
  | mark (p : Ptr)
  /-- `listener_thread` takes a listed record back whose thread was never created. -/
  | rollback (p : Ptr)
  deriving DecidableEq

/-- **An interference**, as the operations of its thread. -/
def Mem.meddle (m : Mem) : Meddle → Mem
  | .prepend fd c ip port started =>
    m.perform .listener
      ([.alloc fd c ip port, .lock, .link m.allocs, .publish m.allocs, .unlock] ++
        if started then [.create m.allocs] else [.createFail m.allocs])
  | .mark p =>
    if p ∈ m.listed then (m.perform (.recv p) [.lock, .mark p, .unlock]).setRecv p .finished else m
  | .rollback p =>
    if p ∈ m.listed ∧ (m.node p).thread = none then
      m.perform .listener
        ([.close (m.node p).sockfd (some p), .lock] ++
          (match Sync.findLink m.next m.connHead p m.listed with
            | some prev => [.unlink p prev]
            | none => []) ++
          [.free p, .unlock])
    else m

/-- `remove_node_locked`. -/
def removeNodeLocked (m : Mem) (prev : Option Ptr) (cur : Ptr) : Mem :=
  m.perform .main [.unlink cur prev, .free cur]

/-- `while (scan && scan != cur)`, in at most `n` tests: `scan_prev` when the loop ends at
`cur`, or that it ends at `NULL`. -/
def scanFor (next : Ptr → Option Ptr) (cur : Ptr) : ℕ → Option Ptr → Option Ptr → Option (Option (Option Ptr))
  | 0, _, _ => none
  | _ + 1, none, _ => some none
  | n + 1, some scan, scanPrev =>
    if scan = cur then some (some scanPrev) else scanFor next cur n (next scan) (some scan)

/-- A removal by `reap_connections`: the record, its fields and its life just before. -/
structure Removal where
  conn : Ptr
  node : PeerConn
  life : Life
  deriving DecidableEq

/-- `reap_connections` at the head of its loop: the shared state, `prev` and `cur`, and for
the statements how many windows are over and what was removed. -/
structure Reaping where
  mem : Mem
  prev : Option Ptr
  cur : Option Ptr
  window : ℕ
  removed : List Removal

/-- The window of a marked record: `pthread_join` outside the mutex. -/
def Mem.joinWindow (m : Mem) (p : Ptr) (acts : List Meddle) : Mem :=
  (acts.foldl Mem.meddle (m.perform .main [.unlock, .joinCall p])).perform .main [.joinReturn p, .lock]

/-- **One round of the loop**, with `cur` on a record. -/
def reapRound (ws : ℕ → List Meddle) (n : ℕ) (r : Reaping) (cur : Ptr) : Option Reaping :=
  if (r.mem.node cur).shouldRemove then
    let m := r.mem.joinWindow cur (ws r.window)
    match scanFor m.next cur n m.connHead none with
    | none => none
    | some none => some ⟨m, none, m.connHead, r.window + 1, r.removed⟩
    | some (some scanPrev) =>
      let m' := removeNodeLocked m scanPrev cur
      some ⟨m', none, m'.connHead, r.window + 1, r.removed ++ [⟨cur, m.node cur, (m.hist cur).life⟩]⟩
  else some { r with prev := some cur, cur := r.mem.next cur }

/-- `while (cur)`, in at most `n` rounds. -/
def reapLoop (ws : ℕ → List Meddle) : ℕ → Reaping → Option Reaping
  | 0, _ => none
  | n + 1, r =>
    match r.cur with
    | none => some { r with mem := r.mem.apply .main .unlock }
    | some cur => (reapRound ws n r cur).bind (reapLoop ws n)

/-- **`reap_connections`**, from the moment it gets the mutex. -/
def reap (ws : ℕ → List Meddle) (n : ℕ) (m : Mem) : Option Reaping :=
  reapLoop ws n ⟨m.apply .main .lock, none, m.connHead, 0, []⟩

/-- What happens in the first `k` windows. -/
def acts (ws : ℕ → List Meddle) (k : ℕ) : List Meddle := (List.range k).flatMap ws

/-- The links spell a list of distinct records that were allocated and are not released. -/
structure Mem.Lists (m : Mem) (l : List Ptr) : Prop where
  chain : Sync.Chain m.next m.connHead l
  nodup : l.Nodup
  born : ∀ p ∈ l, p < m.allocs
  alive : ∀ p ∈ l, (m.hist p).life = .listed

/-- The records that interferences make, the oldest first, as they put them on the list: `p` and `id`
are the next name and the next id. -/
def newcomers (p : Ptr) (id : BitVec 32) : List Meddle → List PeerConn
  | [] => []
  | .prepend fd _ ip port started :: h =>
    ⟨id, fd, ip, port, if started then some p else none, true, false⟩ :: newcomers (p + 1) (id + 1) h
  | _ :: h => newcomers p id h

/-- **What `reap_connections` is for**: `m` and `l` are the state and the list in which it was
called, `r` how it returned, `h` the interference in between.

* `clean`, `marked`: no marked record is left, and it removed marked records only, each
  marked by then by its thread if not before the call;
* `once`, `released`: it removed and released each of them once;
* `order`: the records that were there and still are have kept their order, behind the new ones,
  of which the last one inserted comes first;
* `fields`, `fresh`: the old ones have kept their fields, and the new ones those they were made with;
* `whole`: no other record has left the list, but for those taken back by the listener;
* `quiet`: without interference the list is the unmarked part of the old one. -/
structure Reaped (m : Mem) (l : List Ptr) (h : List Meddle) (r : Reaping) : Prop where
  unlocked : r.mem.connMutex = none
  lists : r.mem.Lists r.mem.listed
  clean : ∀ p ∈ r.mem.listed, (r.mem.node p).shouldRemove = false
  marked : ∀ x ∈ r.removed, x.node.shouldRemove ∧
    (x.conn ∈ l ∧ (m.node x.conn).shouldRemove ∨ .mark x.conn ∈ h)
  once : (r.removed.map Removal.conn).Nodup
  released : ∀ x ∈ r.removed, x.life = .listed ∧ (r.mem.hist x.conn).life = .released ∧ x.conn ∉ r.mem.listed
  order : ∃ new old, r.mem.listed = new ++ old ∧ old.Sublist l ∧ (∀ p ∈ new, m.allocs ≤ p) ∧ new.Pairwise (· > ·)
  fields : ∀ p ∈ r.mem.listed, p ∈ l → r.mem.node p = m.node p
  fresh : ∀ p ∈ r.mem.listed, m.allocs ≤ p → (newcomers m.allocs m.nextConnId h)[p - m.allocs]? = some (r.mem.node p)
  whole : ∀ p, p ∈ l ∨ m.allocs ≤ p ∧ p < r.mem.allocs →
    p ∈ r.mem.listed ∨ p ∈ r.removed.map Removal.conn ∨ .rollback p ∈ h ∧ (p ∈ l → (m.node p).thread = none)
  quiet : h = [] → r.mem.listed = l.filter fun p => !(m.node p).shouldRemove

end Chat
