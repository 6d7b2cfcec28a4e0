import LinuxExercises.Spec.Terminate
import LinuxExercises.Proof.Reap

/-!
# One call of `cmd_terminate`

* `Hand`: what an interference leaves of the record in hand.
* `Inv`: what is known at each point of the call; up to the window the state is that of the
  call's own operations, behind it that of the re-lock.
* `opened_sockets`: what the first critical section does to the sockets, if the number of the
  target denotes its own one.
* `terminate_ends_iff`: **without a record of that id nothing happens; otherwise the call ends exactly
  its target, and the others stay as they were when the mutex was taken again, if and only if the
  number of the target denotes its own socket**.
* `terminate_strikes`: another connection may have got the number.
-/

namespace Chat

open Sync (Hangs findPrev)

variable {m m' : Mem} {l l' : List Ptr} {p q : Ptr} {id : BitVec 32} {a : Meddle} {s s' : Terminating}
  {written : Bool} {prev : Option Ptr} {t : Option Ptr}

/-! ## The window -/

/-- No call was made on a socket or a descriptor, nor for record `p`. -/
structure Mem.SameSockets (p : Ptr) (m m' : Mem) : Prop where
  sends : m'.sends = m.sends
  socks : m'.socks = m.socks
  files : m'.files = m.files
  closes : (m'.hist p).closes = (m.hist p).closes

theorem Mem.SameSockets.trans {m'' : Mem} (h₁ : m.SameSockets p m') (h₂ : m'.SameSockets p m'') :
    m.SameSockets p m'' where
  sends := by rw [h₂.sends, h₁.sends]
  socks := by rw [h₂.socks, h₁.socks]
  files := by rw [h₂.files, h₁.files]
  closes := by rw [h₂.closes, h₁.closes]

/-- A note in a history that is not about the calls of `close`. -/
theorem sameSockets_note {f : Hist → Hist} (m : Mem) (q : Ptr) (hf : ∀ k, (f k).closes = k.closes) :
    m.SameSockets p (m.note q f) :=
  ⟨rfl, rfl, rfl, note_keep hf m q p⟩

/-- The operations of the first critical section. -/
def opening (p : Ptr) (fd : Fd) (written : Bool) : List Op :=
  [.lock, .skip, .send p disconnect written, .shutdown p, .close fd (some p), .deactivate p, .unlock]

/-- The state behind it. -/
def Mem.opened (m : Mem) (p : Ptr) (written : Bool) : Mem := m.perform .main (opening p (m.node p).sockfd written)

/-- The target is listed, with its thread, and no call was made on a socket since. -/
structure Hand (m : Mem) (p : Ptr) (written : Bool) (l' : List Ptr) (m' : Mem) : Prop where
  lists : m'.Lists l'
  mem : p ∈ l'
  thread : (m'.node p).thread = (m.node p).thread
  sockets : (m.opened p written).SameSockets p m'

/-- An interference acts on no socket. -/
theorem meddle_sockets (hp : p < m.allocs) (ha : a.isWindowAct) : m.SameSockets p (m.meddle a) := by
  cases a with
  | prepend fd c ip port started =>
    have hclose : ((m.meddle (.prepend fd c ip port started)).hist p).closes = (m.hist p).closes := by
      cases started <;> simp [Mem.meddle, Mem.perform, Mem.apply, Mem.note, Mem.setRecv, Mem.setNode, hp.ne]
    cases started
    · exact ⟨rfl, rfl, rfl, hclose⟩
    · exact ⟨rfl, rfl, rfl, hclose⟩
  | mark q =>
    simp only [Mem.meddle]
    split <;> exact ⟨rfl, rfl, rfl, rfl⟩
  | rollback q => simp [Meddle.isWindowAct] at ha

/-- **The target stays in hand.** -/
theorem Hand.meddle (h : Hand m p written l' m') (ha : a.isWindowAct) :
    ∃ l'', Hand m p written l'' (m'.meddle a) := by
  obtain ⟨l'', hm⟩ := meddle_cases h.lists a
  have hsock := h.sockets.trans (meddle_sockets (h.lists.born p h.mem) ha)
  generalize m'.meddle a = m'' at hm hsock ⊢
  refine ⟨l'', hm.lists h.lists, ?_, ?_, hsock⟩
  · cases hm with
    | idle => exact h.mem
    | prepend => exact List.mem_cons_of_mem _ h.mem
    | mark => exact h.mem
    | rollback => simp [Meddle.isWindowAct] at ha
  · rw [← h.thread]
    cases hm with
    | idle => rfl
    | prepend _ _ _ _ node => rw [node p (h.lists.born p h.mem).ne]
    | @mark x _ _ _ _ _ node =>
      rw [node]
      by_cases hx : p = x
      · subst hx
        rw [Function.update_self]
      · rw [Function.update_of_ne hx]
    | rollback => simp [Meddle.isWindowAct] at ha

/-- A thread that has ended stays so. -/
theorem meddle_finished (hp : p < m.allocs) (h : m.recv p = some .finished) (ha : a.isWindowAct) :
    (m.meddle a).recv p = some .finished := by
  cases a with
  | prepend fd c ip port started =>
    cases started with
    | false => exact h
    | true =>
      simp only [Mem.meddle, Mem.perform, List.foldl, Mem.apply, Mem.setRecv, Mem.setNode, Mem.note, if_true,
        List.cons_append, List.nil_append]
      rw [Function.update_of_ne hp.ne]
      exact h
  | mark x =>
    simp only [Mem.meddle]
    split
    · simp only [Mem.setRecv]
      by_cases hx : p = x
      · subst hx
        rw [Function.update_self]
      · rw [Function.update_of_ne hx]
        exact h
    · exact h
  | rollback x => simp [Meddle.isWindowAct] at ha

/-! ## The points of the call -/

theorem perform_snoc (m : Mem) (t : Tid) (ops : List Op) (op : Op) :
    (m.perform t ops).apply t op = m.perform t (ops ++ [op]) := by
  simp [Mem.perform]

theorem hand_opened (hl : m.Lists l) (hp : p ∈ l) (written : Bool) : Hand m p written l (m.opened p written) where
  lists := by
    refine ⟨hl.chain, hl.nodup, hl.born, fun x hx => ?_⟩
    show (if some p = some x then _ else m.hist x).life = _
    split <;> exact hl.alive x hx
  mem := hp
  thread := by
    show (Function.update m.node p _ p).thread = _
    rw [Function.update_self]
    rfl
  sockets := ⟨rfl, rfl, rfl, rfl⟩

/-- The record with the id. -/
structure Target (m : Mem) (l : List Ptr) (id : BitVec 32) (p : Ptr) : Prop where
  mem : p ∈ l
  id : (m.node p).id = id

/-- In the first critical section: `n` of its operations are done. -/
structure Opening (m : Mem) (l : List Ptr) (id : BitVec 32) (s : Terminating) (p : Ptr) (n : ℕ) (written : Bool) :
    Prop where
  target : Target m l id p
  ops : s.ops = (opening p (m.node p).sockfd written).take n
  mem : s.mem = m.perform .main s.ops

/-- Behind it: `ops` are done since, and the target is in hand. -/
structure Past (m : Mem) (l : List Ptr) (id : BitVec 32) (s : Terminating) (p : Ptr) (ops : List Op) : Prop where
  target : Target m l id p
  hand : ∃ written l', s.ops = opening p (m.node p).sockfd written ++ ops ∧ Hand m p written l' s.mem

/-- Its thread has ended, if it had one. -/
def Joined (m m' : Mem) (p : Ptr) : Prop := (m.node p).thread = some p → m'.recv p = some .finished

/-- Behind the removal: `ops` are done since, and `m'` was the state at the re-lock. -/
structure Removing (m : Mem) (l : List Ptr) (id : BitVec 32) (s : Terminating) (p : Ptr) (m' : Mem) (l' : List Ptr)
    (prev : Option Ptr) (done : List Op) : Prop where
  target : Target m l id p
  relocked : s.relocked = some m'
  hand : ∃ written, s.ops = opening p (m.node p).sockfd written ++
    [.joinCall p, .joinReturn p, .lock, .skip, .unlink p prev] ++ done ∧ Hand m p written l' m'
  joined : Joined m m' p
  hangs : Hangs m'.next m'.connHead l' p prev
  mem : s.mem = m'.perform .main (.unlink p prev :: done)

/-- No record has the id, and these operations are done. -/
structure Nobody (m : Mem) (l : List Ptr) (id : BitVec 32) (s : Terminating) (ops : List Op) : Prop where
  none : ∀ p ∈ l, (m.node p).id ≠ id
  ops : s.ops = ops
  mem : s.mem = m.perform .main s.ops

/-- **What is known at each point of the call.** -/
def Terminating.Inv (m : Mem) (l : List Ptr) (id : BitVec 32) (s : Terminating) : Prop :=
  match s.pc with
  | .goto .lock => s.mem = m ∧ s.ops = []
  | .goto .find => s.mem = m.perform .main s.ops ∧ s.ops = [.lock]
  | .goto .unlockNone => Nobody m l id s [.lock, .skip]
  | .goto (.send p) => Opening m l id s p 2 false
  | .goto (.shutdown p) => ∃ written, Opening m l id s p 3 written
  | .goto (.close p) => ∃ written, Opening m l id s p 4 written
  | .goto (.clear p) => ∃ written, Opening m l id s p 5 written
  | .goto (.unlock p) => ∃ written, Opening m l id s p 6 written
  | .goto (.join p) => Past m l id s p []
  | .goto (.joining p t) => Past m l id s p [.joinCall p] ∧ t = (m.node p).thread
  | .goto (.relock p) => Past m l id s p [.joinCall p, .joinReturn p] ∧ Joined m s.mem p
  | .goto (.find2 p) => Past m l id s p [.joinCall p, .joinReturn p, .lock] ∧ Joined m s.mem p ∧
      s.relocked = some s.mem
  | .goto (.unlink p prev) => Past m l id s p [.joinCall p, .joinReturn p, .lock, .skip] ∧ Joined m s.mem p ∧
      s.relocked = some s.mem ∧ Hangs s.mem.next s.mem.connHead s.mem.listed p prev
  | .goto (.free p) => ∃ m' l' prev, Removing m l id s p m' l' prev []
  | .goto .leave => ∃ p m' l' prev, Removing m l id s p m' l' prev [.free p]
  | .ret => Nobody m l id s [.lock, .skip, .unlock] ∨ ∃ p m' l' prev, Removing m l id s p m' l' prev [.free p, .unlock]
  | .killed => True

/-! ## The steps -/

/-- An interference keeps what is known. -/
theorem Past.meddle {ops : List Op} (h : Past m l id s p ops) (ha : a.isWindowAct) :
    Past m l id { s with mem := s.mem.meddle a } p ops := by
  obtain ⟨written, l', hops, hl'⟩ := h.hand
  obtain ⟨l'', hl''⟩ := hl'.meddle ha
  exact ⟨h.target, written, l'', hops, hl''⟩

theorem inv_meddle (h : s.Inv m l id) (hs : s.step id (.meddle a) = some s') : s'.Inv m l id := by
  obtain ⟨mem, pc, ops, relocked⟩ := s
  simp only [Terminating.step] at hs
  cases pc with
  | ret => simp at hs
  | killed => simp at hs
  | goto k =>
    simp only at hs
    split at hs
    · rename_i hw
      simp only [Bool.and_eq_true] at hw
      simp only [Option.some.injEq] at hs
      subst hs
      obtain ⟨hk, ha⟩ := hw
      cases k <;> simp only [TermPc.inWindow, Bool.false_eq_true] at hk
      case join p => exact h.meddle ha
      case joining p t => exact ⟨h.1.meddle ha, h.2⟩
      case relock p =>
        refine ⟨h.1.meddle ha, fun ht => ?_⟩
        obtain ⟨_, l', -, hl'⟩ := h.1.hand
        exact meddle_finished (hl'.lists.born p hl'.mem) (h.2 ht) ha
    · simp at hs

/-- The next operation of the first critical section. -/
theorem Opening.next {n : ℕ} {op : Op} (h : Opening m l id s p n written)
    (hop : (opening p (m.node p).sockfd written)[n]? = some op) (f : Flow TermPc) (r : Option Mem) :
    Opening m l id ⟨s.mem.apply .main op, f, s.ops ++ [op], r⟩ p (n + 1) written where
  target := h.target
  ops := by
    show s.ops ++ [op] = _
    rw [h.ops, List.take_add_one, hop]
    rfl
  mem := by
    show s.mem.apply .main op = m.perform .main (s.ops ++ [op])
    rw [← perform_snoc, ← h.mem]

/-- The descriptor of the target does not change in the first critical section. -/
theorem Opening.sockfd {n : ℕ} (h : Opening m l id s p n written) (hn : n ≤ 5) :
    (s.mem.node p).sockfd = (m.node p).sockfd := by
  have hnode : s.mem.node = m.node := by
    rw [h.mem, h.ops]
    match n, hn with
    | 0, _ => rfl
    | 1, _ => rfl
    | 2, _ => rfl
    | 3, _ => rfl
    | 4, _ => rfl
    | 5, _ => rfl
  rw [hnode]

/-- A step of the command that changes neither the list nor the record in hand, nor a socket. -/
theorem Past.next {ops : List Op} {op : Op} (h : Past m l id s p ops) (hs : s.mem.Same (s.mem.apply .main op))
    (hk : s.mem.SameSockets p (s.mem.apply .main op)) (f : Flow TermPc) (r : Option Mem) :
    Past m l id ⟨s.mem.apply .main op, f, s.ops ++ [op], r⟩ p (ops ++ [op]) := by
  obtain ⟨written, l', hops, hl'⟩ := h.hand
  refine ⟨h.target, written, l', ?_, hl'.lists.same hs, hl'.mem, ?_, hl'.sockets.trans hk⟩
  · show s.ops ++ [op] = _
    rw [hops, List.append_assoc]
  · show ((s.mem.apply .main op).node p).thread = _
    rw [hs.node, hl'.thread]

theorem Removing.next {ops : List Op} {op : Op} (h : Removing m l id s p m' l' prev ops) (f : Flow TermPc) :
    Removing m l id ⟨s.mem.apply .main op, f, s.ops ++ [op], s.relocked⟩ p m' l' prev (ops ++ [op]) where
  target := h.target
  relocked := h.relocked
  hand := by
    obtain ⟨written, hops, hl'⟩ := h.hand
    refine ⟨written, ?_, hl'⟩
    show s.ops ++ [op] = _
    rw [hops, List.append_assoc]
  joined := h.joined
  hangs := h.hangs
  mem := by
    show s.mem.apply .main op = _
    rw [h.mem, perform_snoc]
    rfl

/-- **A step of the command** leads from what is known at one point to the next one. -/
theorem inv_go {ch : Choice} (hl : m.Lists l) (h : s.Inv m l id)
    (hs : s.step id (.go ch) = some s') : s'.Inv m l id := by
  obtain ⟨mem, pc, ops, relocked⟩ := s
  simp only [Terminating.step] at hs
  cases pc with
  | ret => simp at hs
  | killed => simp at hs
  | goto k =>
    obtain ⟨⟨op, f⟩, hstep, rfl⟩ := Option.map_eq_some_iff.1 hs
    cases k with
    | lock =>
      obtain ⟨-, rfl, rfl⟩ := lock_eq hstep
      obtain ⟨rfl, rfl⟩ := h
      exact ⟨rfl, rfl⟩
    | find =>
      obtain ⟨hmem, hops⟩ := h
      simp only at hmem hops
      have hlisted : mem.listed = l := by
        rw [hmem, hops]
        exact (hl.same (same_lock m .main)).listed_eq
      have hnode : mem.node = m.node := by
        rw [hmem, hops]
        rfl
      have hmem' : mem.apply .main .skip = m.perform .main (ops ++ [.skip]) := by
        rw [← perform_snoc, ← hmem]
      simp only [cmdTerminate, hlisted, hnode] at hstep
      split at hstep
      · rename_i x hx
        obtain ⟨rfl, rfl⟩ := Prod.mk.inj (Option.some.inj hstep)
        have hxid := List.find?_some hx
        exact ⟨⟨List.mem_of_find?_eq_some hx, by simpa using hxid⟩, by simp [hops, opening], hmem'⟩
      · rename_i hx
        obtain ⟨rfl, rfl⟩ := Prod.mk.inj (Option.some.inj hstep)
        refine ⟨fun p hp => ?_, by simp [hops], hmem'⟩
        simpa using List.find?_eq_none.1 hx p hp
    | unlockNone =>
      obtain ⟨rfl, rfl⟩ := Prod.mk.inj (Option.some.inj hstep)
      have h : Nobody m l id ⟨mem, .goto .unlockNone, ops, relocked⟩ [.lock, .skip] := h
      have hops : ops = [.lock, .skip] := h.ops
      left
      refine ⟨h.none, by simp [hops], ?_⟩
      show mem.apply .main .unlock = m.perform .main (ops ++ [.unlock])
      rw [← perform_snoc, ← h.mem]
    | send p =>
      have h : Opening m l id ⟨mem, .goto (.send p), ops, relocked⟩ p 2 false := h
      rcases trySend_eq (Option.some.inj hstep) with ⟨rfl, rfl⟩ | ⟨-, written, rfl, rfl⟩
      · exact trivial
      · have h' : Opening m l id ⟨mem, .goto (.send p), ops, relocked⟩ p 2 written := ⟨h.target, h.ops, h.mem⟩
        exact ⟨written, h'.next rfl _ _⟩
    | shutdown p =>
      obtain ⟨rfl, rfl⟩ := Prod.mk.inj (Option.some.inj hstep)
      obtain ⟨written, h⟩ := h
      exact ⟨written, h.next rfl _ _⟩
    | close p =>
      obtain ⟨rfl, rfl⟩ := Prod.mk.inj (Option.some.inj hstep)
      obtain ⟨written, h⟩ := h
      have hfd : (mem.node p).sockfd = (m.node p).sockfd := h.sockfd (by omega)
      rw [hfd]
      exact ⟨written, h.next rfl _ _⟩
    | clear p =>
      obtain ⟨rfl, rfl⟩ := Prod.mk.inj (Option.some.inj hstep)
      obtain ⟨written, h⟩ := h
      exact ⟨written, h.next rfl _ _⟩
    | unlock p =>
      obtain ⟨rfl, rfl⟩ := Prod.mk.inj (Option.some.inj hstep)
      obtain ⟨written, h⟩ := h
      have hend : Opening m l id _ p 7 written := h.next rfl (.goto (.join p)) relocked
      refine ⟨hend.target, written, l, by rw [hend.ops, List.append_nil]; rfl, ?_⟩
      rw [hend.mem, hend.ops]
      exact hand_opened hl hend.target.mem written
    | join p =>
      obtain ⟨rfl, rfl⟩ := Prod.mk.inj (Option.some.inj hstep)
      have h : Past m l id _ p [] := h
      obtain ⟨_, l', -, hl'⟩ := h.hand
      have hnote : mem.SameSockets p (mem.apply .main (.joinCall p)) :=
        sameSockets_note (f := fun h => { h with joins := h.joins ++ [(mem.node p).thread] }) mem p fun _ => rfl
      exact ⟨h.next (same_joinCall mem .main p) hnote _ _, hl'.thread⟩
    | joining p t =>
      obtain ⟨h, ht⟩ := h
      simp only [cmdTerminate] at hstep
      split at hstep
      · rename_i hj
        obtain ⟨rfl, rfl⟩ := Prod.mk.inj (Option.some.inj hstep)
        have hnote : mem.SameSockets p (mem.apply .main (.joinReturn p)) :=
          sameSockets_note (f := fun h => { h with joined := true }) mem p fun _ => rfl
        refine ⟨h.next (same_joinReturn mem .main p) hnote _ _, fun hth => ?_⟩
        -- the join has named the thread of the record
        rw [ht, hth] at hj
        show mem.recv p = _
        simpa [Mem.joinable] using hj
      · simp at hstep
    | relock p =>
      obtain ⟨-, rfl, rfl⟩ := lock_eq hstep
      exact ⟨h.1.next (same_lock mem .main) ⟨rfl, rfl, rfl, rfl⟩ _ _, h.2, rfl⟩
    | find2 p =>
      obtain ⟨h, hj, hr⟩ := h
      obtain ⟨_, l', -, hl'⟩ := h.hand
      have hlisted : mem.listed = l' := hl'.lists.listed_eq
      simp only [cmdTerminate] at hstep
      split at hstep
      · rename_i prev hprev
        obtain ⟨rfl, rfl⟩ := Prod.mk.inj (Option.some.inj hstep)
        rw [hlisted] at hprev
        refine ⟨h.next ⟨rfl, rfl, rfl, rfl, fun _ => rfl, rfl⟩ ⟨rfl, rfl, rfl, rfl⟩ _ _, hj, hr, ?_⟩
        show Hangs mem.next mem.connHead mem.listed p prev
        rw [hlisted]
        exact Sync.findPrev_hangs hl'.lists.chain hprev
      · -- the target is still listed
        rename_i hnone
        rw [hlisted] at hnone
        exact absurd hl'.mem (Sync.findPrev_none.1 hnone)
    | unlink p prev =>
      obtain ⟨rfl, rfl⟩ := Prod.mk.inj (Option.some.inj hstep)
      obtain ⟨h, hj, hr, hh⟩ := h
      obtain ⟨written, l', hops, hl'⟩ := h.hand
      have hlisted : mem.listed = l' := hl'.lists.listed_eq
      simp only at hops hr hj
      refine ⟨mem, l', prev, h.target, hr, ⟨written, by simp [hops], hl'⟩, hj, hlisted ▸ hh, rfl⟩
    | free p =>
      obtain ⟨rfl, rfl⟩ := Prod.mk.inj (Option.some.inj hstep)
      obtain ⟨m', l', prev, h⟩ := h
      exact ⟨p, m', l', prev, h.next _⟩
    | leave =>
      obtain ⟨rfl, rfl⟩ := Prod.mk.inj (Option.some.inj hstep)
      obtain ⟨p, m', l', prev, h⟩ := h
      exact Or.inr ⟨p, m', l', prev, h.next _⟩

theorem inv_terminating (hl : m.Lists l) (h : (terminating id m).Reachable s) : s.Inv m l id := by
  refine h.inv (I := fun s => s.Inv m l id) ⟨rfl, rfl⟩ ?_
  intro s lab s' _ hi _ hs
  cases lab with
  | go ch => exact inv_go hl hi hs
  | meddle a => exact inv_meddle hi hs

/-! ## The return -/

/-- Distinct ids name one record. -/
theorem Target.eq (hid : (l.map fun p => (m.node p).id).Nodup) (hp : Target m l id p) (hq : Target m l id q) : p = q :=
  List.inj_on_of_nodup_map hid hp.mem hq.mem (hp.id.trans hq.id.symm)

/-- **The first critical section** acts on the own socket of the target, if its number denotes it. -/
theorem opened_sockets (hc : m.connOf p = some (m.hist p).sock) (written : Bool) :
    (m.opened p written).sends = m.sends ++ [⟨p, (m.node p).active, some (.conn (m.hist p).sock), disconnect⟩] ∧
    (m.opened p written).socks =
      Function.update m.socks (m.hist p).sock ((m.socks (m.hist p).sock).ended written) ∧
    (m.opened p written).files = Function.update m.files (m.node p).sockfd none ∧
    ((m.opened p written).hist p).closes = (m.hist p).closes ++ [some (.conn (m.hist p).sock)] := by
  have hfile : m.files (m.node p).sockfd = some (.conn (m.hist p).sock) := by
    unfold Mem.connOf at hc
    split at hc
    · rename_i c hf
      rw [hf, Option.some.inj hc]
    · cases hc
  refine ⟨?_, ?_, rfl, ?_⟩
  · rw [← hfile]
    rfl
  · -- the calls find the socket behind the number
    have hconn (m₁ : Mem) (hf : m₁.files = m.files) (hn : m₁.node = m.node) : m₁.connOf p = some (m.hist p).sock := by
      rw [← hc, Mem.connOf, Mem.connOf, hf, hn]
    have hshut (m₁ : Mem) (hf : m₁.files = m.files) (hn : m₁.node = m.node) : (m₁.apply .main (.shutdown p)).socks =
        Function.update m₁.socks (m.hist p).sock { m₁.socks (m.hist p).sock with shut := true } := by
      simp only [Mem.apply, hconn m₁ hf hn]
    have hlast : (m.opened p written).socks =
        ((((m.apply .main .lock).apply .main .skip).apply .main (.send p disconnect written)).apply .main (.shutdown p)).socks :=
      rfl
    rw [hlast, hshut (((m.apply .main .lock).apply .main .skip).apply .main (.send p disconnect written)) rfl rfl]
    cases written with
    | false =>
      have hsend : (((m.apply .main .lock).apply .main .skip).apply .main (.send p disconnect false)).socks = m.socks := by
        simp only [Mem.apply, hconn { m with connMutex := some .main } rfl rfl]
      rw [hsend]
      simp [Socket.ended]
    | true =>
      have hsend : (((m.apply .main .lock).apply .main .skip).apply .main (.send p disconnect true)).socks =
          Function.update m.socks (m.hist p).sock
            { m.socks (m.hist p).sock with outbox := (m.socks (m.hist p).sock).outbox ++ disconnect } := by
        simp only [Mem.apply, hconn { m with connMutex := some .main } rfl rfl]
      rw [hsend, Function.update_idem, Function.update_self]
      rfl
  · rw [← hfile]
    show (if some p = some p then _ else m.hist p).closes = _
    rw [if_pos rfl]
    rfl

theorem Removing.terminated (hth : (m.node p).thread = some p) (hc : m.connOf p = some (m.hist p).sock)
    (h : Removing m l id s p m' l' prev [.free p, .unlock]) : Terminated m p m' s := by
  obtain ⟨written, hops, hhand⟩ := h.hand
  have hrem := hhand.lists.remove (t := .main) h.hangs
  have hs : s.mem = (m'.perform .main [.unlink p prev, .free p]).apply .main .unlock := h.mem
  have hlisted : s.mem.listed = l'.erase p := by
    rw [hs]
    exact (hrem.same (same_unlock _ .main)).listed_eq
  -- what comes behind the window acts on no socket
  have hfree : m'.SameSockets p s.mem := by
    rw [hs]
    exact ⟨rfl, rfl, rfl, note_keep (g := Hist.closes) (f := fun k => { k with life := .released }) (fun _ => rfl) m' p p⟩
  have hk := hhand.sockets.trans hfree
  obtain ⟨hsends, hsocks, hfiles, hcloses⟩ := opened_sockets hc written
  exact
    { calls := ⟨written, prev, by rw [hops]; rfl⟩
      socket := ⟨written, by simp [hops, opening], by rw [hk.socks, hsocks, Function.update_self]⟩
      sent := by rw [hk.sends, hsends]
      closed := by rw [hk.closes, hcloses]
      sockets := fun c hne => by rw [hk.socks, hsocks, Function.update_of_ne hne]
      files := fun fd => by rw [hk.files, hfiles, Function.update_apply]
      gone := by
        refine ⟨hhand.lists.alive p hhand.mem, ?_, ?_⟩
        · rw [hs]
          show (Function.update m'.hist p _ p).life = _
          rw [Function.update_self]
        · rw [hlisted]
          exact hhand.lists.nodup.not_mem_erase
      ended := by
        rw [hs]
        exact h.joined hth
      rest := by rw [hlisted, hhand.lists.listed_eq]
      fields := fun q _ => by
        rw [hs]
        rfl
      unlocked := by
        rw [hs]
        rfl }

/-- The send of the call was on the file behind the number of the target. -/
theorem Removing.sends_eq (h : Removing m l id s p m' l' prev [.free p, .unlock]) :
    s.mem.sends = m.sends ++ [⟨p, (m.node p).active, m.files (m.node p).sockfd, disconnect⟩] := by
  obtain ⟨written, -, hhand⟩ := h.hand
  have hs : s.mem.sends = m'.sends := by
    rw [h.mem]
    rfl
  rw [hs, hhand.sockets.sends]
  rfl

/-- **`cmd_terminate`**: on a registry with distinct ids, whatever is inserted and marked in its
window, the call has no effect when no record has the id, and otherwise ends this record, its
socket and no other, if and only if the number of this record denotes its own socket. -/
theorem terminate_ends_iff (hl : m.Lists l) (hid : (l.map fun p => (m.node p).id).Nodup) (hfree : m.connMutex = none)
    (h : (terminating id m).Reachable s) (hret : s.pc = .ret) :
    s.Removes m l id ↔
      ∀ p ∈ l, (m.node p).id = id → (m.node p).thread = some p → m.connOf p = some (m.hist p).sock := by
  have hinv := inv_terminating hl h
  unfold Terminating.Inv at hinv
  rw [hret] at hinv
  rcases hinv with hno | ⟨p, m', l', prev, hrem⟩
  · refine iff_of_true ⟨fun _ => ⟨?_, by rw [hno.ops]; rfl⟩, ?_⟩ ?_
    · rw [hno.mem, hno.ops]
      show { m with connMutex := none } = m
      rw [← hfree]
    · intro p hp hpid _
      exact absurd hpid (hno.none p hp)
    · intro p hp hpid _
      exact absurd hpid (hno.none p hp)
  · constructor
    · rintro ⟨-, htarget⟩ q hq hqid hth
      obtain rfl := Target.eq hid hrem.target ⟨hq, hqid⟩
      obtain ⟨_, -, hterm⟩ := htarget p hq hqid hth
      -- the send would have been on the own socket
      have hsent := List.append_cancel_left (hrem.sends_eq.symm.trans hterm.sent)
      have hfile := (SendCall.mk.inj (List.cons.inj hsent).1).2.2.1
      rw [Mem.connOf, hfile]
    · intro hown
      refine ⟨fun hno => absurd hrem.target.id (hno p hrem.target.mem), ?_⟩
      intro q hq hqid hth
      obtain rfl := Target.eq hid hrem.target ⟨hq, hqid⟩
      exact ⟨m', hrem.relocked, hrem.terminated hth (hown p hq hqid hth)⟩

/-- Two connections, of ids 1 and 2. -/
def twoPeers : Mem := ((chat .demo).after Sync.Trans.Free (accepts 4 ++ listens 7 ++ accepts 5 ++ listens 7)).mem

/-- `terminate 1`, while a third connection is inserted and the thread of the first one ends. -/
def terminatesFirst : List TermLabel :=
  .replicate 8 (.go .ok) ++ [.meddle (.prepend 6 2 [] 0 true), .meddle (.mark 0)] ++ .replicate 6 (.go .ok)

/-- The first connection, at the end of the list, is removed, and the new one is left. -/
theorem terminate_ends_iff_first :
    ((terminating 1 twoPeers).after Sync.Trans.Free terminatesFirst).mem.listed = [2, 1] ∧
      ((terminating 1 twoPeers).after Sync.Trans.Free terminatesFirst).Removes twoPeers [1, 0] 1 := by
  refine ⟨by decide +kernel, ?_⟩
  have hend : twoPeers.next 0 = none := by decide +kernel
  have hl : twoPeers.Lists [1, 0] :=
    ⟨⟨by decide +kernel, by decide +kernel, hend⟩, by decide, by decide +kernel, by decide +kernel⟩
  have hret : ((terminating 1 twoPeers).after Sync.Trans.Free terminatesFirst).pc = .ret := by decide +kernel
  have hown : ∀ p ∈ [1, 0], twoPeers.connOf p = some (twoPeers.hist p).sock := by decide +kernel
  exact (terminate_ends_iff hl (by decide +kernel) (by decide +kernel) (Sync.Trans.reach_after terminatesFirst) hret).2
    fun p hp _ _ => hown p hp

/-- The main thread reads `connect 10.0.0.2 port` and gets descriptor `fd`; the connection is set up. -/
def connectsTo (port : ℕ) (fd : Fd) : List Label :=
  enters (.connect (dotted peerAddr) (decimal port)) ++ mains 3 ++ [.main (.fd fd), .main .ok] ++ mains 7

/-- `pthread_create` fails for a connection that `terminate 1` ends before it is taken back; the next
one gets the number 4, which the rollback then closes, and so a third one gets it too. -/
def sharedNumber : List Label :=
  accepts 4 ++ listens 5 ++ [.listener .fail] ++ enters (.terminate 1) ++ mains 14 ++ connectsTo 40000 4 ++
    listens 1 ++ connectsTo 40001 4

/-- `terminate 2`, while the thread of connection 2 ends. -/
def terminatesSecond : List TermLabel := .replicate 8 (.go .ok) ++ [.meddle (.mark 1)] ++ .replicate 6 (.go .ok)

/-- **A call that ends the wrong connection**: `terminate 2` notifies, shuts down and closes the socket
of connection 3. -/
theorem terminate_strikes : ¬ ∀ (E : Env) (σ : State) (id : BitVec 32) (s : Terminating), (chat E).Reachable σ →
    σ.mem.connMutex = none → (σ.mem.listed.map fun p => (σ.mem.node p).id).Nodup →
    (terminating id σ.mem).Reachable s → s.pc = .ret → s.Removes σ.mem σ.mem.listed id := by
  intro h
  have hremoves := h .demo _ 2 _ (Sync.Trans.reach_after sharedNumber) (by decide +kernel) (by decide +kernel)
    (Sync.Trans.reach_after terminatesSecond) (by decide +kernel)
  obtain ⟨_, -, hterm⟩ := hremoves.2 1 (by decide +kernel) (by decide +kernel) (by decide +kernel)
  exact absurd hterm.sent (by decide +kernel)

end Chat
