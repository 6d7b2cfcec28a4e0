import LinuxExercises.Proof.Disturb
import LinuxExercises.Proof.Sim

/-!
# A failed set-up leaves no trace

* `Kept`, `OpenSocket`, `Closed`: what the set-up leaves alone, and where its socket is.
* `SettingUp.Inv`: what is known at each point of the set-up; `inv_disturb`: an interference
  keeps it, `inv_attempt`: a step leads on to the next point.
* `setUp_fails`: **a set-up that fails, at whatever point, leaves the registry that the other
  threads alone would have made, and has closed the socket it opened once.**
-/

namespace Chat

open Sync (Chain Hangs)

variable {E : Env} {m : Mem} {s s' : SettingUp} {a : Disturb} {op : Op} {p : Ptr} {fd : Fd} {l : List Ptr}

/-! ## What is known at each point -/

/-- The list and its records are those that the other threads alone would have made, but for
the record of the set-up. -/
structure Kept (m : Mem) (s : SettingUp) : Prop where
  lists : s.mem.Lists s.mem.listed
  agrees : (s.alone m).Agrees s.own s.mem.registry
  born : ∀ p, s.own = some p → p < s.mem.allocs
  ids : s.mem.nextConnId =
    m.nextConnId + BitVec.ofNat 32 ((s.changes.filter Change.isInsert).length + s.own.elim 0 fun _ => 1)
  running : s.mem.running = m.running

/-- No socket yet. -/
structure NoSocket (m : Mem) (s : SettingUp) : Prop where
  opened : s.opened = []
  closed : s.closed = []
  files : s.mem.files = (s.alone m).files

/-- Its socket is open, by this number. -/
structure OpenSocket (m : Mem) (s : SettingUp) (fd : Fd) (c : Sock) : Prop where
  opened : s.opened = [(fd, c)]
  closed : s.closed = []
  spare : (s.alone m).files fd = none
  files : s.mem.files = Function.update (s.alone m).files fd (some (.conn c))

/-- What it has opened is closed. -/
structure Closed (m : Mem) (s : SettingUp) : Prop where
  opened : s.opened.length ≤ 1
  closed : s.closed = s.opened.map fun x => (x.1, some (.conn x.2))
  files : s.mem.files = (s.alone m).files

theorem NoSocket.done (h : NoSocket m s) : Closed m s :=
  ⟨by simp [h.opened], by simp [h.opened, h.closed], h.files⟩

/-- Its record is made and not listed. -/
def Unlisted (s : SettingUp) (p : Ptr) : Prop := s.own = some p ∧ p ∉ s.mem.listed

/-- Its record is listed. -/
def Listed (s : SettingUp) (p : Ptr) : Prop := s.own = some p ∧ p ∈ s.mem.listed

/-- Its record, if any, is released. -/
def Released (s : SettingUp) : Prop := ∀ p, s.own = some p → (s.mem.hist p).life = .released ∧ p ∉ s.mem.listed

/-- At this point the thread holds `conn_mutex`. -/
def SetupPc.locked : SetupPc → Bool
  | .link .. | .publish .. | .unlock .. | .rbFind _ | .rbUnlink .. | .rbFree _ | .rbUnlock => true
  | _ => false

def ConnectPc.locked : ConnectPc → Bool
  | .scan _ | .unlockDup _ | .unlock _ => true
  | .setup q => q.locked
  | _ => false

def AttemptPc.locked : AttemptPc → Bool
  | .connect q => q.locked
  | .listener (.setup q) => q.locked
  | _ => false

/-- What is known from `add_connection` on. -/
def SetupPc.Knows (m : Mem) (s : SettingUp) : SetupPc → Prop
  | .malloc fd c _ | .abort fd c => OpenSocket m s fd c ∧ s.own = none
  | .lock p fd | .link p fd => (∃ c, OpenSocket m s fd c) ∧ Unlisted s p
  | .publish p fd => (∃ c, OpenSocket m s fd c) ∧ Unlisted s p ∧ s.mem.next p = s.mem.connHead
  | .unlock p fd | .create p fd | .rbClose p fd => (∃ c, OpenSocket m s fd c) ∧ Listed s p
  | .rbLock p | .rbFind p => Closed m s ∧ Listed s p
  | .rbUnlink p prev => Closed m s ∧ Listed s p ∧ Hangs s.mem.next s.mem.connHead s.mem.listed p prev
  | .rbFree p => Closed m s ∧ Unlisted s p
  | .rbUnlock => Closed m s ∧ Released s
  | .log _ => True

def ConnectPc.Knows (m : Mem) (s : SettingUp) : ConnectPc → Prop
  | .connect _ fd c | .abort fd c => OpenSocket m s fd c ∧ s.own = none
  | .setup q => q.Knows m s
  | _ => NoSocket m s ∧ s.own = none

def ListenerPc.Knows (m : Mem) (s : SettingUp) : ListenerPc → Prop
  | .setup q => q.Knows m s
  | _ => NoSocket m s ∧ s.own = none

def AttemptPc.Knows (m : Mem) (s : SettingUp) : AttemptPc → Prop
  | .connect q => q.Knows m s
  | .listener q => q.Knows m s
  | .left false => Closed m s ∧ Released s
  | .left true => True

/-- **What is known at each point of the set-up.** -/
structure SettingUp.Inv (m : Mem) (s : SettingUp) : Prop where
  kept : Kept m s
  mutex : s.mem.connMutex = if s.pc.locked then some s.pc.tid else none
  knows : s.pc.Knows m s

/-! ## An interference -/

/-- The state after an interference. -/
def SettingUp.disturb (s : SettingUp) (a : Disturb) : SettingUp :=
  { s with mem := s.mem.disturb a, changes := s.changes ++ [a.change s.mem] }

theorem alone_disturb : (s.disturb a).alone m = (s.alone m).change (a.change s.mem) := by
  simp [SettingUp.alone, SettingUp.disturb]

/-- An admitted interference spares the record of the set-up. -/
theorem spares (hk : Kept m s) (ha : s.admits a) : (a.change s.mem).Spares s.own := by
  cases a with
  | insert fd c ip port started =>
    intro he
    exact lt_irrefl _ (hk.born _ he)
  | remove p => exact (of_decide_eq_true (Bool.and_eq_true_iff.1 ha).2).2
  | mark p => trivial
  | deactivate p => trivial
  | opens fd => trivial
  | closes fd => trivial

theorem disturbed_of (hk : Kept m s) (ha : s.admits a) : Disturbed s.mem a (s.disturb a).mem := by
  have ha := Bool.and_eq_true_iff.1 ha
  refine disturbed hk.lists (fun hlocks => by simpa [hlocks] using ha.1) ?_
  rintro p rfl
  simpa using (of_decide_eq_true ha.2).1

theorem Kept.disturb (hk : Kept m s) (ha : s.admits a) : Kept m (s.disturb a) := by
  have hd := disturbed_of hk ha
  have hlisted := hd.lists.listed_eq
  have hagrees := hk.agrees.change _ (spares hk ha)
  refine ⟨hlisted.symm ▸ hd.lists, ?_, fun p hp => (hk.born p hp).trans_le hd.allocs, ?_, hd.running.trans hk.running⟩
  · rw [alone_disturb]
    refine ⟨?_, fun p hp => ?_⟩
    · rw [hagrees.list]
      show _ = without s.own (s.disturb a).mem.listed
      rw [hlisted]
    · rw [← hagrees.node p hp]
      refine hd.node p ?_
      rw [hagrees.list] at hp
      exact without_subset hp
  · rw [hd.ids, hk.ids]
    show _ = _ + BitVec.ofNat 32 (((s.changes ++ [a.change s.mem]).filter Change.isInsert).length + _)
    rw [List.filter_append, List.length_append]
    cases hi : (a.change s.mem).isInsert with
    | true =>
      rw [List.filter_cons_of_pos hi, List.filter_nil, Nat.add_right_comm, if_pos rfl, BitVec.add_assoc]
      exact congrArg (m.nextConnId + ·) (BitVec.ofNat_add _ 1).symm
    | false =>
      rw [List.filter_cons_of_neg (by rw [hi]; exact Bool.false_ne_true), List.filter_nil]
      exact BitVec.add_zero _

theorem files_disturb (hk : Kept m s) (ha : s.admits a) (h : s.mem.files = (s.alone m).files) :
    (s.disturb a).mem.files = ((s.disturb a).alone m).files := by
  rw [(disturbed_of hk ha).files, alone_disturb]
  exact change_files _ h

theorem NoSocket.disturb (hk : Kept m s) (ha : s.admits a) (h : NoSocket m s) : NoSocket m (s.disturb a) :=
  ⟨h.opened, h.closed, files_disturb hk ha h.files⟩

theorem Closed.disturb (hk : Kept m s) (ha : s.admits a) (h : Closed m s) : Closed m (s.disturb a) :=
  ⟨h.opened, h.closed, files_disturb hk ha h.files⟩

/-- No other thread gets or closes the number of the open socket. -/
theorem OpenSocket.ne {c : Sock} {n : Fd} (h : OpenSocket m s fd c)
    (ha : s.admits (.opens n) ∨ s.admits (.closes n)) : fd ≠ n := by
  rintro rfl
  rcases ha with ha | ha
  · have hn : s.mem.files fd = none := of_decide_eq_true (Bool.and_eq_true_iff.1 ha).2
    rw [h.files, Function.update_self] at hn
    cases hn
  · have hn : fd ∉ s.descriptors := of_decide_eq_true (Bool.and_eq_true_iff.1 ha).2
    simp [SettingUp.descriptors, h.opened, h.closed] at hn

/-- **An open socket** keeps its number. -/
theorem OpenSocket.disturb {c : Sock} (hk : Kept m s) (ha : s.admits a) (h : OpenSocket m s fd c) :
    OpenSocket m (s.disturb a) fd c := by
  have hfiles := (disturbed_of hk ha).files
  refine ⟨h.opened, h.closed, ?_, ?_⟩ <;> rw [alone_disturb]
  · cases a with
    | opens n => exact (Function.update_of_ne (h.ne (.inl ha)) ..).trans h.spare
    | closes n => exact (Function.update_of_ne (h.ne (.inr ha)) ..).trans h.spare
    | _ => exact h.spare
  · rw [hfiles]
    cases a with
    | opens n =>
      show Function.update s.mem.files n _ = _
      rw [h.files]
      exact Function.update_comm (h.ne (.inl ha)) ..
    | closes n =>
      show Function.update s.mem.files n _ = _
      rw [h.files]
      exact Function.update_comm (h.ne (.inr ha)) ..
    | _ => exact h.files

/-- The record of the set-up stays in the list, or out of it. -/
theorem own_disturb (hk : Kept m s) (ha : s.admits a) (hp : s.own = some p) :
    p ∈ (s.disturb a).mem.listed ↔ p ∈ s.mem.listed := by
  rw [(disturbed_of hk ha).lists.listed_eq]
  exact mem_change _ (hp ▸ spares hk ha)

theorem Unlisted.disturb (hk : Kept m s) (ha : s.admits a) (h : Unlisted s p) : Unlisted (s.disturb a) p :=
  ⟨h.1, mt (own_disturb hk ha h.1).1 h.2⟩

theorem Listed.disturb (hk : Kept m s) (ha : s.admits a) (h : Listed s p) : Listed (s.disturb a) p :=
  ⟨h.1, (own_disturb hk ha h.1).2 h.2⟩

theorem Released.disturb (hk : Kept m s) (ha : s.admits a) (h : Released s) : Released (s.disturb a) := by
  intro p hp
  obtain ⟨hlife, hout⟩ := h p hp
  have hne : a ≠ .remove p := by
    rintro rfl
    exact (of_decide_eq_true (Bool.and_eq_true_iff.1 ha).2).2 hp
  exact ⟨by rw [(disturbed_of hk ha).life p (hk.born p hp) hne, hlife], mt (own_disturb hk ha hp).1 hout⟩

/-- Without the mutex the links stay. -/
theorem links_disturb (h : a.locks = false) :
    (s.disturb a).mem.next = s.mem.next ∧ (s.disturb a).mem.connHead = s.mem.connHead ∧
      (s.disturb a).mem.listed = s.mem.listed := by
  cases a with
  | opens n => exact ⟨rfl, rfl, rfl⟩
  | closes n => exact ⟨rfl, rfl, rfl⟩
  | _ => simp [Disturb.locks] at h

/-- **An interference** keeps what is known from `add_connection` on. -/
theorem SetupPc.Knows.disturb {q : SetupPc} (hk : Kept m s) (ha : s.admits a) (hq : q.locked → a.locks = false)
    (h : q.Knows m s) : q.Knows m (s.disturb a) := by
  cases q with
  | malloc fd c x => exact ⟨h.1.disturb hk ha, h.2⟩
  | abort fd c => exact ⟨h.1.disturb hk ha, h.2⟩
  | lock p fd => exact ⟨h.1.imp fun c hc => hc.disturb hk ha, h.2.disturb hk ha⟩
  | link p fd => exact ⟨h.1.imp fun c hc => hc.disturb hk ha, h.2.disturb hk ha⟩
  | publish p fd =>
    obtain ⟨hnext, hhead, -⟩ := links_disturb (s := s) (hq rfl)
    refine ⟨h.1.imp fun c hc => hc.disturb hk ha, h.2.1.disturb hk ha, ?_⟩
    rw [hnext, hhead]
    exact h.2.2
  | unlock p fd => exact ⟨h.1.imp fun c hc => hc.disturb hk ha, h.2.disturb hk ha⟩
  | create p fd => exact ⟨h.1.imp fun c hc => hc.disturb hk ha, h.2.disturb hk ha⟩
  | rbClose p fd => exact ⟨h.1.imp fun c hc => hc.disturb hk ha, h.2.disturb hk ha⟩
  | rbLock p => exact ⟨h.1.disturb hk ha, h.2.disturb hk ha⟩
  | rbFind p => exact ⟨h.1.disturb hk ha, h.2.disturb hk ha⟩
  | rbUnlink p prev =>
    obtain ⟨hnext, hhead, hlisted⟩ := links_disturb (s := s) (hq rfl)
    refine ⟨h.1.disturb hk ha, h.2.1.disturb hk ha, ?_⟩
    rw [hnext, hhead, hlisted]
    exact h.2.2
  | rbFree p => exact ⟨h.1.disturb hk ha, h.2.disturb hk ha⟩
  | rbUnlock => exact ⟨h.1.disturb hk ha, h.2.disturb hk ha⟩
  | log p => trivial

theorem ConnectPc.Knows.disturb {q : ConnectPc} (hk : Kept m s) (ha : s.admits a) (hq : q.locked → a.locks = false)
    (h : q.Knows m s) : q.Knows m (s.disturb a) := by
  cases q with
  | setup q => exact SetupPc.Knows.disturb hk ha hq h
  | _ => exact ⟨h.1.disturb hk ha, h.2⟩

theorem AttemptPc.Knows.disturb {q : AttemptPc} (hk : Kept m s) (ha : s.admits a) (hq : q.locked → a.locks = false)
    (h : q.Knows m s) : q.Knows m (s.disturb a) := by
  cases q with
  | connect q => exact ConnectPc.Knows.disturb hk ha hq h
  | listener q =>
    cases q with
    | setup q => exact SetupPc.Knows.disturb hk ha hq h
    | _ => exact ⟨h.1.disturb hk ha, h.2⟩
  | left success =>
    cases success with
    | true => trivial
    | false => exact ⟨h.1.disturb hk ha, h.2.disturb hk ha⟩

/-- **An interference** keeps what is known. -/
theorem inv_disturb (h : s.Inv m) (ha : s.admits a) : (s.disturb a).Inv m := by
  refine ⟨h.kept.disturb ha, (disturbed_of h.kept ha).mutex.trans h.mutex, h.knows.disturb h.kept ha fun hq => ?_⟩
  -- the mutex is held, so the interference does without it
  have hm := h.mutex
  rw [if_pos (show s.pc.locked = true from hq)] at hm
  have hfree := (Bool.and_eq_true_iff.1 ha).1
  rw [hm] at hfree
  simpa using hfree

/-! ## A step of the set-up -/

/-- An operation that keeps the rest of the list. -/
theorem Kept.next {pc : AttemptPc} (h : Kept m s) (lists : (s.did op pc).mem.Lists l)
    (list : without (s.did op pc).own l = without s.own s.mem.listed)
    (node : ∀ q ∈ without s.own s.mem.listed, (s.did op pc).mem.node q = s.mem.node q)
    (born : ∀ p, (s.did op pc).own = some p → p < (s.did op pc).mem.allocs)
    (ids : (s.did op pc).mem.nextConnId =
      m.nextConnId + BitVec.ofNat 32 ((s.changes.filter Change.isInsert).length + (s.did op pc).own.elim 0 fun _ => 1))
    (running : (s.did op pc).mem.running = s.mem.running) : Kept m (s.did op pc) where
  lists := lists.listed_eq.symm ▸ lists
  agrees := by
    refine ⟨?_, fun q hq => ?_⟩
    · show (s.alone m).list = without _ (s.did op pc).mem.listed
      rw [lists.listed_eq, list]
      exact h.agrees.list
    · show (s.did op pc).mem.node q = (s.alone m).node q
      rw [← h.agrees.node q hq]
      exact node q (h.agrees.list ▸ hq)
  born := born
  ids := ids
  running := running.trans h.running

/-- An operation that leaves the list, the records and their number. -/
theorem Kept.quiet {pc : AttemptPc} (h : Kept m s) (hs : s.mem.Same (s.did op pc).mem)
    (own : (s.did op pc).own = s.own) (ids : (s.did op pc).mem.nextConnId = s.mem.nextConnId)
    (running : (s.did op pc).mem.running = s.mem.running) : Kept m (s.did op pc) := by
  refine h.next (h.lists.same hs) (by rw [own]) (fun q _ => by rw [hs.node]) ?_ (by rw [ids, own, h.ids]) running
  rw [own, hs.allocs]
  exact h.born

theorem Kept.lock (h : Kept m s) (pc : AttemptPc) : Kept m (s.did .lock pc) :=
  h.quiet (same_lock s.mem s.pc.tid) rfl rfl rfl

theorem Kept.unlock (h : Kept m s) (pc : AttemptPc) : Kept m (s.did .unlock pc) :=
  h.quiet (same_unlock s.mem s.pc.tid) rfl rfl rfl

theorem Kept.skip (h : Kept m s) (pc : AttemptPc) : Kept m (s.did .skip pc) :=
  h.quiet ⟨rfl, rfl, rfl, rfl, fun _ => rfl, rfl⟩ rfl rfl rfl

theorem Kept.openConn (h : Kept m s) (fd : Fd) (pc : AttemptPc) : Kept m (s.did (.openConn fd) pc) :=
  h.quiet ⟨rfl, rfl, rfl, rfl, fun _ => rfl, rfl⟩ rfl rfl rfl

theorem Kept.close (h : Kept m s) (fd : Fd) (q : Option Ptr) (pc : AttemptPc) : Kept m (s.did (.close fd q) pc) :=
  h.quiet (same_close s.mem s.pc.tid fd q) rfl rfl rfl

theorem Kept.createFail (h : Kept m s) (p : Ptr) (pc : AttemptPc) : Kept m (s.did (.createFail p) pc) :=
  h.quiet (same_createFail s.mem s.pc.tid p) rfl rfl rfl

/-- **A new record**, which is not listed yet. -/
theorem Kept.alloc (h : Kept m s) (hown : s.own = none) (fd : Fd) (c : Sock) (ip : Bytes) (port : ℕ) (pc : AttemptPc) :
    Kept m (s.did (.alloc fd c ip port) pc) ∧ Unlisted (s.did (.alloc fd c ip port) pc) s.mem.allocs := by
  have hnew : s.mem.allocs ∉ s.mem.listed := fun hm => lt_irrefl _ (h.lists.born _ hm)
  have hlists : (s.did (.alloc fd c ip port) pc).mem.Lists s.mem.listed := by
    refine ⟨h.lists.chain, h.lists.nodup, fun q hq => (h.lists.born q hq).trans (Nat.lt_succ_self _), fun q hq => ?_⟩
    show (Function.update s.mem.hist s.mem.allocs _ q).life = _
    rw [Function.update_of_ne (h.lists.born q hq).ne]
    exact h.lists.alive q hq
  refine ⟨h.next hlists ?_ ?_ ?_ ?_ rfl, rfl, ?_⟩
  · rw [hown]
    exact List.erase_of_not_mem hnew
  · intro q hq
    have hq : q ∈ s.mem.listed := without_subset hq
    exact Function.update_of_ne (h.lists.born q hq).ne ..
  · rintro p hp
    obtain rfl := Option.some.inj hp
    exact Nat.lt_succ_self _
  · show s.mem.nextConnId + 1 = _
    rw [h.ids, hown, BitVec.add_assoc]
    exact congrArg (m.nextConnId + ·) (BitVec.ofNat_add _ 1).symm
  · rw [hlists.listed_eq]
    exact hnew

/-- `p->next = conn_head` on the unlisted record. -/
theorem Kept.link (h : Kept m s) (hp : Unlisted s p) (pc : AttemptPc) :
    Kept m (s.did (.link p) pc) ∧ Unlisted (s.did (.link p) pc) p ∧
      (s.did (.link p) pc).mem.next p = (s.did (.link p) pc).mem.connHead := by
  have hlists : (s.did (.link p) pc).mem.Lists s.mem.listed :=
    ⟨h.lists.chain.write hp.2, h.lists.nodup, h.lists.born, h.lists.alive⟩
  refine ⟨h.next hlists rfl (fun _ _ => rfl) h.born h.ids rfl, ⟨hp.1, ?_⟩, Function.update_self ..⟩
  rw [hlists.listed_eq]
  exact hp.2

/-- `conn_head = p`. -/
theorem Kept.publish (h : Kept m s) (hp : Unlisted s p) (hnext : s.mem.next p = s.mem.connHead) (pc : AttemptPc) :
    Kept m (s.did (.publish p) pc) ∧ Listed (s.did (.publish p) pc) p := by
  have hlists : (s.did (.publish p) pc).mem.Lists (p :: s.mem.listed) := by
    refine ⟨h.lists.chain.push hnext, List.nodup_cons.2 ⟨hp.2, h.lists.nodup⟩, ?_, ?_⟩
    · intro q hq
      rcases List.mem_cons.1 hq with rfl | hq
      · exact h.born q hp.1
      · exact h.lists.born q hq
    · intro q hq
      show (Function.update s.mem.hist p _ q).life = _
      by_cases hqp : q = p
      · subst hqp
        rw [Function.update_self]
      · rw [Function.update_of_ne hqp]
        exact h.lists.alive q ((List.mem_cons.1 hq).resolve_left hqp)
  refine ⟨h.next hlists ?_ (fun _ _ => rfl) h.born h.ids rfl, hp.1, ?_⟩
  · show without s.own (p :: s.mem.listed) = without s.own s.mem.listed
    rw [hp.1]
    exact (List.erase_cons_head ..).trans (List.erase_of_not_mem hp.2).symm
  · rw [hlists.listed_eq]
    exact List.mem_cons_self

theorem Kept.create (h : Kept m s) (hp : Listed s p) (pc : AttemptPc) : Kept m (s.did (.create p) pc) := by
  have hlists : (s.did (.create p) pc).mem.Lists s.mem.listed :=
    ⟨h.lists.chain, h.lists.nodup, h.lists.born, h.lists.alive⟩
  refine h.next hlists rfl (fun q hq => ?_) h.born h.ids rfl
  have hne : q ≠ p := by
    rintro rfl
    exact not_mem_without h.lists.nodup hq hp.1
  exact Function.update_of_ne hne ..

/-- **The rollback unlinks the record**, wherever it hangs by then. -/
theorem Kept.unlink {prev : Option Ptr} (h : Kept m s) (hp : Listed s p)
    (hh : Hangs s.mem.next s.mem.connHead s.mem.listed p prev) (pc : AttemptPc) :
    Kept m (s.did (.unlink p prev) pc) ∧ Unlisted (s.did (.unlink p prev) pc) p := by
  -- records may have been inserted in front of it and removed around it since
  have hlists : (s.did (.unlink p prev) pc).mem.Lists (s.mem.listed.erase p) :=
    ⟨h.lists.chain.unlink h.lists.nodup hh, h.lists.nodup.erase p,
      fun q hq => h.lists.born q (List.mem_of_mem_erase hq), fun q hq => h.lists.alive q (List.mem_of_mem_erase hq)⟩
  refine ⟨h.next hlists ?_ (fun _ _ => rfl) h.born h.ids rfl, hp.1, ?_⟩
  · show without s.own (s.mem.listed.erase p) = without s.own s.mem.listed
    rw [hp.1]
    exact List.erase_of_not_mem h.lists.nodup.not_mem_erase
  · rw [hlists.listed_eq]
    exact h.lists.nodup.not_mem_erase

theorem Kept.free (h : Kept m s) (hp : Unlisted s p) (pc : AttemptPc) :
    Kept m (s.did (.free p) pc) ∧ Released (s.did (.free p) pc) := by
  have hlists : (s.did (.free p) pc).mem.Lists s.mem.listed := by
    refine ⟨h.lists.chain, h.lists.nodup, h.lists.born, fun q hq => ?_⟩
    have hne : q ≠ p := by
      rintro rfl
      exact hp.2 hq
    show (Function.update s.mem.hist p _ q).life = _
    rw [Function.update_of_ne hne]
    exact h.lists.alive q hq
  refine ⟨h.next hlists rfl (fun _ _ => rfl) h.born h.ids rfl, fun q hq => ?_⟩
  obtain rfl := Option.some.inj (hp.1.symm.trans hq)
  refine ⟨?_, by rw [hlists.listed_eq]; exact hp.2⟩
  show (Function.update s.mem.hist p _ p).life = _
  rw [Function.update_self]

/-! ### The socket -/

theorem alone_congr (changes : s'.changes = s.changes) : s'.alone m = s.alone m := by
  unfold SettingUp.alone
  rw [changes]

theorem OpenSocket.next {c : Sock} (h : OpenSocket m s fd c) (opened : s'.opened = s.opened) (closed : s'.closed = s.closed)
    (changes : s'.changes = s.changes) (files : s'.mem.files = s.mem.files) : OpenSocket m s' fd c := by
  have halone := alone_congr (m := m) changes
  exact ⟨opened.trans h.opened, closed.trans h.closed, halone ▸ h.spare, by rw [files, halone]; exact h.files⟩

theorem Closed.next (h : Closed m s) (opened : s'.opened = s.opened) (closed : s'.closed = s.closed)
    (changes : s'.changes = s.changes) (files : s'.mem.files = s.mem.files) : Closed m s' := by
  have halone := alone_congr (m := m) changes
  exact ⟨opened ▸ h.opened, by rw [closed, opened]; exact h.closed, by rw [files, halone]; exact h.files⟩

theorem NoSocket.next (h : NoSocket m s) (opened : s'.opened = s.opened) (closed : s'.closed = s.closed)
    (changes : s'.changes = s.changes) (files : s'.mem.files = s.mem.files) : NoSocket m s' := by
  have halone := alone_congr (m := m) changes
  exact ⟨opened.trans h.opened, closed.trans h.closed, by rw [files, halone]; exact h.files⟩

/-- `socket()` or `accept()` gives a number that was free. -/
theorem NoSocket.openConn (h : NoSocket m s) (hfd : s.mem.files fd = none) (pc : AttemptPc) :
    OpenSocket m (s.did (.openConn fd) pc) fd s.mem.opens where
  opened := congrArg (· ++ [(fd, s.mem.opens)]) h.opened
  closed := h.closed
  spare := by rw [h.files] at hfd; exact hfd
  files := by
    show Function.update s.mem.files fd _ = Function.update (s.alone m).files fd _
    rw [h.files]

/-- **The close** hits the socket that was opened. -/
theorem OpenSocket.close {c : Sock} (h : OpenSocket m s fd c) (q : Option Ptr) (pc : AttemptPc) :
    Closed m (s.did (.close fd q) pc) where
  opened := by
    show s.opened.length ≤ 1
    rw [h.opened]
    exact le_rfl
  closed := by
    show s.closed ++ [(fd, s.mem.files fd)] = s.opened.map _
    rw [h.closed, h.opened, h.files, Function.update_self]
    rfl
  files := by
    show Function.update s.mem.files fd none = (s.alone m).files
    rw [h.files, Function.update_idem]
    exact Function.update_eq_self_iff.2 h.spare.symm

/-! ### The points -/

/-- The mutex, where a step of the set-up leads. -/
def Flow.locked : Flow SetupPc → Bool
  | .goto q => q.locked
  | _ => false

/-- What is known where a step leads; `ok`: it was the last one of a success. -/
def Flow.Knows (m : Mem) (s : SettingUp) (ok : Bool) : Flow SetupPc → Prop
  | .goto q => q.Knows m s
  | .ret => ok ∨ Closed m s ∧ Released s
  | .killed => False

theorem released_none (h : s.own = none) : Released s := by
  intro p hp
  rw [h] at hp
  cases hp

/-- The set-up is left with a success, or without a trace. -/
theorem Flow.Knows.left {ok : Bool} (h : Flow.Knows m s ok .ret) : AttemptPc.Knows m s (.left ok) := by
  cases ok with
  | true => trivial
  | false => exact h.resolve_left Bool.false_ne_true

/-- What a step of the set-up establishes. -/
structure Stepped (m : Mem) (s : SettingUp) (op : Op) (pc : AttemptPc) (f : Flow SetupPc) (ok : Bool) : Prop where
  kept : Kept m (s.did op pc)
  mutex : (s.did op pc).mem.connMutex = if f.locked then some s.pc.tid else none
  knows : f.Knows m (s.did op pc) ok

/-- **A step from `add_connection` on.** -/
theorem setup_stepped {q : SetupPc} {f : Flow SetupPc} {ch : Choice} (pc : AttemptPc) (h : Kept m s)
    (hm : s.mem.connMutex = if q.locked then some s.pc.tid else none) (hq : q.Knows m s)
    (hs : setupStep E s.mem ch q = some (op, f)) : Stepped m s op pc f q.succeeds := by
  cases q with
  | malloc fd c x =>
    obtain ⟨hsock, hown⟩ := hq
    cases ch with
    | ok =>
      obtain ⟨rfl, rfl⟩ := Prod.mk.inj (Option.some.inj hs)
      obtain ⟨hk, hu⟩ := h.alloc hown fd c (E.inetNtop x.addr) x.port pc
      exact ⟨hk, hm, ⟨c, hsock.next rfl rfl rfl rfl⟩, hu⟩
    | fail =>
      obtain ⟨rfl, rfl⟩ := Prod.mk.inj (Option.some.inj hs)
      exact ⟨h.skip pc, hm, hsock.next rfl rfl rfl rfl, hown⟩
    | _ => cases hs
  | abort fd c =>
    obtain ⟨rfl, rfl⟩ := Prod.mk.inj (Option.some.inj hs)
    exact ⟨h.close fd none pc, hm, .inr ⟨hq.1.close none pc, released_none hq.2⟩⟩
  | lock p fd =>
    obtain ⟨-, rfl, rfl⟩ := lock_eq hs
    exact ⟨h.lock pc, rfl, hq.1.imp fun c hc => hc.next rfl rfl rfl rfl, hq.2⟩
  | link p fd =>
    obtain ⟨rfl, rfl⟩ := Prod.mk.inj (Option.some.inj hs)
    obtain ⟨hk, hu, hnext⟩ := h.link hq.2 pc
    exact ⟨hk, hm, hq.1.imp fun c hc => hc.next rfl rfl rfl rfl, hu, hnext⟩
  | publish p fd =>
    obtain ⟨rfl, rfl⟩ := Prod.mk.inj (Option.some.inj hs)
    obtain ⟨hk, hl⟩ := h.publish hq.2.1 hq.2.2 pc
    exact ⟨hk, hm, hq.1.imp fun c hc => hc.next rfl rfl rfl rfl, hl⟩
  | unlock p fd =>
    obtain ⟨rfl, rfl⟩ := Prod.mk.inj (Option.some.inj hs)
    exact ⟨h.unlock pc, rfl, hq.1.imp fun c hc => hc.next rfl rfl rfl rfl, hq.2⟩
  | create p fd =>
    cases ch with
    | ok =>
      obtain ⟨rfl, rfl⟩ := Prod.mk.inj (Option.some.inj hs)
      exact ⟨h.create hq.2 pc, hm, trivial⟩
    | fail =>
      obtain ⟨rfl, rfl⟩ := Prod.mk.inj (Option.some.inj hs)
      exact ⟨h.createFail p pc, hm, hq.1.imp fun c hc => hc.next rfl rfl rfl rfl, hq.2⟩
    | _ => cases hs
  | rbClose p fd =>
    -- the number still denotes the socket that was opened
    obtain ⟨rfl, rfl⟩ := Prod.mk.inj (Option.some.inj hs)
    obtain ⟨⟨c, hc⟩, hl⟩ := hq
    exact ⟨h.close fd (some p) pc, hm, hc.close (some p) pc, hl⟩
  | rbLock p =>
    obtain ⟨-, rfl, rfl⟩ := lock_eq hs
    exact ⟨h.lock pc, rfl, hq.1.next rfl rfl rfl rfl, hq.2⟩
  | rbFind p =>
    simp only [setupStep] at hs
    split at hs
    · rename_i prev hprev
      obtain ⟨rfl, rfl⟩ := Prod.mk.inj (Option.some.inj hs)
      exact ⟨h.skip pc, hm, hq.1.next rfl rfl rfl rfl, hq.2, Sync.findLink_hangs hprev⟩
    · -- the record is still listed
      rename_i hnone
      exact absurd hq.2.2 (Sync.findLink_none h.lists.chain hnone)
  | rbUnlink p prev =>
    obtain ⟨rfl, rfl⟩ := Prod.mk.inj (Option.some.inj hs)
    obtain ⟨hk, hu⟩ := h.unlink hq.2.1 hq.2.2 pc
    exact ⟨hk, hm, hq.1.next rfl rfl rfl rfl, hu⟩
  | rbFree p =>
    obtain ⟨rfl, rfl⟩ := Prod.mk.inj (Option.some.inj hs)
    obtain ⟨hk, hr⟩ := h.free hq.2 pc
    exact ⟨hk, hm, hq.1.next rfl rfl rfl rfl, hr⟩
  | rbUnlock =>
    obtain ⟨rfl, rfl⟩ := Prod.mk.inj (Option.some.inj hs)
    exact ⟨h.unlock pc, rfl, .inr ⟨hq.1.next rfl rfl rfl rfl, hq.2⟩⟩
  | log p =>
    obtain ⟨rfl, rfl⟩ := Prod.mk.inj (Option.some.inj hs)
    exact ⟨h.skip pc, hm, .inl rfl⟩

/-- **A step from `add_connection` on**, of either thread: `place` is where it is in its code. -/
theorem inv_setup {q : SetupPc} {f : Flow SetupPc} {ch : Choice} (place : SetupPc → AttemptPc) (hpc : s.pc = place q)
    (hlocked : ∀ q, (place q).locked = q.locked) (htid : ∀ q, (place q).tid = s.pc.tid)
    (hknows : ∀ q s, (place q).Knows m s = q.Knows m s) (h : s.Inv m) (hs : setupStep E s.mem ch q = some (op, f)) :
    (s.did op (f.lift place (.left q.succeeds) (.left false))).Inv m := by
  obtain ⟨hk, hm, hq⟩ := h
  rw [hpc, hlocked, ← hpc] at hm
  rw [hpc, hknows] at hq
  obtain ⟨hkept, hmutex, hto⟩ := setup_stepped (f.lift place (.left q.succeeds) (.left false)) hk hm hq hs
  cases f with
  | goto q' =>
    refine ⟨hkept, ?_, ?_⟩
    · show _ = if (place q').locked then some (place q').tid else none
      rw [hlocked, htid]
      exact hmutex
    · show (place q').Knows m _
      rw [hknows]
      exact hto
  | ret => exact ⟨hkept, hmutex, hto.left⟩
  | killed => exact hto.elim

/-- **A step of `cmd_connect`.** -/
theorem inv_connect {q : ConnectPc} {ch : Choice} {f : Flow ConnectPc} (hpc : s.pc = .connect q) (h : s.Inv m)
    (hs : cmdConnect E s.mem ch q = some (op, f)) :
    (s.did op (f.lift .connect (.left q.succeeds) (.left false))).Inv m := by
  have ⟨hk, hm, hq⟩ := h
  rw [hpc] at hm hq
  cases q with
  | lock d =>
    obtain ⟨-, rfl, rfl⟩ := lock_eq hs
    refine ⟨hk.lock _, ?_, hq.1.next rfl rfl rfl rfl, hq.2⟩
    show some s.pc.tid = some Tid.main
    rw [hpc]
    rfl
  | scan d =>
    simp only [cmdConnect] at hs
    split at hs <;> obtain ⟨rfl, rfl⟩ := Prod.mk.inj (Option.some.inj hs) <;>
      exact ⟨hk.skip _, hm, hq.1.next rfl rfl rfl rfl, hq.2⟩
  | unlockDup p =>
    obtain ⟨rfl, rfl⟩ := Prod.mk.inj (Option.some.inj hs)
    exact ⟨hk.unlock _, rfl, hq.1.next rfl rfl rfl rfl, hq.2⟩
  | logDup p =>
    -- refused as a duplicate: nothing was opened
    obtain ⟨rfl, rfl⟩ := Prod.mk.inj (Option.some.inj hs)
    exact ⟨hk.skip _, hm, hq.1.done.next rfl rfl rfl rfl, released_none hq.2⟩
  | unlock d =>
    obtain ⟨rfl, rfl⟩ := Prod.mk.inj (Option.some.inj hs)
    exact ⟨hk.unlock _, rfl, hq.1.next rfl rfl rfl rfl, hq.2⟩
  | socket d =>
    cases ch with
    | fd n =>
      simp only [cmdConnect] at hs
      split at hs
      · rename_i hn
        obtain ⟨rfl, rfl⟩ := Prod.mk.inj (Option.some.inj hs)
        exact ⟨hk.openConn n _, hm, hq.1.openConn hn _, hq.2⟩
      · cases hs
    | fail =>
      obtain ⟨rfl, rfl⟩ := Prod.mk.inj (Option.some.inj hs)
      exact ⟨hk.skip _, hm, hq.1.done.next rfl rfl rfl rfl, released_none hq.2⟩
    | _ => cases hs
  | connect d fd c =>
    -- the socket is open, whether `connect()` succeeds or not
    simp only [cmdConnect] at hs
    split at hs
    · obtain ⟨rfl, rfl⟩ := Prod.mk.inj (Option.some.inj hs)
      exact ⟨hk.skip _, hm, hq.1.next rfl rfl rfl rfl, hq.2⟩
    · obtain ⟨rfl, rfl⟩ := Prod.mk.inj (Option.some.inj hs)
      exact ⟨hk.skip _, hm, hq.1.next rfl rfl rfl rfl, hq.2⟩
    · obtain ⟨rfl, rfl⟩ := Prod.mk.inj (Option.some.inj hs)
      exact ⟨hk.skip _, hm, hq.1.next rfl rfl rfl rfl, hq.2⟩
    · cases hs
  | abort fd c =>
    obtain ⟨rfl, rfl⟩ := Prod.mk.inj (Option.some.inj hs)
    exact ⟨hk.close fd none _, hm, hq.1.close none _, released_none hq.2⟩
  | setup q =>
    obtain ⟨⟨op', g⟩, hg, he⟩ := Option.map_eq_some_iff.1 hs
    obtain ⟨rfl, rfl⟩ := Prod.mk.inj he
    have hinv := inv_setup (.connect ∘ .setup) hpc (fun _ => rfl) (fun _ => by rw [hpc]; rfl) (fun _ _ => rfl) h hg
    cases g <;> exact hinv

/-- Where the listener's iteration goes on. -/
def listenerNext (q q' : ListenerPc) : AttemptPc :=
  if q' = .check ∨ q' = .finished then .left q.succeeds else .listener q'

/-- **A step of the listener's iteration.** -/
theorem inv_listener {q q' : ListenerPc} {ch : Choice} (hpc : s.pc = .listener q) (h : s.Inv m)
    (hs : listenerThread E s.mem ch q = some (op, q')) : (s.did op (listenerNext q q')).Inv m := by
  have ⟨hk, hm, hq⟩ := h
  rw [hpc] at hm hq
  cases q with
  | check =>
    obtain ⟨rfl, rfl⟩ := Prod.mk.inj (Option.some.inj hs)
    cases s.mem.running with
    | true => exact ⟨hk.skip _, hm, hq.1.next rfl rfl rfl rfl, hq.2⟩
    | false => exact ⟨hk.skip _, hm, hq.1.done.next rfl rfl rfl rfl, released_none hq.2⟩
  | accept =>
    cases ch with
    | peer n x =>
      simp only [listenerThread] at hs
      split at hs
      · rename_i hn
        obtain ⟨rfl, rfl⟩ := Prod.mk.inj (Option.some.inj hs)
        exact ⟨hk.openConn n _, hm, hq.1.openConn hn _, hq.2⟩
      · cases hs
    | fail =>
      obtain ⟨rfl, rfl⟩ := Prod.mk.inj (Option.some.inj hs)
      exact ⟨hk.skip _, hm, hq.1.next rfl rfl rfl rfl, hq.2⟩
    | _ => cases hs
  | failed =>
    obtain ⟨rfl, rfl⟩ := Prod.mk.inj (Option.some.inj hs)
    -- the loop condition ends the iteration either way
    cases s.mem.running with
    | true => exact ⟨hk.skip _, hm, hq.1.done.next rfl rfl rfl rfl, released_none hq.2⟩
    | false => exact ⟨hk.skip _, hm, hq.1.done.next rfl rfl rfl rfl, released_none hq.2⟩
  | setup q =>
    obtain ⟨⟨op', g⟩, hg, he⟩ := Option.map_eq_some_iff.1 hs
    obtain ⟨rfl, rfl⟩ := Prod.mk.inj he
    have hinv := inv_setup (.listener ∘ .setup) hpc (fun _ => rfl) (fun _ => by rw [hpc]; rfl) (fun _ _ => rfl) h hg
    cases g with
    | goto q' => exact hinv
    | ret => exact hinv
    | killed => exact absurd rfl (setup_move hg).2
  | finished => cases hs

theorem inv_attempt {ch : Choice} (h : s.Inv m) (hs : s.step E (.go ch) = some s') : s'.Inv m := by
  obtain ⟨⟨op, pc⟩, hstep, rfl⟩ := Option.map_eq_some_iff.1 hs
  cases hpc : s.pc with
  | connect q =>
    rw [hpc] at hstep
    obtain ⟨⟨op', f⟩, hf, he⟩ := Option.map_eq_some_iff.1 hstep
    obtain ⟨rfl, rfl⟩ := Prod.mk.inj he
    exact inv_connect hpc h hf
  | listener q =>
    rw [hpc] at hstep
    obtain ⟨⟨op', q'⟩, hf, he⟩ := Option.map_eq_some_iff.1 hstep
    obtain ⟨rfl, rfl⟩ := Prod.mk.inj he
    exact inv_listener hpc h hf
  | left success =>
    rw [hpc] at hstep
    cases hstep

/-! ## The end -/

theorem inv_start (hl : m.Lists m.listed) (hfree : m.connMutex = none) (E : Env) (x : Attempt) :
    (settingUp E x m).init.Inv m := by
  have hkept : ∀ pc, Kept m ⟨m, pc, none, [], [], []⟩ := fun pc =>
    ⟨hl, ⟨rfl, fun _ _ => rfl⟩, fun p hp => by simp at hp, (BitVec.add_zero _).symm, rfl⟩
  have hnone : ∀ pc, NoSocket m ⟨m, pc, none, [], [], []⟩ := fun pc => ⟨rfl, rfl, rfl⟩
  cases x with
  | connect ip port =>
    simp only [settingUp, Attempt.start]
    split
    · exact ⟨hkept _, hfree, hnone _, rfl⟩
    · exact ⟨hkept _, hfree, (hnone _).done, released_none rfl⟩
  | accept => exact ⟨hkept _, hfree, hnone _, rfl⟩

theorem inv_settingUp (hl : m.Lists m.listed) (hfree : m.connMutex = none) {x : Attempt}
    (h : (settingUp E x m).Reachable s) : s.Inv m := by
  refine h.inv (I := fun s => s.Inv m) (inv_start hl hfree E x) ?_
  intro s lab s' _ hi _ hs
  cases lab with
  | go ch => exact inv_attempt hi hs
  | disturb a =>
    obtain ⟨ha, he⟩ := Option.ite_none_right_eq_some.1 hs
    obtain rfl := Option.some.inj he
    exact inv_disturb hi ha

/-- **A failed set-up leaves no trace**: on every registry, for every command and every
iteration of the listener, wherever it fails and whatever the other threads do meanwhile. -/
theorem setUp_fails (hl : m.Lists m.listed) (hfree : m.connMutex = none) {x : Attempt}
    (h : (settingUp E x m).Reachable s) (hfail : s.pc = .left false) : NoTrace m s := by
  obtain ⟨hk, hm, hq⟩ := inv_settingUp hl hfree h
  rw [hfail] at hm hq
  obtain ⟨hclosed, hreleased⟩ := hq
  -- its record is off the list, so leaving it out changes nothing
  have hlist : (s.alone m).list = s.mem.listed := by
    rw [hk.agrees.list]
    show without s.own s.mem.listed = _
    cases hown : s.own with
    | none => rfl
    | some p => exact List.erase_of_not_mem (hreleased p hown).2
  exact
    { list := hlist.symm
      fields := fun p hp => hk.agrees.node p (hlist ▸ hp)
      files := hclosed.files
      sockets := ⟨hclosed.opened, hclosed.closed⟩
      gone := hreleased
      ids := hk.ids
      unlocked := hm
      running := hk.running }

/-- One connection. -/
def onePeer : Mem := ((chat .demo).after Sync.Trans.Free (accepts 4 ++ listens 7)).mem

/-- `connect 10.0.0.2 40000` up to `pthread_create`; a record is inserted in front of the new
one and the one behind it removed; `pthread_create` fails. -/
def createFails : List AttemptLabel :=
  .replicate 3 (.go .ok) ++ .go (.fd 5) :: .replicate 6 (.go .ok) ++
    [.disturb (.insert 6 2 [] 0 true), .disturb (.remove 0), .go .fail] ++ .replicate 6 (.go .ok)

/-- The connection that gets no thread. -/
def failedConnect : SettingUp :=
  (settingUp .demo (.connect (dotted peerAddr) (decimal 40000)) onePeer).after Sync.Trans.Free createFails

/-- The inserted record alone is left. -/
theorem setUp_fails_create : failedConnect.mem.listed = [2] ∧ NoTrace onePeer failedConnect := by
  refine ⟨by decide +kernel, ?_⟩
  have hone : onePeer.listed = [0] := by decide +kernel
  have hend : onePeer.next 0 = none := by decide +kernel
  have hl : onePeer.Lists onePeer.listed := by
    rw [hone]
    exact ⟨⟨by decide +kernel, hend⟩, by decide, by decide +kernel, by decide +kernel⟩
  exact setUp_fails hl (by decide +kernel) (Sync.Trans.reach_after createFails) (by decide +kernel)

end Chat
