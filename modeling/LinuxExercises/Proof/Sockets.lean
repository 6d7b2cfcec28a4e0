import LinuxExercises.Proof.Closing
import LinuxExercises.Sync.Lease

/-!
# Descriptors and their sockets

* `leases_reach`: if a record is closed a second time only while its number is free, then
  in every run the number of every record that has not been closed denotes the record's
  own socket, and no other such record, and no socket on its way into a record, has it.
* `born_reach`: the sockets of records and set-ups have been opened.
-/

namespace Chat

open Sync (Leases)

/-- Who holds a descriptor: the listening socket, `cmd_connect` before its set-up, a set-up
before it has a record, a record that has not been closed. -/
inductive Holder where
  | server
  | socket
  | setup (t : Tid)
  | conn (p : Ptr)
  deriving DecidableEq

/-- `server_sock` has not been closed. -/
def Stage.serverOpen (k : Stage) : Bool := !k.leaving || k = .exitStart

def Stage.lease : Stage → Option (Fd × File)
  | .opened fd c | .abandon fd c => some (fd, .conn c)
  | _ => none

def SetupPc.lease : SetupPc → Option (Fd × File)
  | .malloc fd c _ | .abort fd c => some (fd, .conn c)
  | _ => none

def Mem.lease (m : Mem) (p : Ptr) : Option (Fd × File) :=
  if p < m.allocs ∧ (m.hist p).closes = [] then some ((m.node p).sockfd, .conn (m.hist p).sock) else none

/-- **Who holds which descriptor**, and for which file. -/
def View.lease (v : View) : Holder → Option (Fd × File)
  | .server => if v.stage.serverOpen then some (serverSock, .listen) else none
  | .socket => v.stage.lease
  | .setup t => (v.setup t).bind SetupPc.lease
  | .conn p => v.mem.lease p

def Stage.toClose : Stage → Option Ptr
  | .close _ p => some p
  | _ => none

def SetupPc.toClose : SetupPc → Option Ptr
  | .rbClose p _ => some p
  | _ => none

/-- The record that a set-up closes at a step. -/
def View.rollback (v : View) (l : Label) : Option Ptr := l.who.bind fun w => (v.setup w.1).bind SetupPc.toClose

/-- The record that a step closes. -/
def View.closes (v : View) (l : Label) : Option Ptr :=
  (v.rollback l).or (if l.by .main then v.stage.toClose else none)

/-- A record that has been closed before is closed only while its number is free. -/
def Clean (v : View) (l : Label) : Prop :=
  ∀ p ∈ v.closes l, (v.mem.hist p).closes = [] ∨ v.mem.files (v.mem.node p).sockfd = none

instance (v : View) (l : Label) : Decidable (Clean v l) := by unfold Clean; infer_instance

/-- Descriptors are leased. -/
def View.Leased (v : View) : Prop := Leases v.mem.files v.lease

variable {m : Mem} {su : Tid → Option SetupPc} {k k' : Stage} {d d' : Bool} {t : Tid} {ch : Choice} {op : Op}
  {q : SetupPc} {q' : Option SetupPc} {p : Ptr} {y : Fd × File}

theorem lease_iff : m.lease p = some y ↔
    (p < m.allocs ∧ (m.hist p).closes = []) ∧ ((m.node p).sockfd, .conn (m.hist p).sock) = y := by
  unfold Mem.lease
  split <;> rename_i hc
  · rw [Option.some.injEq]; tauto
  · simp [hc]

/-- Only `add_connection` gives a record its lease. -/
theorem lease_of (t : Tid) (op : Op) (hop : op.isAlloc = false) (h : (m.apply t op).lease p = some y) : m.lease p = some y := by
  have hno : op.isAlloc = true → p ≠ m.allocs := by simp [hop]
  have ha : (m.apply t op).allocs = m.allocs := by cases op <;> first | rfl | cases hop
  obtain ⟨⟨hp, hc⟩, hy⟩ := lease_iff.1 h
  rw [apply_closes op hno] at hc
  rw [apply_sockfd op hno, apply_sock op hno] at hy
  rw [ha] at hp
  exact lease_iff.2 ⟨⟨hp, (List.append_eq_nil_iff.1 hc).1⟩, hy⟩

theorem lease_some (hp : p < m.allocs) (hc : (m.hist p).closes = []) :
    m.lease p = some ((m.node p).sockfd, .conn (m.hist p).sock) := if_pos ⟨hp, hc⟩

/-- **What a record that has not been closed finds at its number.** -/
theorem View.Leased.own {v : View} (h : v.Leased) (hp : p < v.mem.allocs) (hc : (v.mem.hist p).closes = []) :
    v.mem.files (v.mem.node p).sockfd = some (.conn (v.mem.hist p).sock) :=
  Leases.own h (.conn p) _ _ (lease_some hp hc)

/-- Two records that have not been closed have two numbers. -/
theorem View.Leased.apart {v : View} (h : v.Leased) {p x : Ptr} (hp : p < v.mem.allocs) (hx : x < v.mem.allocs)
    (hcp : (v.mem.hist p).closes = []) (hcx : (v.mem.hist x).closes = [])
    (he : (v.mem.node p).sockfd = (v.mem.node x).sockfd) : p = x := by
  have hlp : v.lease (.conn p) = _ := lease_some hp hcp
  have hlx : v.lease (.conn x) = _ := lease_some hx hcx
  rw [← he] at hlx
  have := Leases.apart h _ _ _ _ _ hlp hlx
  cases this; rfl

/-- The leases after a step that takes none. -/
theorem leases_mono {m' : Mem} {su' : Tid → Option SetupPc} (hI : Leases m.files (View.lease ⟨m, su, k, d⟩))
    (hf : m'.files = m.files) (hserver : k'.serverOpen = true → k.serverOpen = true)
    (hsocket : ∀ y, k'.lease = some y → k.lease = some y)
    (hsetup : ∀ t y, (su' t).bind SetupPc.lease = some y → (su t).bind SetupPc.lease = some y)
    (hconn : ∀ p y, m'.lease p = some y → m.lease p = some y) :
    Leases m'.files (View.lease ⟨m', su', k', d'⟩) := by
  rw [hf]
  refine hI.mono fun x y hx => ?_
  cases x with
  | server =>
    simp only [View.lease] at hx ⊢
    split at hx
    · rename_i hk; rw [if_pos (hserver hk)]; exact hx
    · cases hx
  | socket => exact hsocket y hx
  | setup t => exact hsetup t y hx
  | conn p => exact hconn p y hx

/-- A lease of a set-up after one of them has moved. -/
theorem setup_lease_update {t' : Tid} (h : (Function.update su t q' t').bind SetupPc.lease = some y) :
    (t' = t ∧ q'.bind SetupPc.lease = some y) ∨ (t' ≠ t ∧ (su t').bind SetupPc.lease = some y) := by
  by_cases ht : t' = t
  · subst ht; rw [Function.update_self] at h; exact .inl ⟨rfl, h⟩
  · rw [Function.update_of_ne ht] at h; exact .inr ⟨ht, h⟩

theorem close_files {fd : Fd} {x : Option Ptr} : (m.apply t (.close fd x)).files = Function.update m.files fd none := rfl

/-- The record of a close has no lease any more. -/
theorem lease_closed (t : Tid) {fd : Fd} : (m.apply t (.close fd (some p))).lease p ≠ some y := by
  simp [Mem.lease, Mem.apply]

theorem leases_setup {l : Label} (hB : View.Base ⟨m, su, k, d⟩) (hK : View.Closing ⟨m, su, k, d⟩)
    (hC : Clean ⟨m, su, k, d⟩ l) (hI : View.Leased ⟨m, su, k, d⟩) (hl : l.who = some (t, ch)) (hs : su t = some q)
    (h : SetupMove m ch q op q') : View.Leased ⟨m.apply t op, Function.update su t q', k, d⟩ := by
  -- a set-up that moves takes no lease but by `add_connection`
  have hmono (hop : op.isAlloc = false) (hf : (m.apply t op).files = m.files)
      (hq : ∀ y, q'.bind SetupPc.lease = some y → q.lease = some y) :
      View.Leased ⟨m.apply t op, Function.update su t q', k, d⟩ := by
    refine leases_mono hI hf id (fun _ => id) (fun t' y hy => ?_) (fun p y => lease_of _ _ hop)
    rcases setup_lease_update hy with ⟨rfl, hq'⟩ | ⟨-, hy⟩
    · rw [hs]; exact hq y hq'
    · exact hy
  cases h with
  | alloc fd c a ip port =>
    have hnew (x : Ptr) (hx : x ≠ m.allocs) (y : Fd × File) (hy : (m.apply t (.alloc fd c ip port)).lease x = some y) :
        m.lease x = some y := by
      obtain ⟨⟨hp, hc⟩, hy⟩ := lease_iff.1 hy
      have hp' : x < m.allocs := lt_of_le_of_ne (Nat.lt_succ_iff.1 hp) hx
      simp only [Mem.apply, Function.update_of_ne hx] at hc hy
      exact lease_iff.2 ⟨⟨hp', hc⟩, hy⟩
    have hown : (m.apply t (.alloc fd c ip port)).lease m.allocs = some (fd, .conn c) := by
      simp [Mem.lease, Mem.apply]
    refine Leases.pass (a := .setup t) (b := .conn m.allocs) hI (fun y hy => ?_) fun x y hx hy => ?_
    · have hy' : (m.apply t (.alloc fd c ip port)).lease m.allocs = some y := hy
      rw [hown] at hy'; cases hy'
      show (su t).bind SetupPc.lease = _
      rw [hs]; rfl
    · cases x with
      | server => exact ⟨by simp, hy⟩
      | socket => exact ⟨by simp, hy⟩
      | setup t' =>
        rcases setup_lease_update hy with ⟨rfl, hq'⟩ | ⟨hne, hy⟩
        · cases hq'
        · exact ⟨by simpa using hne, hy⟩
      | conn x => exact ⟨by simp, hnew x (by simpa using hx) y hy⟩
  | abort fd c =>
    have hlease : View.lease ⟨m, su, k, d⟩ (.setup t) = some (fd, .conn c) := by
      show (su t).bind SetupPc.lease = _
      rw [hs]; rfl
    refine Leases.drop hI hlease fun x y hy => ?_
    cases x with
    | server => exact ⟨by simp, hy⟩
    | socket => exact ⟨by simp, hy⟩
    | setup t' =>
      rcases setup_lease_update hy with ⟨rfl, hq'⟩ | ⟨hne, hy⟩
      · cases hq'
      · exact ⟨by simpa using hne, hy⟩
    | conn x => exact ⟨by simp, lease_of t (.close fd none) rfl hy⟩
  | rbClose p fd =>
    have hfd : (m.node p).sockfd = fd := hK.fd t _ hs p fd rfl
    have hfirst : (m.hist p).closes = [] ∨ m.files fd = none := by
      rw [← hfd]
      refine hC p ?_
      simp [View.closes, View.rollback, hl, hs, SetupPc.toClose]
    rcases hfirst with hc | hn
    · have hlease : View.lease ⟨m, su, k, d⟩ (.conn p) = some (fd, .conn (m.hist p).sock) := by
        rw [← hfd]; exact lease_some (hB.records.bound t _ hs p rfl) hc
      refine Leases.drop hI hlease fun x y hy => ?_
      cases x with
      | server => exact ⟨by simp, hy⟩
      | socket => exact ⟨by simp, hy⟩
      | setup t' =>
        rcases setup_lease_update hy with ⟨rfl, hq'⟩ | ⟨-, hy⟩
        · cases hq'
        · exact ⟨by simp, hy⟩
      | conn x =>
        have hx : x ≠ p := by rintro rfl; exact lease_closed t hy
        exact ⟨by simpa using hx, lease_of t (.close fd (some p)) rfl hy⟩
    · refine hmono rfl ?_ (by rintro y ⟨⟩)
      rw [close_files, Function.update_eq_self_iff]; exact hn.symm
  | allocFails fd c a => exact hmono rfl rfl fun y hy => hy
  | _ => exact hmono rfl rfl (by rintro y ⟨⟩)

theorem leases_main {l : Label} (hB : View.Base ⟨m, su, k, d⟩) (hC : Clean ⟨m, su, k, d⟩ l)
    (hI : View.Leased ⟨m, su, k, d⟩) (hl : l.who = some (.main, ch)) (hs : su .main = none)
    (h : MainMove m d ch k op k') : View.Leased ⟨m.apply .main op, su, k', d⟩ := by
  obtain ⟨L, hL, -, hok⟩ := hB.registry
  have hmono (hop : op.isAlloc = false) (hf : (m.apply .main op).files = m.files)
      (hserver : k'.serverOpen = true → k.serverOpen = true) (hsocket : ∀ y, k'.lease = some y → k.lease = some y) :
      View.Leased ⟨m.apply .main op, su, k', d⟩ :=
    leases_mono hI hf hserver hsocket (fun _ _ => id) (fun p y => lease_of _ _ hop)
  cases h with
  | «open» n hn hc =>
    refine Leases.give (a := .socket) hI hn rfl fun x y hx hy => ?_
    cases x with
    | server => exact hy
    | socket => exact absurd rfl hx
    | setup t => exact hy
    | conn x => exact lease_of .main (.openConn n) rfl hy
  | abandon fd c =>
    refine Leases.drop (a := .socket) hI rfl fun x y hy => ?_
    cases x with
    | server => exact ⟨by simp, hy⟩
    | socket => cases hy
    | setup t => exact ⟨by simp, hy⟩
    | conn x => exact ⟨by simp, lease_of .main (.close fd none) rfl hy⟩
  | close b p =>
    have hfirst : (m.hist p).closes = [] ∨ m.files (m.node p).sockfd = none := by
      refine hC p ?_
      simp [View.closes, View.rollback, Label.by, hl, hs, Stage.toClose]
    rcases hfirst with hc | hn
    · have hlease : View.lease ⟨m, su, .close b p, d⟩ (.conn p) = some ((m.node p).sockfd, .conn (m.hist p).sock) :=
        lease_some (hL.born p (hL.inserted hok)) hc
      refine Leases.drop hI hlease fun x y hy => ?_
      cases x with
      | server => cases b <;> exact ⟨by simp, hy⟩
      | socket => cases hy
      | setup t => exact ⟨by simp, hy⟩
      | conn x =>
        have hx : x ≠ p := by rintro rfl; exact lease_closed .main hy
        exact ⟨by simpa using hx, lease_of .main (.close (m.node p).sockfd (some p)) rfl hy⟩
    · refine hmono rfl ?_ (by cases b <;> exact id) (by rintro y ⟨⟩)
      rw [close_files, Function.update_eq_self_iff]; exact hn.symm
  | closeServer =>
    refine Leases.drop (a := .server) (f := .listen) hI rfl fun x y hy => ?_
    cases x with
    | server => cases hy
    | socket => cases hy
    | setup t => exact ⟨by simp, hy⟩
    | conn x => exact ⟨by simp, lease_of .main (.close serverSock none) rfl hy⟩
  | stay k => exact hI
  | connectFails fd c => exact hmono rfl rfl id fun y hy => hy
  | send b p sent hb => exact hmono rfl rfl (by cases b <;> exact id) (by rintro y ⟨⟩)
  | shutdown b p => exact hmono rfl rfl (by cases b <;> exact id) (by rintro y ⟨⟩)
  | _ => exact hmono rfl rfl (by first | exact id | exact fun _ => rfl | exact fun hk => by cases hk) (by rintro y ⟨⟩)

theorem leases_step {v v' : View} {l : Label} (hB : v.Base) (hK : v.Closing) (hC : Clean v l) (hI : v.Leased)
    (h : Move v l v') : v'.Leased := by
  cases h with
  | setup hl hs ht h => exact leases_setup hB hK hC hI hl hs h
  | main hl hs h => exact leases_main hB hC hI hl hs h
  | connected a hs =>
    refine Leases.pass (a := .socket) (b := .setup .main) hI (fun y hy => hy) fun x y hx hy => ?_
    cases x with
    | server => exact ⟨by simp, hy⟩
    | socket => cases hy
    | setup t =>
      rcases setup_lease_update hy with ⟨rfl, hy⟩ | ⟨hne, hy⟩
      · exact absurd rfl hx
      · exact ⟨by simp, hy⟩
    | conn x => exact ⟨by simp, hy⟩
  | @accepted m su k l n a hl hs hn =>
    have hnew : (Function.update su .listener (some (.malloc n m.opens a)) Tid.listener).bind SetupPc.lease =
        some (n, .conn m.opens) := by rw [Function.update_self]; rfl
    refine Leases.give (a := .setup .listener) hI hn hnew fun x y hx hy => ?_
    cases x with
    | server => exact hy
    | socket => exact hy
    | setup t =>
      rcases setup_lease_update hy with ⟨rfl, -⟩ | ⟨-, hy⟩
      · exact absurd rfl hx
      · exact hy
    | conn x => exact lease_of .listener (.openConn n) rfl hy
  | listen => exact hI
  | listenerEnds hs hr => exact leases_mono hI rfl id (fun _ => id) (fun _ _ => id) (fun _ _ => id)
  | @recv m su k d l p q op q' hq h =>
    have hop : op.isAlloc = false := by cases h <;> rfl
    have hf : ((m.apply (.recv p) op).setRecv p q').files = m.files := by cases h <;> rfl
    exact leases_mono hI hf id (fun _ => id) (fun _ _ => id) (fun x y hy => lease_of _ _ hop hy)
  | peer hc => exact leases_mono hI rfl id (fun _ => id) (fun _ _ => id) (fun _ _ => id)

/-- **Descriptors are leased**, in every run whose closes are clean. -/
theorem leases_reach {E : Env} {C : View → Label → Prop}
    (hClean : ∀ s, ReachView E C s → ∀ l, C s.view l → Clean s.view l) {s : State} (h : ReachView E C s) :
    s.view.Leased := by
  refine view_inv (J := fun v => (v.Base ∧ v.Closing) ∧ ∀ l, C v l → Clean v l)
    (fun s hr => ⟨⟨base_reach hr, closing_reach hr⟩, hClean s hr⟩) ?_ ?_ h
  · refine ⟨fun x n f hx => ?_, fun x x' n f f' hx hx' => ?_⟩
    · cases x with
      | server => cases hx; rfl
      | socket => cases hx
      | setup t => cases t <;> cases hx
      | conn p => cases hx
    · cases x with
      | server =>
        cases x' with
        | server => rfl
        | socket => cases hx'
        | setup t => cases t <;> cases hx'
        | conn p => cases hx'
      | socket => cases hx
      | setup t => cases t <;> cases hx
      | conn p => cases hx
  · rintro v l v' - ⟨⟨hB, hK⟩, hClean⟩ hI hC hm
    exact leases_step hB hK (hClean l hC) hI hm

/-! ## Sockets in hand -/

/-- **The sockets of records and set-ups have been opened.** -/
structure View.Born (v : View) : Prop where
  made : ∀ p < v.mem.allocs, (v.mem.hist p).sock < v.mem.opens
  setup : ∀ t q, v.setup t = some q → ∀ fd c, q.lease = some (fd, .conn c) → c < v.mem.opens
  stage : ∀ fd c, v.stage.lease = some (fd, .conn c) → c < v.mem.opens

theorem apply_opens (op : Op) : m.opens ≤ (m.apply t op).opens := by
  cases op <;> first | exact Nat.le_succ _ | exact le_rfl

theorem SetupMove.lease_of {fd : Fd} {f : File} {q₁ : SetupPc} (h : SetupMove m ch q op q') (hq : q' = some q₁)
    (hy : q₁.lease = some (fd, f)) : q.lease = some (fd, f) := by
  cases h with
  | allocFails => cases hq; exact hy
  | _ => cases hq <;> cases hy

theorem born_step {v v' : View} {l : Label} (hI : v.Born) (h : Move v l v') : v'.Born := by
  -- a step that makes no record
  have hmade {m : Mem} {t : Tid} {op : Op} (hna : op.isAlloc = false) (hI : ∀ p < m.allocs, (m.hist p).sock < m.opens) :
      ∀ p < (m.apply t op).allocs, ((m.apply t op).hist p).sock < (m.apply t op).opens := by
    intro p hp
    have ha : (m.apply t op).allocs = m.allocs := by cases op <;> first | rfl | cases hna
    rw [ha] at hp
    rw [apply_sock op (by simp [hna])]
    exact (hI p hp).trans_le (apply_opens op)
  cases h with
  | @setup m su k d l t ch q op q' hl hs ht h =>
    have hsetups : ∀ t' q₁, Function.update su t q' t' = some q₁ → ∀ fd c, q₁.lease = some (fd, .conn c) →
        c < (m.apply t op).opens := by
      refine setups_update ?_ fun t' q₁ h₁ fd c hc => (hI.setup t' q₁ h₁ fd c hc).trans_le (apply_opens op)
      intro q₁ hq fd c hc
      exact (hI.setup t q hs fd c (h.lease_of hq hc)).trans_le (apply_opens op)
    refine ⟨?_, hsetups, fun fd c hc => (hI.stage fd c hc).trans_le (apply_opens op)⟩
    cases h with
    | alloc fd c a ip port =>
      intro p hp
      by_cases hx : p = m.allocs
      · subst hx
        have hc : c < m.opens := hI.setup t _ hs fd c rfl
        rw [(apply_alloc fd c ip port).1]; exact hc
      · have hp' : p < m.allocs := lt_of_le_of_ne (Nat.lt_succ_iff.1 hp) hx
        rw [apply_sock _ (fun _ => hx)]; exact hI.made p hp'
    | _ => exact hmade rfl hI.made
  | @main m su k d l ch op k' hl hs h =>
    refine ⟨hmade (by cases h <;> rfl) hI.made, fun t q h₁ fd c hc => (hI.setup t q h₁ fd c hc).trans_le (apply_opens op), ?_⟩
    cases h with
    | «open» n hn hc => rintro fd c ⟨⟩; exact Nat.lt_succ_self _
    | connectFails n c' => exact hI.stage
    | stay k => exact hI.stage
    | _ => rintro fd c ⟨⟩
  | connected a hs =>
    refine ⟨hI.made, setups_update ?_ hI.setup, by rintro fd c ⟨⟩⟩
    rintro q ⟨⟩ fd c ⟨⟩
    exact hI.stage _ _ rfl
  | @accepted m su k l n a hl hs hn =>
    have hle : m.opens ≤ (m.apply .listener (.openConn n)).opens := apply_opens _
    refine ⟨hmade rfl hI.made, setups_update ?_ fun t q h₁ fd c hc => (hI.setup t q h₁ fd c hc).trans_le hle,
      fun fd c hc => (hI.stage fd c hc).trans_le hle⟩
    rintro q ⟨⟩ fd c ⟨⟩
    exact Nat.lt_succ_self _
  | listen => exact hI
  | listenerEnds hs hr => exact ⟨hI.made, hI.setup, hI.stage⟩
  | recv hq h => cases h <;> exact ⟨hI.made, hI.setup, hI.stage⟩
  | peer hc => exact ⟨hI.made, hI.setup, hI.stage⟩

theorem born_reach {E : Env} {C : View → Label → Prop} {s : State} (h : ReachView E C s) : s.view.Born := by
  refine view_inv (J := fun _ => True) (fun _ _ => trivial) ?_ (fun v l v' _ _ hI _ hm => born_step hI hm) h
  exact ⟨(by rintro p ⟨⟩), (by intro t q h; cases t <;> cases h), (by rintro fd c ⟨⟩)⟩

end Chat
