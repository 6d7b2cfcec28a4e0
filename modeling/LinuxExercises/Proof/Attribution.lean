import LinuxExercises.Proof.Closing

/-!
# Whose bytes a receive thread gets

A receive thread reads its descriptor number anew for every `recv`, and `cmd_terminate` and
`cmd_exit` close that number under it.

* `foreign_recv`: so the thread can receive from a later connection with the same number.
* `recv_own`: it receives from its own socket only, as long as no `socket()` or `accept()`
  returns a number that a receive thread, or a set-up on its way to one, will still use.
-/

namespace Chat

/-- The thread is in its receive loop. -/
def RecvPc.looping : RecvPc → Bool
  | .top | .inRecv _ | .got _ => true
  | _ => false

/-- The record and descriptor of a set-up up to `pthread_create`. -/
def SetupPc.toMake : SetupPc → Option (Ptr × Fd)
  | .lock p fd | .link p fd | .publish p fd | .unlock p fd | .create p fd => some (p, fd)
  | _ => none

/-- The descriptor and socket before there is a record. -/
def SetupPc.socket : SetupPc → Option (Fd × Sock)
  | .malloc fd c _ => some (fd, c)
  | _ => none

def Stage.socket : Stage → Option (Fd × Sock)
  | .opened fd c => some (fd, c)
  | _ => none

/-- The number belongs to a receive thread in its loop, or to a connection that is on its
way to a receive thread. -/
def View.InUse (v : View) (n : Fd) : Prop :=
  (∃ p < v.mem.allocs, (v.mem.recv p).any RecvPc.looping = true ∧ (v.mem.node p).sockfd = n) ∨
  (∃ t ∈ [Tid.main, Tid.listener], ∃ q ∈ v.setup t,
    n ∈ (q.toMake.map Prod.snd) ∨ n ∈ (q.socket.map Prod.fst)) ∨
  n ∈ v.stage.socket.map Prod.fst

/-- The number that `socket()` or `accept()` returns. -/
def Label.opens : Label → Option Fd
  | .main (.fd n) => some n
  | .listener (.peer n _) => some n
  | _ => none

/-- `socket()` and `accept()` return no number that is in use. -/
def Fresh (v : View) (l : Label) : Prop := ∀ n ∈ l.opens, ¬ v.InUse n

instance (v : View) (n : Fd) : Decidable (v.InUse n) := by unfold View.InUse; infer_instance

instance (v : View) (l : Label) : Decidable (Fresh v l) := by unfold Fresh; infer_instance

/-- The number is free, or denotes the connection `c`. -/
def Mem.OwnOrFree (m : Mem) (n : Fd) (c : Sock) : Prop := m.files n = none ∨ m.files n = some (.conn c)

/-- **Numbers that will be read again denote nothing foreign.** -/
structure View.Attributed (v : View) : Prop where
  loop : ∀ p, (v.mem.recv p).any RecvPc.looping = true → v.mem.OwnOrFree (v.mem.node p).sockfd (v.mem.hist p).sock
  call : ∀ p c, v.mem.recv p = some (.inRecv c) → c = (v.mem.hist p).sock
  toMake : ∀ t q, v.setup t = some q → ∀ p n, q.toMake = some (p, n) → v.mem.OwnOrFree n (v.mem.hist p).sock
  setup : ∀ t q, v.setup t = some q → ∀ n c, q.socket = some (n, c) → v.mem.OwnOrFree n c
  stage : ∀ n c, v.stage.socket = some (n, c) → v.mem.OwnOrFree n c
  recvs : ∀ r ∈ v.mem.recvs, v.mem.recv r.conn ≠ none ∧ r.sock = (v.mem.hist r.conn).sock

variable {m : Mem} {su : Tid → Option SetupPc} {k k' : Stage} {d d' : Bool} {t : Tid} {ch : Choice} {op : Op}
  {q : SetupPc} {q' : Option SetupPc} {p : Ptr} {n : Fd} {c : Sock}

/-- Only opening the number itself brings a foreign file there. -/
theorem ownOrFree_apply (hop : op ≠ .openConn n) (h : m.OwnOrFree n c) : (m.apply t op).OwnOrFree n c := by
  cases op with
  | openConn n' =>
    have hne : n ≠ n' := by rintro rfl; exact hop rfl
    simpa [Mem.OwnOrFree, Mem.apply, Function.update_of_ne hne] using h
  | close n' x =>
    by_cases hne : n = n'
    · subst hne; exact .inl (by simp [Mem.apply])
    · simpa [Mem.OwnOrFree, Mem.apply, Function.update_of_ne hne] using h
  | _ => exact h

theorem SetupPc.node_of_toMake (h : q.toMake = some (p, n)) : q.open = some (p, n) ∧ q.node = some p := by
  cases q <;> cases h <;> exact ⟨rfl, rfl⟩

theorem SetupMove.toMake_of {q₁ : SetupPc} (h : SetupMove m ch q op q') (hq : q' = some q₁)
    (hp : q₁.toMake = some (p, n)) :
    q.toMake = some (p, n) ∨ ∃ c ip port, q.socket = some (n, c) ∧ op = .alloc n c ip port ∧ p = m.allocs := by
  cases h with
  | alloc fd c a ip port => cases hq; cases hp; exact .inr ⟨c, ip, port, rfl, rfl, rfl⟩
  | _ => cases hq <;> first | exact .inl hp | cases hp

theorem SetupMove.not_open (h : SetupMove m ch q op q') : op ≠ .openConn n := by
  cases h <;> simp

theorem SetupMove.recvs_eq (h : SetupMove m ch q op q') : (m.apply t op).recvs = m.recvs := by
  cases h <;> rfl

theorem MainMove.recvs_eq (h : MainMove m d ch k op k') : (m.apply .main op).recvs = m.recvs := by
  cases h <;> rfl

theorem attributed_setup (hB : View.Base ⟨m, su, k, d⟩) (hK : View.Closing ⟨m, su, k, d⟩)
    (hI : View.Attributed ⟨m, su, k, d⟩) (hs : su t = some q) (h : SetupMove m ch q op q') :
    View.Attributed ⟨m.apply t op, Function.update su t q', k, d⟩ := by
  have hfree {n c} (h₀ : m.OwnOrFree n c) : (m.apply t op).OwnOrFree n c := ownOrFree_apply h.not_open h₀
  have hrecv {p} (hr : m.recv p ≠ none) : p ≠ m.allocs := Nat.ne_of_lt (hB.records.thread p hr).1
  have hsock {p} (hp : p ≠ m.allocs) : ((m.apply t op).hist p).sock = (m.hist p).sock := apply_sock op fun _ => hp
  have hfd {p} (hp : p ≠ m.allocs) : ((m.apply t op).node p).sockfd = (m.node p).sockfd := apply_sockfd op fun _ => hp
  refine ⟨fun p hp => ?_, fun p c hp => ?_, setups_update ?_ ?_, setups_update ?_ ?_, fun n c hc => hfree (hI.stage n c hc), ?_⟩
  · simp only [apply_recv] at hp
    split at hp
    · -- the thread that is being made
      rename_i hop
      subst hop
      cases h with
      | create p fd =>
        have hfd : (m.node p).sockfd = fd := hK.fd t _ hs p fd rfl
        have hpa : p ≠ m.allocs := hB.bound_setup hs rfl
        rw [apply_sockfd (.create p) (fun _ => hpa), apply_sock (.create p) (fun _ => hpa), hfd]
        exact hfree (hI.toMake t _ hs p fd rfl)
    · have hpa : p ≠ m.allocs := hrecv (by rintro hn; simp [hn] at hp)
      rw [hfd hpa, hsock hpa]
      exact hfree (hI.loop p hp)
  · simp only [apply_recv] at hp
    split at hp
    · cases hp
    · rw [hsock (hrecv (by simp [hp]))]; exact hI.call p c hp
  · intro q₁ hq p n hp
    rcases h.toMake_of hq hp with ho | ⟨c, ip, port, hc, rfl, rfl⟩
    · rw [hsock (hB.bound_setup hs (SetupPc.node_of_toMake ho).2)]; exact hfree (hI.toMake t q hs p n ho)
    · rw [(apply_alloc n c ip port).1]; exact hfree (hI.setup t q hs n c hc)
  · intro t' q₁ h₁ p n hp
    rw [hsock (hB.bound_setup h₁ (SetupPc.node_of_toMake hp).2)]; exact hfree (hI.toMake t' q₁ h₁ p n hp)
  · intro q₁ hq n c hc
    cases h <;> cases hq <;> cases hc
  · intro t' q₁ h₁ n c hc; exact hfree (hI.setup t' q₁ h₁ n c hc)
  · simp only [h.recvs_eq]
    intro r hr
    obtain ⟨hn, hs⟩ := hI.recvs r hr
    refine ⟨recv_mono op hn, ?_⟩
    rw [hsock (hrecv hn)]; exact hs

/-- A number that is opened is not in use. -/
theorem Fresh.not_inUse {v : View} {l : Label} (h : Fresh v l) (hn : l.opens = some n) : ¬ v.InUse n := h n hn

/-- Opening a number that is not in use brings nothing foreign. -/
theorem View.Attributed.opened {v : View} (hI : v.Attributed) (hB : v.Base) (hn : ¬ v.InUse n) :
    (∀ p, (v.mem.recv p).any RecvPc.looping = true →
      (v.mem.apply t (.openConn n)).OwnOrFree (v.mem.node p).sockfd (v.mem.hist p).sock) ∧
    (∀ t' q, v.setup t' = some q → ∀ p n', q.toMake = some (p, n') →
      (v.mem.apply t (.openConn n)).OwnOrFree n' (v.mem.hist p).sock) ∧
    (∀ t' q, v.setup t' = some q → ∀ n' c, q.socket = some (n', c) → (v.mem.apply t (.openConn n)).OwnOrFree n' c) ∧
    ∀ n' c, v.stage.socket = some (n', c) → (v.mem.apply t (.openConn n)).OwnOrFree n' c := by
  have hmaker {t' q} (hs : v.setup t' = some q) : t' ∈ [Tid.main, Tid.listener] := by
    cases t' with
    | recv x => rw [hB.records.makers x] at hs; cases hs
    | _ => simp
  refine ⟨fun p hp => ownOrFree_apply ?_ (hI.loop p hp), fun t' q hs p n' hp => ownOrFree_apply ?_ (hI.toMake t' q hs p n' hp),
    fun t' q hs n' c hc => ownOrFree_apply ?_ (hI.setup t' q hs n' c hc), fun n' c hc => ownOrFree_apply ?_ (hI.stage n' c hc)⟩
  · intro he
    have hr : v.mem.recv p ≠ none := by intro hr; simp [hr] at hp
    exact hn (.inl ⟨p, (hB.records.thread p hr).1, hp, (Op.openConn.inj he).symm⟩)
  · intro he
    exact hn (.inr (.inl ⟨t', hmaker hs, q, hs, .inl (by simp [hp, Op.openConn.inj he])⟩))
  · intro he
    exact hn (.inr (.inl ⟨t', hmaker hs, q, hs, .inr (by simp [hc, Op.openConn.inj he])⟩))
  · intro he
    exact hn (.inr (.inr (by simp [hc, Op.openConn.inj he])))

theorem attributed_main {l : Label} (hB : View.Base ⟨m, su, k, d⟩) (hC : Fresh ⟨m, su, k, d⟩ l)
    (hI : View.Attributed ⟨m, su, k, d⟩) (hl : l.who = some (.main, ch)) (h : MainMove m d ch k op k') :
    View.Attributed ⟨m.apply .main op, su, k', d⟩ := by
  -- a step that opens nothing
  have hkeep (hop : ∀ n, op ≠ .openConn n) (hk : ∀ y, k'.socket = some y → k.socket = some y) :
      View.Attributed ⟨m.apply .main op, su, k', d⟩ := by
    have hfree {n c} (h₀ : m.OwnOrFree n c) : (m.apply .main op).OwnOrFree n c := ownOrFree_apply (hop n) h₀
    have hna : op.isAlloc = false := by cases h <;> rfl
    have hsock (p : Ptr) : ((m.apply .main op).hist p).sock = (m.hist p).sock := apply_sock op (by simp [hna])
    have hfd (p : Ptr) : ((m.apply .main op).node p).sockfd = (m.node p).sockfd := apply_sockfd op (by simp [hna])
    refine ⟨fun p hp => ?_, fun p c hp => ?_, fun t q hs p n hp => ?_, fun t q hs n c hc => hfree (hI.setup t q hs n c hc),
      fun n c hc => hfree (hI.stage n c (hk _ hc)), ?_⟩
    · simp only [h.recv_eq] at hp
      rw [hfd, hsock]; exact hfree (hI.loop p hp)
    · simp only [h.recv_eq] at hp
      rw [hsock]; exact hI.call p c hp
    · rw [hsock]; exact hfree (hI.toMake t q hs p n hp)
    · simp only [h.recvs_eq, h.recv_eq, hsock]; exact hI.recvs
  cases h with
  | «open» n hn hc =>
    have hopens : l.opens = some n := by
      cases l <;> cases hl
      rw [hc]; rfl
    obtain ⟨hloop, hmake, hsetup, -⟩ := hI.opened (t := .main) hB (hC.not_inUse hopens)
    refine ⟨hloop, hI.call, hmake, hsetup, ?_, hI.recvs⟩
    rintro n' c ⟨⟩
    exact .inr (Function.update_self ..)
  | stay => exact hI
  | _ => exact hkeep (by simp) (by rintro y ⟨⟩)

theorem attributed_step {v v' : View} {l : Label} (hB : v.Base) (hK : v.Closing) (hC : Fresh v l) (hI : v.Attributed)
    (h : Move v l v') : v'.Attributed := by
  cases h with
  | setup hl hs ht h => exact attributed_setup hB hK hI hs h
  | main hl hs h => exact attributed_main hB hC hI hl h
  | connected a hs =>
    refine ⟨hI.loop, hI.call, setups_update ?_ hI.toMake, setups_update ?_ hI.setup, (by rintro n c ⟨⟩), hI.recvs⟩
    · rintro q ⟨⟩ p n ⟨⟩
    · rintro q ⟨⟩ n c ⟨⟩
      exact hI.stage _ _ rfl
  | @accepted m su k l n a hl hs hn =>
    have hopens : l.opens = some n := by rw [hl]; rfl
    obtain ⟨hloop, hmake, hsetup, hstage⟩ := hI.opened (t := .listener) hB (hC.not_inUse hopens)
    refine ⟨hloop, hI.call, setups_update ?_ hmake, setups_update ?_ hsetup, hstage, hI.recvs⟩
    · rintro q ⟨⟩ p n ⟨⟩
    · rintro q ⟨⟩ n' c ⟨⟩
      exact .inr (Function.update_self ..)
  | listen => exact hI
  | listenerEnds hs hr => exact ⟨hI.loop, hI.call, hI.toMake, hI.setup, hI.stage, hI.recvs⟩
  | @recv m su k d l p q op q' hq h =>
    have hna : op.isAlloc = false := by cases h <;> rfl
    have hsock (x : Ptr) : ((m.apply (.recv p) op).hist x).sock = (m.hist x).sock := apply_sock op (by simp [hna])
    have hfd (x : Ptr) : ((m.apply (.recv p) op).node x).sockfd = (m.node x).sockfd := apply_sockfd op (by simp [hna])
    have hfree {n c} (h₀ : m.OwnOrFree n c) : ((m.apply (.recv p) op).setRecv p q').OwnOrFree n c :=
      ownOrFree_apply (by cases h <;> simp) h₀
    have hself : ((m.apply (.recv p) op).setRecv p q').recv p = some q' := by simp [Mem.setRecv]
    have hother {x : Ptr} (hx : x ≠ p) : ((m.apply (.recv p) op).setRecv p q').recv x = m.recv x := by
      simp [Mem.setRecv, hx, h.recv_eq]
    have hmade {x : Ptr} (hx : m.recv x ≠ none) : ((m.apply (.recv p) op).setRecv p q').recv x ≠ none := by
      by_cases hxp : x = p
      · subst hxp; simp [hself]
      · rw [hother hxp]; exact hx
    -- the thread that moves was in its loop if it is
    have hloop (hq' : q'.looping = true) : q.looping = true := by cases h <;> first | rfl | cases hq'
    refine ⟨fun x hx => ?_, fun x c hx => ?_, fun t q hs x n hx => ?_, fun t q hs n c hc => hfree (hI.setup t q hs n c hc),
      fun n c hc => hfree (hI.stage n c hc), fun r hr => ?_⟩
    · have hold : (m.recv x).any RecvPc.looping = true := by
        by_cases hxp : x = p
        · subst hxp
          rw [hself] at hx
          simpa [hq] using hloop (by simpa using hx)
        · rw [hother hxp] at hx; exact hx
      have hfree' := hfree (hI.loop x hold)
      rwa [← hfd, ← hsock] at hfree'
    · have hc : c = (m.hist x).sock := by
        by_cases hxp : x = p
        · subst hxp
          rw [hself] at hx
          -- a `recv` on the number as it stands
          cases h with
          | call c' hc =>
            cases hx
            have hown := hI.loop x (by simp [hq, RecvPc.looping])
            unfold Mem.connOf at hc
            rcases hown with hf | hf
            · rw [hf] at hc; cases hc
            · rw [hf] at hc; cases hc; rfl
          | _ => cases hx
        · rw [hother hxp] at hx; exact hI.call x c hx
      rw [hc]; exact (hsock x).symm
    · have hmk := hfree (hI.toMake t q hs x n hx)
      rwa [← hsock] at hmk
    · have hr' : r ∈ m.recvs ∨ ∃ c, q = .inRecv c ∧ r.conn = p ∧ r.sock = c := by
        cases h with
        | take c n =>
          rcases List.mem_append.1 hr with hr | hr
          · exact .inl hr
          · obtain rfl := List.mem_singleton.1 hr
            exact .inr ⟨c, rfl, rfl, rfl⟩
        | _ => exact .inl hr
      have hgoal : ((m.apply (.recv p) op).setRecv p q').recv r.conn ≠ none ∧ r.sock = (m.hist r.conn).sock := by
        rcases hr' with hr | ⟨c, rfl, rfl, rfl⟩
        · obtain ⟨hn, hs⟩ := hI.recvs r hr
          exact ⟨hmade hn, hs⟩
        · exact ⟨by simp [hself], hI.call _ _ hq⟩
      exact ⟨hgoal.1, hgoal.2.trans (hsock r.conn).symm⟩
  | peer hc => exact ⟨hI.loop, hI.call, hI.toMake, hI.setup, hI.stage, hI.recvs⟩

/-- **Receive attribution**: in every run in which `socket()` and `accept()` return no number
that a receive thread in its loop, or a connection on its way to one, still has, every byte
a receive thread gets comes from the socket its record was made with. -/
theorem recv_own {E : Env} {s : State} (h : ReachView E Fresh s) :
    ∀ r ∈ s.mem.recvs, r.sock = (s.mem.hist r.conn).sock := by
  have hI : s.view.Attributed := by
    refine view_inv (J := fun v => v.Base ∧ v.Closing) (fun _ hr => ⟨base_reach hr, closing_reach hr⟩) ?_ ?_ h
    · have hsu {P : Tid → SetupPc → Prop} : ∀ t q, State.init.view.setup t = some q → P t q := by
        intro t q h; cases t <;> cases h
      exact ⟨(by rintro p ⟨⟩), (by rintro p c ⟨⟩), hsu, hsu, (by rintro n c ⟨⟩), fun r hr => absurd hr List.not_mem_nil⟩
    · rintro v l v' - ⟨hB, hK⟩ hI hC hm
      exact attributed_step hB hK hC hI hm
  exact fun r hr => (hI.recvs r hr).2

/-- A connection is accepted; its peer sends three bytes and its receive thread gets them. -/
def receiveOwn : List Label :=
  accepts 4 ++ listens 8 ++ [.peer 0 (.send [104, 105, 33]), .recv 0 .ok, .recv 0 (.bytes 3)]

theorem recv_own_bytes :
    ((chat .demo).after (fun s l => Fresh s.view l) receiveOwn).mem.recvs = [⟨0, 0, [104, 105, 33]⟩] ∧
    ∀ r ∈ ((chat .demo).after (fun s l => Fresh s.view l) receiveOwn).mem.recvs,
      r.sock = (((chat .demo).after (fun s l => Fresh s.view l) receiveOwn).mem.hist r.conn).sock :=
  ⟨by decide +kernel, recv_own (Sync.Trans.reach_after _)⟩

/-- A connection is accepted on descriptor 4, and `cmd_terminate` closes it before its thread
has called `recv`; the next connection gets descriptor 4 too. -/
def reuseDescriptor : List Label :=
  accepts 4 ++ listens 7 ++ enters (.terminate 1) ++ mains 5 ++ accepts 4 ++
    [.peer 1 (.send [104, 105, 33]), .recv 0 .ok, .recv 0 (.bytes 3)]

/-- **Bytes of another peer.** -/
theorem foreign_recv : ¬ ∀ (E : Env) (s : State), (chat E).Reachable s →
    ∀ r ∈ s.mem.recvs, r.sock = (s.mem.hist r.conn).sock := by
  intro h
  have hown := h .demo _ (Sync.Trans.reach_after reuseDescriptor) ⟨0, 1, [104, 105, 33]⟩ (by decide +kernel)
  exact absurd hown (by decide +kernel)

end Chat
