import LinuxExercises.Proof.Frame

/-!
# The flags `active` and `should_remove`

* `Flags`: `should_remove` is set exactly when the record's thread is past its marking block,
  and then `active` is clear; while `conn_mutex` is free no receive thread is inside.
* `flags_keep`: what a step does to the flags of a record.
* `removal_flags`: while `conn_mutex` is free, the thread of a marked record has finished.
-/

namespace Chat

variable {E : Env} {s s' : State} {m : Mem} {ch : Choice} {op : Op} {d : Bool} {k k' : Stage} {p : Ptr} {t : Tid}

/-- The thread has set the flags. -/
def RecvPc.marked : RecvPc → Bool
  | .unlock | .finished => true
  | _ => false

/-- **The flags of a record and the place of its thread.** -/
structure View.Flags (v : View) : Prop where
  marked : ∀ p, (v.mem.node p).shouldRemove = (v.mem.recv p).any RecvPc.marked
  inactive : ∀ p, (v.mem.node p).shouldRemove = true → (v.mem.node p).active = false
  outside : v.mem.connMutex = none → ∀ p, (v.mem.recv p).any RecvPc.inside = false

theorem SetupMove.not_mark {q : SetupPc} {q' : Option SetupPc} (h : SetupMove m ch q op q') : op ≠ .mark p := by
  cases h <;> simp

theorem MainMove.not_mark (h : MainMove m d ch k op k') : op ≠ .mark p := by
  cases h <;> simp

theorem MainMove.not_alloc (h : MainMove m d ch k op k') : op.isAlloc = false := by
  cases h <;> rfl

/-- A step of a thread other than the record's own sets no flag of an existing record. -/
theorem flags_apply (hx : op.isAlloc = true → p ≠ m.allocs) (hm : op ≠ .mark p) :
    ((m.apply t op).node p).shouldRemove = (m.node p).shouldRemove := by
  rw [apply_shouldRemove op hx]
  simp [hm]

/-- A marked record is inactive after any operation that keeps it marked or marks it. -/
theorem inactive_apply (hI : (m.node p).shouldRemove = true → (m.node p).active = false)
    (h : ((m.apply t op).node p).shouldRemove = true) : ((m.apply t op).node p).active = false := by
  rcases op.alloc_or m p with ⟨fd, c, ip, port, rfl, rfl⟩ | hx
  · rw [(apply_alloc fd c ip port).2] at h; cases h
  · rw [apply_shouldRemove op hx] at h
    rw [apply_active op hx]
    by_cases hm : op = .mark p
    · simp [hm]
    · have hold : (m.node p).shouldRemove = true := by simpa [hm] using h
      simp [hI hold]

/-- The set-up makes a thread for a record that has none, and nobody else's flags change. -/
theorem marked_setup {q : SetupPc} {q' : Option SetupPc} (hb : m.recv m.allocs = none)
    (hu : ∀ p, q.unmade = some p → m.recv p = none)
    (hI : ∀ p, (m.node p).shouldRemove = (m.recv p).any RecvPc.marked) (h : SetupMove m ch q op q') (x : Ptr) :
    ((m.apply t op).node x).shouldRemove = ((m.apply t op).recv x).any RecvPc.marked := by
  rcases op.alloc_or m x with ⟨fd, c, ip, port, rfl, rfl⟩ | hx
  · rw [(apply_alloc fd c ip port).2, apply_recv, if_neg (by simp), hb]
    rfl
  · -- a thread starts outside its marking block, and there was none before
    rw [flags_apply hx h.not_mark, hI x, apply_recv]
    by_cases hc : op = .create x
    · have hnone : m.recv x = none := by
        subst hc
        cases h with
        | create p fd hch => exact hu x rfl
      rw [if_pos hc, hnone]; rfl
    · rw [if_neg hc]

/-- A receive thread sets its own flag, when it passes its marking block. -/
theorem marked_recv {q q' : RecvPc} (hq : m.recv p = some q)
    (hI : ∀ p, (m.node p).shouldRemove = (m.recv p).any RecvPc.marked) (h : RecvMove m p q op q') (x : Ptr) :
    (((m.apply (.recv p) op).setRecv p q').node x).shouldRemove =
      (((m.apply (.recv p) op).setRecv p q').recv x).any RecvPc.marked := by
  have hna : op.isAlloc = true → x ≠ m.allocs := by
    cases h <;> intro ha <;> cases ha
  show ((m.apply (.recv p) op).node x).shouldRemove = _
  rw [apply_shouldRemove op hna, hI x]
  by_cases hx : x = p
  · subst hx
    rw [hq]
    cases h <;> simp [Mem.setRecv, RecvPc.marked]
  · have hop : op ≠ .mark x := by cases h <;> simp [Ne.symm hx]
    have hrecv : ((m.apply (.recv p) op).setRecv p q').recv x = m.recv x := by
      simp [Mem.setRecv, hx, h.recv_eq]
    rw [hrecv]
    simp [hop]

theorem marked_step {v v' : View} {l : Label} (hR : v.Records)
    (hI : ∀ p, (v.mem.node p).shouldRemove = (v.mem.recv p).any RecvPc.marked) (h : Move v l v') (x : Ptr) :
    (v'.mem.node x).shouldRemove = (v'.mem.recv x).any RecvPc.marked := by
  cases h with
  | @setup m su k d l t ch q op q' hl hs ht h =>
    have hb : m.recv m.allocs = none := by
      by_contra hr
      exact absurd (hR.thread _ hr).1 (lt_irrefl _)
    exact marked_setup hb (hR.unmade t q hs) hI h x
  | @main m su k d l ch op k' hl hs h =>
    have hna : op.isAlloc = true → x ≠ m.allocs := by
      rw [h.not_alloc]; nofun
    show ((m.apply .main op).node x).shouldRemove = ((m.apply .main op).recv x).any RecvPc.marked
    rw [flags_apply hna h.not_mark, h.recv_eq]
    exact hI x
  | recv hq h => exact marked_recv hq hI h x
  | _ => exact hI x

theorem inactive_step {v v' : View} {l : Label}
    (hI : ∀ p, (v.mem.node p).shouldRemove = true → (v.mem.node p).active = false) (h : Move v l v') (x : Ptr)
    (hx : (v'.mem.node x).shouldRemove = true) : (v'.mem.node x).active = false := by
  cases h with
  | setup hl hs ht h => exact inactive_apply (hI x) hx
  | main hl hs h => exact inactive_apply (hI x) hx
  | recv hq h => exact inactive_apply (hI x) hx
  | _ => exact hI x hx

/-- The main thread changes `conn_mutex` only when it is free, or inside. -/
theorem MainMove.mutex (h : MainMove m d ch k op k') :
    (m.apply .main op).connMutex = m.connMutex ∨ (m.apply .main op).connMutex ≠ none ∨ k.inside = true := by
  cases h with
  | lock w hm => exact .inr (.inl nofun)
  | relock b p hm => exact .inr (.inl nofun)
  | exitLock hm => exact .inr (.inl nofun)
  | exitRelock hm => exact .inr (.inl nofun)
  | leave => exact .inr (.inr rfl)
  | leaveExit => exact .inr (.inr rfl)
  | unlockFound p => exact .inr (.inr rfl)
  | unlockFailed p => exact .inr (.inr rfl)
  | unlockDoomed p => exact .inr (.inr rfl)
  | unlockClosed p => exact .inr (.inr rfl)
  | unlockPassed => exact .inr (.inr rfl)
  | exitLeave => exact .inr (.inr rfl)
  | _ => exact .inl rfl

/-- While `conn_mutex` is free no receive thread is inside, also when the process has ended. -/
theorem outside_step {v v' : View} {l : Label} (hv : v.stage ≠ .ended) (hR : v.Records) (hO : v.Owner)
    (h : Move v l v') (hfree : v'.mem.connMutex = none) (x : Ptr) : (v'.mem.recv x).any RecvPc.inside = false := by
  by_cases hv' : v'.stage = .ended
  · -- the main thread has ended the process, and left the receive threads where they were
    cases h with
    | @main m su k d l ch op k' hl hs h =>
      have hfree : (m.apply .main op).connMutex = none := hfree
      show ((m.apply .main op).recv x).any RecvPc.inside = false
      rw [h.recv_eq]
      by_contra hin
      have hin : View.inside ⟨m, su, k, d⟩ (.recv x) = true := by simpa [View.inside] using hin
      rcases h.mutex with he | hne | hk
      · exact (hO hv).free (he.symm.trans hfree) hin
      · exact hne hfree
      · -- the mutex it gave back was its own
        have hmain : View.inside ⟨m, su, k, d⟩ .main = true := by simp [View.inside, hk]
        have := hO.excl hv hin hmain
        cases this
    | connected a hs => cases hv'
    | _ => exact absurd hv' hv
  · by_contra hin
    have hin : v'.inside (.recv x) = true := by simpa [View.inside] using hin
    exact ((owner_step hv hR hO h) hv').free hfree hin

theorem flags_reach {C : View → Label → Prop} (h : ReachView E C s) : s.view.Flags := by
  refine view_inv (J := fun v => v.Records ∧ v.Owner) (fun _ => records_owner) ?_ ?_ h
  · exact ⟨fun _ => rfl, nofun, fun _ _ => rfl⟩
  · rintro v l v' hv ⟨hR, hO⟩ hI - hm
    exact ⟨marked_step hR hI.marked hm, inactive_step hI.inactive hm, outside_step hv hR hO hm⟩

/-! ## One step -/

/-- **A step changes each flag in one direction only**: a record that is inactive or marked stays so. -/
theorem flags_keep {l : Label} (h : (chat E).step s l = some s') (hp : p < s.mem.allocs) :
    p < s'.mem.allocs ∧ ((s.mem.node p).shouldRemove = true → (s'.mem.node p).shouldRemove = true) ∧
      ((s.mem.node p).active = false → (s'.mem.node p).active = false) := by
  have key (t : Tid) (op : Op) : p < (s.mem.apply t op).allocs ∧
      ((s.mem.node p).shouldRemove = true → ((s.mem.apply t op).node p).shouldRemove = true) ∧
      ((s.mem.node p).active = false → ((s.mem.apply t op).node p).active = false) := by
    refine ⟨hp.trans_le (apply_allocs op), fun hr => ?_, fun ha => ?_⟩
    · rw [apply_shouldRemove op fun _ => hp.ne, hr]; rfl
    · rw [apply_active op fun _ => hp.ne, ha]; rfl
  rcases (step_threads h).2 with ⟨ch, op, c, rfl, -, rfl⟩ | ⟨ch, op, r, rfl, -, rfl⟩ |
    ⟨q, ch, x, op, f, rfl, -, -, rfl⟩ | ⟨c, e, rfl, -, rfl⟩
  · exact key .main op
  · exact key .listener op
  · exact key (.recv q) op
  · exact ⟨hp, id, id⟩

/-- An operation does not take a thread past its marking block. -/
theorem apply_not_marked (h : (m.recv p).any RecvPc.marked = false) :
    ((m.apply t op).recv p).any RecvPc.marked = false := by
  rw [apply_recv]
  split
  · rfl
  · exact h

/-- **Who sets `should_remove`**: the record's own thread, at its marking block. -/
theorem marked_by {l : Label} (hF : s.view.Flags) (hF' : s'.view.Flags) (h : (chat E).step s l = some s')
    (hold : (s.mem.node p).shouldRemove = false) (hnew : (s'.mem.node p).shouldRemove = true) :
    s.mem.recv p = some .mark ∧ ∃ ch, l = .recv p ch := by
  have hbefore : (s.mem.recv p).any RecvPc.marked = false := (hF.marked p).symm.trans hold
  have hafter : (s'.mem.recv p).any RecvPc.marked = true := (hF'.marked p).symm.trans hnew
  have hno (t : Tid) (op : Op) : ¬ ((s.mem.apply t op).recv p).any RecvPc.marked = true := by
    rw [apply_not_marked hbefore]; nofun
  rcases (step_threads h).2 with ⟨ch, op, c, rfl, -, rfl⟩ | ⟨ch, op, r, rfl, -, rfl⟩ |
    ⟨q, ch, x, op, f, rfl, hq, hf, rfl⟩ | ⟨c, e, rfl, -, rfl⟩
  · exact absurd hafter (hno .main op)
  · exact absurd hafter (hno .listener op)
  · by_cases hqp : p = q
    · subst hqp
      have hx : x.marked = false := by rw [hq] at hbefore; exact hbefore
      have hy : (f.lift id .finished .finished).marked = true := by simpa [Mem.setRecv] using hafter
      have hmove := recv_move hf
      refine ⟨?_, ch, rfl⟩
      -- only one step of the thread passes the block
      generalize f.lift id .finished .finished = y at hmove hy
      cases hmove with
      | mark => exact hq
      | unlock => cases hx
      | _ => cases hy
    · have hkept : ((s.mem.apply (.recv q) op).recv p).any RecvPc.marked = true := by
        simpa [Mem.setRecv, hqp] using hafter
      exact absurd hkept (hno _ op)
  · exact absurd hafter (Bool.eq_false_iff.1 hbefore)

/-! ## The flags behind the reaper -/

/-- The thread of a marked record has finished, once `conn_mutex` is free. -/
theorem View.Flags.finished {v : View} (h : v.Flags) (hfree : v.mem.connMutex = none)
    (hr : (v.mem.node p).shouldRemove = true) : v.mem.recv p = some .finished := by
  have hm : (v.mem.recv p).any RecvPc.marked = true := (h.marked p).symm.trans hr
  have hout := h.outside hfree p
  cases hq : v.mem.recv p with
  | none => rw [hq] at hm; cases hm
  | some q =>
    rw [hq] at hm hout
    cases q with
    | unlock => cases hout
    | finished => rfl
    | _ => cases hm

/-- **The removal flags**: in every reachable state in which `conn_mutex` is free, a listed record
with `should_remove` set is inactive and its thread has finished, so that the join in
`reap_connections` returns at once; a thread comes to its marking block with the flag clear, so
only once; and no step sets `active` or clears `should_remove` of an existing record, or sets
`should_remove`, except the record's own thread at that block. -/
theorem removal_flags (h : (chat E).Reachable s) :
    (s.mem.connMutex = none → ∀ p ∈ s.mem.listed, (s.mem.node p).shouldRemove = true →
      (s.mem.node p).active = false ∧ s.mem.recv p = some .finished ∧
        s.mem.joinable (s.mem.node p).thread = true) ∧
    (∀ p, s.mem.recv p = some .mark → (s.mem.node p).shouldRemove = false) ∧
    ∀ l s', (chat E).step s l = some s' → ∀ p < s.mem.allocs,
      ((s.mem.node p).shouldRemove = true → (s'.mem.node p).shouldRemove = true) ∧
      ((s.mem.node p).active = false → (s'.mem.node p).active = false) ∧
      ((s.mem.node p).shouldRemove = false → (s'.mem.node p).shouldRemove = true →
        s.mem.recv p = some .mark ∧ ∃ ch, l = .recv p ch) := by
  have hF : s.view.Flags := flags_reach (C := fun _ _ => True) h
  have hR : s.view.Records := (records_owner (C := fun _ _ => True) h).1
  refine ⟨fun hfree p _ hr => ?_, fun p hp => ?_, fun l s' hst p hp => ?_⟩
  · have hfin : s.mem.recv p = some .finished := hF.finished hfree hr
    have hthread : (s.mem.node p).thread = some p := (hR.thread p (by rw [show s.view.mem.recv p = _ from hfin]; nofun)).2
    exact ⟨hF.inactive p hr, hfin, by rw [hthread]; simp [Mem.joinable, hfin]⟩
  · have hm := hF.marked p
    rw [show s.view.mem.recv p = some .mark from hp] at hm
    exact hm
  · have hF' : s'.view.Flags := flags_reach (C := fun _ _ => True) (h.step trivial hst)
    obtain ⟨-, hr, ha⟩ := flags_keep hst hp
    exact ⟨hr, ha, marked_by hF hF' hst⟩

/-- A connection is accepted and closed by its peer; its thread is through its marking block. -/
def closedByPeer : List Label :=
  accepts 4 ++ listens 8 ++ [.recv 0 .ok, .peer 0 .close, .recv 0 .eof, .recv 0 .ok, .recv 0 .ok, .recv 0 .ok]

theorem removal_flags_closed :
    ((chat .demo).after Sync.Trans.Free closedByPeer).mem.listed = [0] ∧
    (((chat .demo).after Sync.Trans.Free closedByPeer).mem.node 0).active = false ∧
    ((chat .demo).after Sync.Trans.Free closedByPeer).mem.recv 0 = some .finished := by
  refine ⟨by decide +kernel, ?_⟩
  have hflags := (removal_flags (E := .demo) (Sync.Trans.reach_after closedByPeer)).1 (by decide +kernel) 0
    (by decide +kernel) (by decide +kernel)
  exact ⟨hflags.1, hflags.2.1⟩

end Chat
