import LinuxExercises.Proof.Pass
import LinuxExercises.Proof.Sockets
import LinuxExercises.Proof.Release

/-!
# Every socket is closed once

* `reap_leaks`: `reap_connections` frees a record without closing its socket.
* `closed_once`: every socket is closed at most once, and exactly once by the time its record
  is released, as long as no record that ended by itself is reaped or met by the pass of
  `cmd_exit`, no thread is made for a record behind that pass, and no record is closed both
  by the main thread and by the set-up that takes it back.
-/

namespace Chat

/-- **A socket is closed at most once**, and it has been closed when its record is released. -/
def State.ClosedOnce (s : State) : Prop :=
  ∀ p, (s.mem.hist p).closes.length ≤ 1 ∧
    (∀ f ∈ (s.mem.hist p).closes, f = some (.conn (s.mem.hist p).sock)) ∧
    ((s.mem.hist p).life = .released → (s.mem.hist p).closes.length = 1)

/-- A set-up at its `pthread_create`. -/
def SetupPc.toCreate : SetupPc → Option Ptr
  | .create p _ => some p
  | _ => none

/-- `reap_connections` finds nothing to remove, the pass of `cmd_exit` meets active records
only, and behind it `pthread_create` succeeds only for records that it has closed; a set-up
takes back no record that the main thread has closed, and the main thread closes none that
the listener has taken back and waits to unlink. -/
def OneCloser (v : View) (l : Label) : Prop :=
  NoReap v l ∧ PassActive v l ∧
  (l = .listener .ok → v.stage = .waiting →
    ∀ p ∈ (v.setup .listener).bind SetupPc.toCreate, (v.mem.node p).active = false) ∧
  (∀ p ∈ v.rollback l, (v.mem.node p).active = true ∧ v.stage.clearing ≠ some p) ∧
  (l.by .main = true → ∀ p ∈ v.stage.toClose, v.setup .listener ≠ some (.rbLock p))

instance (v : View) (l : Label) : Decidable (OneCloser v l) := by unfold OneCloser; infer_instance

/-- The listener has still to make the thread of a record that it has listed behind the pass
of `cmd_exit`, or to take the record back. -/
def View.Behind (v : View) (p : Ptr) : Prop :=
  v.stage = .waiting ∧ ∃ q, v.setup .listener = some q ∧ ∃ fd, q.open = some (p, fd)

/-- The closes so far. -/
structure View.Accounts (v : View) : Prop where
  ledger : ∀ p, (v.mem.hist p).closes = [] ∨ (v.mem.hist p).closes = [some (.conn (v.mem.hist p).sock)]
  noReap : v.stage.reaping = false
  released : ∀ p, (v.mem.hist p).life = .released → (v.mem.hist p).closes ≠ []
  swept : v.Swept fun p => (v.mem.hist p).closes ≠ [] ∨ v.Behind p

variable {m : Mem} {su : Tid → Option SetupPc} {k k' : Stage} {d d' : Bool} {t : Tid} {ch : Choice} {op : Op}
  {q : SetupPc} {q' : Option SetupPc} {p : Ptr}

/-- **Every close is the first one of its record.** -/
theorem OneCloser.first {E : Env} {C : View → Label → Prop} {s : State} (h : ReachView E C s) {l : Label}
    (hC : OneCloser s.view l) : ∀ p ∈ s.view.closes l, (s.mem.hist p).closes = [] := by
  have hB : s.view.Base := base_reach h
  have hK : s.view.Closing := closing_reach h
  obtain ⟨L, hL, -, hok⟩ := hB.registry
  intro p hp
  by_contra hc
  cases hr : s.view.rollback l with
  | some x =>
    obtain rfl : x = p := by simpa [View.closes, hr] using hp
    obtain ⟨w, -, hw⟩ := Option.bind_eq_some_iff.1 hr
    obtain ⟨q, hs, hq⟩ := Option.bind_eq_some_iff.1 hw
    obtain ⟨fd, ho⟩ : ∃ fd, q.open = some (x, fd) := by cases q <;> cases hq; exact ⟨_, rfl⟩
    obtain ⟨ha, hk⟩ := hC.2.2.2.1 x hr
    rcases hK.own w.1 q hs x fd ho hc with hn | hn
    · exact absurd (ha.symm.trans hn) (by simp)
    · exact hk hn
  | none =>
    have hmain : l.by .main = true ∧ s.view.stage.toClose = some p := by
      simp only [View.closes, hr, Option.none_or, Option.mem_def] at hp
      split at hp
      · rename_i hby; exact ⟨hby, hp⟩
      · cases hp
    obtain ⟨b, hk⟩ : ∃ b, s.view.stage = .close b p := by
      cases hst : s.view.stage <;> rw [hst] at hmain <;> cases hmain.2; exact ⟨_, rfl⟩
    have hin : s.view.inside .main = true := by simp [View.inside, hk, Stage.inside]
    have hne : s.view.stage ≠ .ended := by simp [hk]
    rw [hk] at hok
    rcases hK.listed p ((hL.mem_iff p).1 hok) hc with h | h | ⟨t, q, hs, hq⟩ | ⟨hlv, ha⟩
    · rw [hk] at h; cases h
    · rw [hk] at h; cases h
    · cases t with
      | main =>
        have hrest : s.view.stage = .rest := s.stage_rest hs
        rw [hk] at hrest; cases hrest
      | listener =>
        have hout := hB.owner.setup_outside hne hB.records hin (by simp) hs
        have hlock : q = .rbLock p := by cases q <;> first | (cases hq; rfl) | (cases hq; cases hout) | cases hq
        exact hC.2.2.2.2 hmain.1 p hmain.2 (hlock ▸ hs)
      | recv x => cases hs
    · -- the pass has found the record active
      have hb : b = .exit := by
        cases b <;> first | rfl | (rw [hk] at hlv; cases hlv)
      have hp := hK.passing p (by rw [hk, hb]; rfl)
      exact absurd (hp.symm.trans ha) (by simp)

/-- A first close hits the record's own socket. -/
theorem ledger_apply (hI : ∀ p, (m.hist p).closes = [] ∨ (m.hist p).closes = [some (.conn (m.hist p).sock)])
    (hfirst : ∀ fd p, op = .close fd (some p) → (m.hist p).closes = [] ∧ m.files fd = some (.conn (m.hist p).sock))
    (p : Ptr) : ((m.apply t op).hist p).closes = [] ∨
      ((m.apply t op).hist p).closes = [some (.conn ((m.apply t op).hist p).sock)] := by
  rcases op.alloc_or m p with ⟨fd, c, ip, port, rfl, rfl⟩ | hpa
  · left; rw [(apply_alloc fd c ip port).1]
  · rw [apply_sock op hpa]
    by_cases hop : ∃ fd, op = .close fd (some p)
    · obtain ⟨fd, rfl⟩ := hop
      obtain ⟨hc, hf⟩ := hfirst fd p rfl
      right
      rw [closes_self, hc, hf]; rfl
    · have hsame : ((m.apply t op).hist p).closes = (m.hist p).closes := by
        rw [apply_closes op hpa]
        cases op with
        | close fd x =>
          have hx : x ≠ some p := by rintro rfl; exact hop ⟨fd, rfl⟩
          simp [hx]
        | _ => simp
      rw [hsame]; exact hI p

theorem closes_released (hI : ∀ p, (m.hist p).life = .released → (m.hist p).closes ≠ [])
    (hfree : ∀ p, op = .free p → (m.hist p).closes ≠ []) (p : Ptr)
    (hp : ((m.apply t op).hist p).life = .released) : ((m.apply t op).hist p).closes ≠ [] := by
  rcases op.alloc_or m p with ⟨fd, c, ip, port, rfl, rfl⟩ | hpa
  · rw [(apply_alloc fd c ip port).1] at hp; cases hp
  · have hold : (m.hist p).closes ≠ [] := by
      rw [apply_life op hpa] at hp
      split at hp
      · cases hp
      · split at hp
        · rename_i hop; exact hfree p hop
        · exact hI p hp
    rw [apply_closes op hpa]; simp [hold]

theorem SetupMove.free_closed (h : SetupMove m ch q (.free p) q') : q.closed = some p := by
  cases h; rfl

theorem SetupMove.open_to {fd : Fd} (h : SetupMove m ch q op q') (hq : q.open = some (p, fd)) :
    (∃ q₁, q' = some q₁ ∧ q₁.open = some (p, fd)) ∨ op = .create p ∨ ∃ n, op = .close n (some p) := by
  cases h with
  | create x n hc => cases hq; exact .inr (.inl rfl)
  | rbClose x n => cases hq; exact .inr (.inr ⟨_, rfl⟩)
  | _ => first | exact .inl ⟨_, rfl, hq⟩ | cases hq

theorem accounts_setup {l : Label} (hv : k ≠ .ended) (hB : View.Base ⟨m, su, k, d⟩) (hF : View.Flow ⟨m, su, k, d⟩)
    (hK : View.Closing ⟨m, su, k, d⟩) (hD : View.Leased ⟨m, su, k, d⟩) (hC : OneCloser ⟨m, su, k, d⟩ l)
    (hfirst : ∀ p ∈ View.closes ⟨m, su, k, d⟩ l, (m.hist p).closes = []) (hI : View.Accounts ⟨m, su, k, d⟩)
    (hl : l.who = some (t, ch)) (hs : su t = some q) (ht : t = .main ∧ k = .rest ∨ t = .listener)
    (h : SetupMove m ch q op q') : View.Accounts ⟨m.apply t op, Function.update su t q', k, d⟩ := by
  obtain ⟨L, hL, -, -⟩ := hB.registry
  refine ⟨ledger_apply hI.ledger ?_, hI.noReap, closes_released hI.released ?_, ?_⟩
  · rintro fd p rfl
    obtain ⟨rfl, -⟩ := h.close_eq
    have hc := hfirst p (by simp [View.closes, View.rollback, hl, hs, SetupPc.toClose])
    have hown := hD.own (hB.records.bound t _ hs p rfl) hc
    have hfd : (m.node p).sockfd = fd := hK.fd t _ hs p fd rfl
    exact ⟨hc, hfd ▸ hown⟩
  · rintro p rfl
    exact hK.closed t q hs p h.free_closed
  · refine swept_setup hv hB hF hI.swept hs ht h ?_ ?_
    · rintro p hp (hc | ⟨hk, q₀, hq₀, fd, ho⟩)
      · by_cases hpa : p = m.allocs
        · subst hpa
          have := hK.inserted _ hc
          exact absurd (hL.born _ this) (lt_irrefl _)
        · exact .inl (closes_keep hpa hc)
      · -- the listener goes on with a record that is behind the pass
        obtain rfl : k = .waiting := hk
        obtain rfl : t = .listener := mover_listener ht (by simp)
        cases hs.symm.trans hq₀
        have hpa : p ≠ m.allocs := hB.bound_setup hs (SetupPc.node_of_open ho).2
        rcases h.open_to ho with ⟨q₁, rfl, ho₁⟩ | rfl | ⟨n, rfl⟩
        · exact .inr ⟨rfl, q₁, Function.update_self Tid.listener (some q₁) su, fd, ho₁⟩
        · left
          cases h with
          | create p fd' hch =>
            have hlab : l = .listener .ok := by
              cases l <;> cases hl
              rw [hch]
            have hmk : (su .listener).bind SetupPc.toCreate = some p := by rw [hs]; rfl
            exact hK.theirs .listener _ hs p fd ho (hC.2.2.1 hlab rfl p hmk)
        · exact .inl (by rw [closes_self]; simp)
    · rintro p rfl hk
      cases h with
      | publish p fd =>
        obtain rfl : t = .listener := mover_listener ht (by rintro rfl; cases hk)
        exact .inr ⟨hk, .unlock p fd, Function.update_self Tid.listener (some (.unlock p fd)) su, fd, rfl⟩

theorem MainMove.waiting_to (h : MainMove m d ch k op k') (hk : k = .waiting) : k' = .waiting ∨ d = true := by
  cases h with
  | stay => exact .inl hk
  | joinListener hd => exact .inr hd
  | _ => cases hk

theorem accounts_main {l : Label} (hB : View.Base ⟨m, su, k, d⟩) (hF : View.Flow ⟨m, su, k, d⟩)
    (hK : View.Closing ⟨m, su, k, d⟩) (hD : View.Leased ⟨m, su, k, d⟩) (hC : OneCloser ⟨m, su, k, d⟩ l)
    (hfirst : ∀ p ∈ View.closes ⟨m, su, k, d⟩ l, (m.hist p).closes = []) (hI : View.Accounts ⟨m, su, k, d⟩)
    (hl : l.who = some (.main, ch)) (hs : su .main = none) (h : MainMove m d ch k op k') :
    View.Accounts ⟨m.apply .main op, su, k', d⟩ := by
  obtain ⟨L, hL, -, hok⟩ := hB.registry
  have hna : op.isAlloc = false := by cases h <;> rfl
  refine ⟨ledger_apply hI.ledger ?_, reaping_main hC.1 hI.noReap hl h, closes_released hI.released ?_, ?_⟩
  · rintro fd p rfl
    obtain ⟨rfl, b, rfl, -⟩ := h.close_eq
    have hc := hfirst p (by simp [View.closes, View.rollback, Label.by, hl, hs, Stage.toClose])
    exact ⟨hc, hD.own (hL.born p (hL.inserted hok)) hc⟩
  · rintro p rfl
    rcases h.free_of with ⟨b, rfl, hb⟩ | ⟨rfl, -⟩
    · have hnr := hI.noReap
      cases b with
      | terminate => exact (hK.cleared p rfl).1
      | _ => first | exact absurd rfl hb | cases hnr
    · -- the record is listed, and the listener is through
      rcases (hI.swept none rfl p ((hL.mem_iff p).1 hok)).resolve_right Sync.from_none with hc | ⟨hk, -⟩
      · exact hc
      · cases hk
  · refine swept_main hB hC.2.1 hI.swept hl h ?_ ?_
    · rintro p - (hc | ⟨hk, q₀, hq₀, fd, ho⟩)
      · left
        rw [apply_closes op (by simp [hna])]; simp [hc]
      · rcases h.waiting_to hk with rfl | hd
        · exact .inr ⟨rfl, q₀, hq₀, fd, ho⟩
        · cases (hF.done hd).symm.trans hq₀
    · rintro p rfl -
      left
      rw [apply_closes op (by simp [hna])]; simp [hK.clearing p rfl]

theorem accounts_step {v v' : View} {l : Label} (hv : v.stage ≠ .ended) (hB : v.Base) (hF : v.Flow) (hK : v.Closing)
    (hD : v.Leased) (hC : OneCloser v l) (hfirst : ∀ p ∈ v.closes l, (v.mem.hist p).closes = []) (hI : v.Accounts)
    (h : Move v l v') : v'.Accounts := by
  cases h with
  | setup hl hs ht h => exact accounts_setup hv hB hF hK hD hC hfirst hI hl hs ht h
  | main hl hs h => exact accounts_main hB hF hK hD hC hfirst hI hl hs h
  | connected a hs => exact ⟨hI.ledger, rfl, hI.released, by rintro cur ⟨⟩⟩
  | @accepted m su k l n a hl hs hn =>
    refine ⟨hI.ledger, hI.noReap, hI.released, fun cur hcur p hp => (hI.swept cur hcur p hp).imp_left ?_⟩
    rintro (hc | ⟨-, q, hq, -⟩)
    · exact .inl hc
    · cases hs.symm.trans hq
  | listen => exact hI
  | listenerEnds hs hr =>
    refine ⟨hI.ledger, hI.noReap, hI.released, fun cur hcur p hp => (hI.swept cur hcur p hp).imp_left ?_⟩
    rintro (hc | ⟨-, q, hq, -⟩)
    · exact .inl hc
    · cases hs.symm.trans hq
  | recv hq h => cases h <;> exact ⟨hI.ledger, hI.noReap, hI.released, hI.swept⟩
  | peer hc => exact ⟨hI.ledger, hI.noReap, hI.released, hI.swept⟩

/-- **Socket accounting**: in every run in which every record has one closer, every socket is
closed at most once, by the close for its record, and exactly once by the time the record
is released. -/
theorem closed_once {E : Env} {s : State} (h : ReachView E OneCloser s) : s.ClosedOnce := by
  have hclean (s : State) (hr : ReachView E OneCloser s) (l : Label) (hC : OneCloser s.view l) : Clean s.view l :=
    fun p hp => .inl (hC.first hr p hp)
  have hI : s.view.Accounts := by
    refine view_inv (J := fun v => ((v.Base ∧ v.Flow) ∧ v.Closing ∧ v.Leased) ∧
      ∀ l, OneCloser v l → ∀ p ∈ v.closes l, (v.mem.hist p).closes = []) ?_ ?_ ?_ h
    · intro s hr
      obtain ⟨hB, hF, -⟩ := flow_reach hr
      exact ⟨⟨⟨hB, hF⟩, closing_reach hr, leases_reach hclean hr⟩, fun l hC => hC.first hr⟩
    · exact ⟨fun p => .inl rfl, rfl, by rintro p ⟨⟩, by rintro cur ⟨⟩⟩
    · rintro v l v' hv ⟨⟨⟨hB, hF⟩, hK, hD⟩, hfirst⟩ hI hC hm
      exact accounts_step hv hB hF hK hD hC (hfirst l hC) hI hm
  intro p
  have hledger : (s.mem.hist p).closes = [] ∨ (s.mem.hist p).closes = [some (.conn (s.mem.hist p).sock)] := hI.ledger p
  rcases hledger with hc | hc
  · refine ⟨by simp [hc], by simp [hc], fun hr => absurd hc (hI.released p hr)⟩
  · exact ⟨by simp [hc], by simp [hc], fun _ => by simp [hc]⟩

theorem closed_once_careful :
    (((chat .demo).after (fun s l => OneCloser s.view l) carefulTerminate).mem.hist 0).life = .released ∧
    ((chat .demo).after (fun s l => OneCloser s.view l) carefulTerminate).ClosedOnce :=
  ⟨by decide +kernel, closed_once (Sync.Trans.reach_after _)⟩

/-- **A socket that is never closed**: its peer ends the connection, and `reap_connections`
frees the record. -/
theorem reap_leaks : ¬ ∀ (E : Env) (s : State), (chat E).Reachable s → s.ClosedOnce :=
  fun h => absurd ((h .demo _ (Sync.Trans.reach_after reapClosed) 0).2.2 (by decide +kernel)) (by decide +kernel)

end Chat
