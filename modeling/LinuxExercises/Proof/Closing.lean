import LinuxExercises.Proof.Frame

/-!
# Who closes a connection

* `closing_reach`: in every run a listed record that has been closed is in the hands of
  `cmd_terminate`, is being taken back by the set-up that made it, or has been met by the
  pass of `cmd_exit`; and a set-up that has still to make a thread knows by `active`
  whether the main thread has closed its record.
-/

namespace Chat

/-- The record and descriptor of a set-up up to its own `close`. -/
def SetupPc.open : SetupPc → Option (Ptr × Fd)
  | .lock p fd | .link p fd | .publish p fd | .unlock p fd | .create p fd | .rbClose p fd => some (p, fd)
  | _ => none

/-- The record of a set-up that has closed it. -/
def SetupPc.closed : SetupPc → Option Ptr
  | .rbLock p | .rbFind p | .rbUnlink p _ | .rbFree p => some p
  | _ => none

/-- The main thread has closed the record, and is at `active = 0`. -/
def Stage.clearing : Stage → Option Ptr
  | .clear _ p => some p
  | _ => none

/-- The record that `cmd_terminate` has closed and marked inactive. -/
def Stage.cleared : Stage → Option Ptr
  | .closed p | .join .terminate p | .joining .terminate p _ | .relock .terminate p => some p
  | .find .terminate p | .unlink .terminate p _ | .free .terminate p => some p
  | _ => none

/-- The record that the pass of `cmd_exit` is at. -/
def Stage.passing : Stage → Option Ptr
  | .send .exit p | .shutdown .exit p | .close .exit p | .clear .exit p => some p
  | _ => none

/-- `cmd_exit` is on its way, or over. -/
def Stage.leaving (k : Stage) : Bool := k.exiting || k = .ended

variable {m : Mem} {t : Tid} {ch : Choice} {op : Op} {d : Bool} {k k' : Stage} {p : Ptr} {fd : Fd}

theorem SetupPc.node_of_open {q : SetupPc} (h : q.open = some (p, fd)) : q.unmade = some p ∧ q.node = some p := by
  cases q <;> cases h <;> exact ⟨rfl, rfl⟩

theorem SetupPc.node_of_closed {q : SetupPc} (h : q.closed = some p) : q.node = some p := by
  cases q <;> first | exact h | cases h

theorem Stage.node_of_clearing (h : k.clearing = some p) : k.node = some p := by
  cases k <;> first | exact h | cases h

theorem Stage.node_of_cleared (h : k.cleared = some p) : k.node = some p := by
  cases k with
  | join b x => cases b <;> first | exact h | cases h
  | joining b x t => cases b <;> first | exact h | cases h
  | relock b x => cases b <;> first | exact h | cases h
  | find b x => cases b <;> first | exact h | cases h
  | unlink b x prev => cases b <;> first | exact h | cases h
  | free b x => cases b <;> first | exact h | cases h
  | _ => first | exact h | cases h

theorem Stage.passing_inside (h : k.passing = some p) : k.node = some p ∧ k.inside = true := by
  cases k with
  | send b x => cases b <;> cases h; exact ⟨rfl, rfl⟩
  | shutdown b x => cases b <;> cases h; exact ⟨rfl, rfl⟩
  | close b x => cases b <;> cases h; exact ⟨rfl, rfl⟩
  | clear b x => cases b <;> cases h; exact ⟨rfl, rfl⟩
  | _ => cases h

/-- **The state of closed records.** -/
structure View.Closing (v : View) : Prop where
  fd : ∀ t q, v.setup t = some q → ∀ p fd, q.open = some (p, fd) → (v.mem.node p).sockfd = fd
  own : ∀ t q, v.setup t = some q → ∀ p fd, q.open = some (p, fd) → (v.mem.hist p).closes ≠ [] →
    (v.mem.node p).active = false ∨ v.stage.clearing = some p
  theirs : ∀ t q, v.setup t = some q → ∀ p fd, q.open = some (p, fd) → (v.mem.node p).active = false →
    (v.mem.hist p).closes ≠ []
  closed : ∀ t q, v.setup t = some q → ∀ p, q.closed = some p → (v.mem.hist p).closes ≠ []
  clearing : ∀ p, v.stage.clearing = some p → (v.mem.hist p).closes ≠ []
  cleared : ∀ p, v.stage.cleared = some p → (v.mem.hist p).closes ≠ [] ∧ (v.mem.node p).active = false
  passing : ∀ p, v.stage.passing = some p → (v.mem.node p).active = true
  inserted : ∀ p, (v.mem.hist p).closes ≠ [] → p ∈ v.mem.inserted
  listed : ∀ p, v.mem.Listed p → (v.mem.hist p).closes ≠ [] →
    v.stage.clearing = some p ∨ v.stage.cleared = some p ∨ (∃ t q, v.setup t = some q ∧ q.closed = some p) ∨
    v.stage.leaving = true ∧ (v.mem.node p).active = false

/-! ## Closes and `active` after an operation -/

theorem closes_of (h : ((m.apply t op).hist p).closes ≠ []) :
    (m.hist p).closes ≠ [] ∨ ∃ fd, op = .close fd (some p) := by
  rcases op.alloc_or m p with ⟨fd, c, ip, port, rfl, rfl⟩ | hpa
  · rw [(apply_alloc fd c ip port).1] at h; exact absurd rfl h
  · rw [apply_closes op hpa] at h
    cases op with
    | close fd q =>
      by_cases hq : q = some p
      · exact .inr ⟨fd, by rw [hq]⟩
      · exact .inl (by simpa [hq] using h)
    | _ => exact .inl (by simpa using h)

theorem closes_keep (hp : p ≠ m.allocs) (h : (m.hist p).closes ≠ []) : ((m.apply t op).hist p).closes ≠ [] := by
  rw [apply_closes op (fun _ => hp)]; simp [h]

theorem closes_self : ((m.apply t (.close fd (some p))).hist p).closes = (m.hist p).closes ++ [m.files fd] := by
  simp [Mem.apply]

theorem inactive_of (h : ((m.apply t op).node p).active = false) :
    (m.node p).active = false ∨ op = .deactivate p ∨ op = .mark p := by
  rcases op.alloc_or m p with ⟨fd, c, ip, port, rfl, rfl⟩ | hpa
  · rw [(apply_alloc fd c ip port).2] at h; cases h
  · rw [apply_active op hpa] at h
    simp only [Bool.and_eq_false_iff, Bool.not_eq_false', decide_eq_true_eq] at h
    tauto

theorem inactive_keep (hp : p ≠ m.allocs) (h : (m.node p).active = false) :
    ((m.apply t op).node p).active = false := by
  rw [apply_active op (fun _ => hp), h]; rfl

theorem active_keep (hp : p ≠ m.allocs) (hd : op ≠ .deactivate p) (hm : op ≠ .mark p)
    (h : (m.node p).active = true) : ((m.apply t op).node p).active = true := by
  rw [apply_active op (fun _ => hp), h]; simp [hd, hm]

/-! ## What the moves do -/

theorem SetupMove.open_of {q q₁ : SetupPc} {q' : Option SetupPc} (h : SetupMove m ch q op q')
    (hq : q' = some q₁) (hp : q₁.open = some (p, fd)) :
    (∀ n x, op ≠ .close n (some x)) ∧
    (q.open = some (p, fd) ∨ ∃ c ip port, op = .alloc fd c ip port ∧ p = m.allocs) := by
  cases h with
  | alloc fd c a ip port => cases hq; cases hp; exact ⟨by simp, .inr ⟨c, ip, port, rfl, rfl⟩⟩
  | _ => cases hq <;> first | exact ⟨by simp, .inl hp⟩ | cases hp

theorem SetupMove.closed_of {q q₁ : SetupPc} {q' : Option SetupPc} (h : SetupMove m ch q op q')
    (hq : q' = some q₁) (hp : q₁.closed = some p) : q.closed = some p ∨ ∃ n, op = .close n (some p) := by
  cases h with
  | rbClose x fd => cases hq; cases hp; exact .inr ⟨fd, rfl⟩
  | _ => cases hq <;> first | exact .inl hp | cases hp

theorem SetupMove.closed_to {q : SetupPc} {q' : Option SetupPc} (h : SetupMove m ch q op q')
    (hp : q.closed = some p) : (∃ q₁, q' = some q₁ ∧ q₁.closed = some p) ∨ q = .rbFree p := by
  cases h with
  | rbFree x => cases hp; exact .inr rfl
  | _ => first | exact .inl ⟨_, rfl, hp⟩ | cases hp

theorem SetupMove.close_eq {q : SetupPc} {q' : Option SetupPc} (h : SetupMove m ch q (.close fd (some p)) q') :
    q = .rbClose p fd ∧ q' = some (.rbLock p) := by
  cases h; exact ⟨rfl, rfl⟩

theorem SetupMove.not_deactivate {q : SetupPc} {q' : Option SetupPc} (h : SetupMove m ch q op q') :
    op ≠ .deactivate p ∧ op ≠ .mark p := by
  cases h <;> exact ⟨by simp, by simp⟩

theorem MainMove.close_eq (h : MainMove m d ch k (.close fd (some p)) k') :
    fd = (m.node p).sockfd ∧ ∃ b, k = .close b p ∧ k' = .clear b p := by
  cases h with
  | close b p => exact ⟨rfl, b, rfl, rfl⟩

theorem MainMove.deactivate_eq (h : MainMove m d ch k (.deactivate p) k') :
    k.clearing = some p ∧ (k'.cleared = some p ∨ k'.leaving = true) := by
  cases h with
  | clear => exact ⟨rfl, .inl rfl⟩
  | clearExit => exact ⟨rfl, .inr rfl⟩

theorem MainMove.clearing_of (h : MainMove m d ch k op k') (hp : k'.clearing = some p) :
    k.clearing = some p ∨ ∃ fd, op = .close fd (some p) := by
  cases h with
  | close b x => cases hp; exact .inr ⟨_, rfl⟩
  | _ => first | exact .inl hp | cases hp

theorem MainMove.clearing_to (h : MainMove m d ch k op k') (hp : k.clearing = some p) :
    k'.clearing = some p ∨ op = .deactivate p := by
  cases h with
  | clear x => cases hp; exact .inr rfl
  | clearExit x => cases hp; exact .inr rfl
  | _ => first | exact .inl hp | cases hp

theorem MainMove.cleared_of (h : MainMove m d ch k op k') (hp : k'.cleared = some p) :
    k.cleared = some p ∨ op = .deactivate p := by
  cases h with
  | clear x => cases hp; exact .inr rfl
  | unlockDoomed x => cases hp
  | unlockClosed x => exact .inl hp
  | join b x => cases b <;> exact .inl hp
  | joined b x t hj => cases b <;> exact .inl hp
  | relock b x hm => cases b <;> exact .inl hp
  | findHit b x prev hf => cases b <;> exact .inl hp
  | unlink b x prev => cases b <;> exact .inl hp
  | _ => first | exact .inl hp | cases hp

/-- `cmd_terminate` keeps what it has cleared in hand until it is off the list. -/
theorem MainMove.cleared_to (h : MainMove m d ch k op k') (hp : k.cleared = some p) :
    k'.cleared = some p ∨ (∃ prev, op = .unlink p prev) ∨ Sync.findPrev p none m.listed = none ∨
    k = .free .terminate p := by
  cases h with
  | unlockClosed x => exact .inl hp
  | join b x => cases b <;> exact .inl hp
  | joined b x t hj => cases b <;> exact .inl hp
  | relock b x hm => cases b <;> exact .inl hp
  | findHit b x prev hf => cases b <;> exact .inl hp
  | findMiss b x w hf => cases b <;> cases hp; exact .inr (.inr (.inl hf))
  | unlink b x prev => cases b <;> cases hp; exact .inr (.inl ⟨prev, rfl⟩)
  | free x => cases hp; exact .inr (.inr (.inr rfl))
  | _ => first | exact .inl hp | cases hp

theorem MainMove.passing_of (h : MainMove m d ch k op k') (hp : k'.passing = some p) :
    (∀ x, op ≠ .deactivate x) ∧ (k.passing = some p ∨ (m.node p).active = true) := by
  cases h with
  | stay => exact ⟨by simp, .inl hp⟩
  | send b x => cases b <;> cases hp; exact ⟨by simp, .inl rfl⟩
  | shutdown b x => cases b <;> cases hp; exact ⟨by simp, .inl rfl⟩
  | close b x => cases b <;> cases hp; exact ⟨by simp, .inl rfl⟩
  | passPick x ha => cases hp; exact ⟨by simp, .inr ha⟩
  | _ => cases hp

theorem MainMove.leaving_to (h : MainMove m d ch k op k') (hk : k.leaving = true) : k'.leaving = true := by
  cases h with
  | send b x => cases b <;> first | rfl | cases hk
  | shutdown b x => cases b <;> first | rfl | cases hk
  | close b x => cases b <;> first | rfl | cases hk
  | _ => first | rfl | exact hk

/-! ## One step -/

theorem closing_setup {su : Tid → Option SetupPc} {q : SetupPc} {q' : Option SetupPc}
    (hB : View.Base ⟨m, su, k, d⟩) (hI : View.Closing ⟨m, su, k, d⟩) (hs : su t = some q)
    (h : SetupMove m ch q op q') : View.Closing ⟨m.apply t op, Function.update su t q', k, d⟩ := by
  obtain ⟨L, hL, hS, -⟩ := hB.registry
  have hactive {p} (hp : ((m.apply t op).node p).active = false) : (m.node p).active = false := by
    rcases inactive_of hp with hp | hp | hp
    · exact hp
    · exact absurd hp h.not_deactivate.1
    · exact absurd hp h.not_deactivate.2
  have hclose {p fd} (hop : op = .close fd (some p)) : q = .rbClose p fd ∧ q' = some (.rbLock p) := by
    subst hop; exact h.close_eq
  -- the set-up that has the record in hand before its close
  have hother {t' q₁ p fd} (hne : t' ≠ t) (h₁ : su t' = some q₁) (hp : q₁.open = some (p, fd)) :
      ∀ n, op ≠ .close n (some p) := by
    intro n hop
    obtain ⟨rfl, -⟩ := hclose hop
    exact hne (hB.records.apart t' q₁ h₁ t _ hs p (SetupPc.node_of_open hp).2 rfl)
  have hbound {t' q₁ p} (h₁ : su t' = some q₁) (hp : q₁.node = some p) : p ≠ m.allocs := hB.bound_setup h₁ hp
  refine ⟨setups_update_ne ?_ ?_, setups_update_ne ?_ ?_, setups_update_ne ?_ ?_, setups_update_ne ?_ ?_,
    fun p hp => ?_, fun p hp => ?_, fun p hp => ?_, fun p hp => ?_, fun p hp hc => ?_⟩
  · intro q₁ hq p fd hp
    rcases (h.open_of hq hp).2 with ho | ⟨c, ip, port, rfl, rfl⟩
    · rw [apply_sockfd op (fun _ => hbound hs (SetupPc.node_of_open ho).2)]; exact hI.fd t q hs p fd ho
    · rw [(apply_alloc fd c ip port).2]
  · intro t' q₁ _ h₁ p fd hp
    rw [apply_sockfd op (fun _ => hbound h₁ (SetupPc.node_of_open hp).2)]; exact hI.fd t' q₁ h₁ p fd hp
  · intro q₁ hq p fd hp hc
    obtain ⟨hn, ho | ⟨c, ip, port, rfl, rfl⟩⟩ := h.open_of hq hp
    · rcases closes_of hc with hc | ⟨n, hop⟩
      · exact (hI.own t q hs p fd ho hc).imp_left (inactive_keep (hbound hs (SetupPc.node_of_open ho).2))
      · exact absurd hop (hn n p)
    · rw [(apply_alloc fd c ip port).1] at hc; exact absurd rfl hc
  · intro t' q₁ hne h₁ p fd hp hc
    rcases closes_of hc with hc | ⟨n, hop⟩
    · exact (hI.own t' q₁ h₁ p fd hp hc).imp_left (inactive_keep (hbound h₁ (SetupPc.node_of_open hp).2))
    · exact absurd hop (hother hne h₁ hp n)
  · intro q₁ hq p fd hp ha
    obtain ⟨-, ho | ⟨c, ip, port, rfl, rfl⟩⟩ := h.open_of hq hp
    · exact closes_keep (hbound hs (SetupPc.node_of_open ho).2) (hI.theirs t q hs p fd ho (hactive ha))
    · rw [(apply_alloc fd c ip port).2] at ha; cases ha
  · intro t' q₁ _ h₁ p fd hp ha
    exact closes_keep (hbound h₁ (SetupPc.node_of_open hp).2) (hI.theirs t' q₁ h₁ p fd hp (hactive ha))
  · intro q₁ hq p hp
    rcases h.closed_of hq hp with ho | ⟨n, rfl⟩
    · exact closes_keep (hbound hs (SetupPc.node_of_closed ho)) (hI.closed t q hs p ho)
    · rw [closes_self]; simp
  · intro t' q₁ _ h₁ p hp
    exact closes_keep (hbound h₁ (SetupPc.node_of_closed hp)) (hI.closed t' q₁ h₁ p hp)
  · exact closes_keep (hB.bound (Stage.node_of_clearing hp)) (hI.clearing p hp)
  · have hb := hB.bound (Stage.node_of_cleared hp)
    exact ⟨closes_keep hb (hI.cleared p hp).1, inactive_keep hb (hI.cleared p hp).2⟩
  · exact active_keep (hB.bound (Stage.passing_inside hp).1) h.not_deactivate.1 h.not_deactivate.2 (hI.passing p hp)
  · rcases closes_of hp with hp | ⟨n, hop⟩
    · exact inserted_mono op (hI.inserted p hp)
    · obtain ⟨rfl, -⟩ := hclose hop
      exact inserted_mono op (hS t _ hs)
  · have hl : m.Listed p := by
      rcases listed_of op hp with hp | rfl
      · exact hp
      · -- what is being inserted has not been closed
        have hc' : ((m.apply t (.publish p)).hist p).closes ≠ [] := hc
        rcases closes_of hc' with hc | ⟨n, hop⟩
        · have hins := hI.inserted p hc
          cases h with
          | publish p fd => exact absurd hins (hS t _ hs).1
        · cases hop
    have hborn := Nat.ne_of_lt (hL.born p hl.1)
    rcases closes_of hc with hc | ⟨n, hop⟩
    · rcases hI.listed p hl hc with hk | hk | ⟨t', q₁, h₁, hq₁⟩ | ⟨hk, ha⟩
      · exact .inl hk
      · exact .inr (.inl hk)
      · right; right; left
        by_cases hne : t' = t
        · subst hne
          cases hs.symm.trans h₁
          rcases h.closed_to hq₁ with ⟨q₂, hq₂, hp₂⟩ | rfl
          · exact ⟨t', q₂, (Function.update_self t' q' su).trans hq₂, hp₂⟩
          · exact absurd ((hL.mem_iff p).2 hl) (hS t' _ hs).2
        · exact ⟨t', q₁, (Function.update_of_ne hne _ _).trans h₁, hq₁⟩
      · exact .inr (.inr (.inr ⟨hk, inactive_keep hborn ha⟩))
    · obtain ⟨rfl, rfl⟩ := hclose hop
      exact .inr (.inr (.inl ⟨t, _, Function.update_self .., rfl⟩))

theorem closing_main {su : Tid → Option SetupPc} (hB : View.Base ⟨m, su, k, d⟩)
    (hI : View.Closing ⟨m, su, k, d⟩) (h : MainMove m d ch k op k') : View.Closing ⟨m.apply .main op, su, k', d⟩ := by
  obtain ⟨L, hL, hS, hok⟩ := hB.registry
  have hactive {p} (hp : ((m.apply .main op).node p).active = false) :
      (m.node p).active = false ∨ k.clearing = some p := by
    rcases inactive_of hp with hp | rfl | rfl
    · exact .inl hp
    · exact .inr h.deactivate_eq.1
    · cases h
  have hclose {p fd} (hop : op = .close fd (some p)) : ∃ b, k = .close b p ∧ k' = .clear b p := by
    subst hop; exact h.close_eq.2
  have hclearing {p} (hk : k.clearing = some p) : k'.clearing = some p ∨ ((m.apply .main op).node p).active = false := by
    refine (h.clearing_to hk).imp_right ?_
    rintro rfl
    rw [apply_active _ (by simp [Op.isAlloc])]; simp
  refine ⟨fun t q₁ h₁ p fd hp => ?_, fun t q₁ h₁ p fd hp hc => ?_, fun t q₁ h₁ p fd hp ha => ?_,
    fun t q₁ h₁ p hp => ?_, fun p hp => ?_, fun p hp => ?_, fun p hp => ?_, fun p hp => ?_, fun p hp hc => ?_⟩
  · rw [apply_sockfd op (fun _ => hB.bound_setup h₁ (SetupPc.node_of_open hp).2)]; exact hI.fd t q₁ h₁ p fd hp
  · rcases closes_of hc with hc | ⟨n, hop⟩
    · rcases hI.own t q₁ h₁ p fd hp hc with ha | hk
      · exact .inl (inactive_keep (hB.bound_setup h₁ (SetupPc.node_of_open hp).2) ha)
      · exact (hclearing hk).symm
    · obtain ⟨b, -, rfl⟩ := hclose hop
      exact .inr rfl
  · refine closes_keep (hB.bound_setup h₁ (SetupPc.node_of_open hp).2) ?_
    rcases hactive ha with ha | hk
    · exact hI.theirs t q₁ h₁ p fd hp ha
    · exact hI.clearing p hk
  · exact closes_keep (hB.bound_setup h₁ (SetupPc.node_of_closed hp)) (hI.closed t q₁ h₁ p hp)
  · rcases h.clearing_of hp with hk | ⟨n, rfl⟩
    · exact closes_keep (hB.bound (Stage.node_of_clearing hk)) (hI.clearing p hk)
    · rw [closes_self]; simp
  · rcases h.cleared_of hp with hk | rfl
    · have hb := hB.bound (Stage.node_of_cleared hk)
      exact ⟨closes_keep hb (hI.cleared p hk).1, inactive_keep hb (hI.cleared p hk).2⟩
    · have hk := h.deactivate_eq.1
      have hc : ((m.apply .main (.deactivate p)).hist p).closes ≠ [] :=
        closes_keep (hB.bound (Stage.node_of_clearing hk)) (hI.clearing p hk)
      refine ⟨hc, ?_⟩
      rw [apply_active _ (by simp [Op.isAlloc])]; simp
  · obtain ⟨hop, hk⟩ := h.passing_of hp
    have ha : (m.node p).active = true := by
      rcases hk with hk | ha
      · exact hI.passing p hk
      · exact ha
    rw [apply_active op (by cases h <;> simp [Op.isAlloc]), ha]
    simp only [Bool.true_and, Bool.and_eq_true, Bool.not_eq_true', decide_eq_false_iff_not]
    exact ⟨hop p, by rintro rfl; cases h⟩
  · refine inserted_mono op ?_
    rcases closes_of hp with hp | ⟨n, hop⟩
    · exact hI.inserted p hp
    · obtain ⟨b, rfl, -⟩ := hclose hop
      exact hL.inserted hok
  · have hl : m.Listed p := (listed_of op hp).resolve_right (by rintro rfl; cases h)
    rcases closes_of hc with hc | ⟨n, hop⟩
    · rcases hI.listed p hl hc with hk | hk | hk | ⟨hk, ha⟩
      · rcases h.clearing_to hk with hk | rfl
        · exact .inl hk
        · rcases h.deactivate_eq.2 with hk' | hk'
          · exact .inr (.inl hk')
          · refine .inr (.inr (.inr ⟨hk', ?_⟩))
            rw [apply_active _ (by simp [Op.isAlloc])]; simp
      · rcases h.cleared_to hk with hk | ⟨prev, rfl⟩ | hf | rfl
        · exact .inr (.inl hk)
        · exact absurd List.mem_cons_self hp.2
        · exact absurd (hB.mem_listed.2 hl) (Sync.findPrev_none.1 hf)
        · exact absurd ((hL.mem_iff p).2 hl) hok.2
      · exact .inr (.inr (.inl hk))
      · exact .inr (.inr (.inr ⟨h.leaving_to hk, inactive_keep (Nat.ne_of_lt (hL.born p hl.1)) ha⟩))
    · obtain ⟨b, -, rfl⟩ := hclose hop
      exact .inl rfl

theorem closing_step {v v' : View} {l : Label} (hv : v.stage ≠ .ended) (hB : v.Base) (hI : v.Closing)
    (h : Move v l v') : v'.Closing := by
  cases h with
  | setup hl hs ht h => exact closing_setup hB hI hs h
  | main hl hs h => exact closing_main hB hI h
  | connected a hs =>
    refine ⟨setups_update ?_ hI.fd, setups_update ?_ hI.own, setups_update ?_ hI.theirs, setups_update ?_ hI.closed,
      (by rintro p ⟨⟩), (by rintro p ⟨⟩), (by rintro p ⟨⟩), hI.inserted, fun p hp hc => ?_⟩
    · rintro q ⟨⟩ p fd ⟨⟩
    · rintro q ⟨⟩ p fd ⟨⟩
    · rintro q ⟨⟩ p fd ⟨⟩
    · rintro q ⟨⟩ p ⟨⟩
    · rcases hI.listed p hp hc with hk | hk | ⟨t', q₁, h₁, hq₁⟩ | ⟨hk, ha⟩
      · cases hk
      · cases hk
      · have hne : t' ≠ .main := by rintro rfl; cases hs.symm.trans h₁
        exact .inr (.inr (.inl ⟨t', q₁, (Function.update_of_ne hne _ _).trans h₁, hq₁⟩))
      · cases hk
  | accepted a hl hs hn =>
    refine ⟨setups_update ?_ hI.fd, setups_update ?_ hI.own, setups_update ?_ hI.theirs, setups_update ?_ hI.closed,
      hI.clearing, hI.cleared, hI.passing, hI.inserted, fun p hp hc => ?_⟩
    · rintro q ⟨⟩ p fd ⟨⟩
    · rintro q ⟨⟩ p fd ⟨⟩
    · rintro q ⟨⟩ p fd ⟨⟩
    · rintro q ⟨⟩ p ⟨⟩
    · rcases hI.listed p hp hc with hk | hk | ⟨t', q₁, h₁, hq₁⟩ | hk
      · exact .inl hk
      · exact .inr (.inl hk)
      · have hne : t' ≠ .listener := by rintro rfl; cases hs.symm.trans h₁
        exact .inr (.inr (.inl ⟨t', q₁, (Function.update_of_ne hne _ _).trans h₁, hq₁⟩))
      · exact .inr (.inr (.inr hk))
  | listen => exact hI
  | listenerEnds hs hr =>
    exact ⟨hI.fd, hI.own, hI.theirs, hI.closed, hI.clearing, hI.cleared, hI.passing, hI.inserted, hI.listed⟩
  | @recv m su k d l p q op q' hq h =>
    have hpa : p ≠ m.allocs := by
      have := (hB.records.thread p (by simp [hq])).1
      exact Nat.ne_of_lt this
    cases h with
    | mark =>
      -- the record has its thread, and the main thread is outside
      have hnode (x : Ptr) (hx : x ≠ p) : ((m.apply (.recv p) (.mark p)).setRecv p .unlock).node x = m.node x := by
        simp [Mem.apply, Mem.setRecv, Mem.setNode, hx]
      have hopen {t q₁ x fd} (h₁ : su t = some q₁) (hx : q₁.open = some (x, fd)) : x ≠ p := by
        rintro rfl
        exact absurd (hB.records.unmade t q₁ h₁ x (SetupPc.node_of_open hx).1) (by simp [hq])
      have hactive (x : Ptr) (hx : (m.node x).active = false) :
          (((m.apply (.recv p) (.mark p)).setRecv p .unlock).node x).active = false := by
        by_cases hxp : x = p
        · subst hxp; simp [Mem.apply, Mem.setRecv, Mem.setNode]
        · rw [hnode x hxp]; exact hx
      refine ⟨fun t q₁ h₁ x fd hx => ?_, fun t q₁ h₁ x fd hx hc => ?_, fun t q₁ h₁ x fd hx ha => ?_, hI.closed,
        hI.clearing, fun x hx => ⟨(hI.cleared x hx).1, hactive x (hI.cleared x hx).2⟩, fun x hx => ?_, hI.inserted,
        fun x hx hc => ?_⟩
      · simp only [hnode x (hopen h₁ hx)]; exact hI.fd t q₁ h₁ x fd hx
      · simp only [hnode x (hopen h₁ hx)]; exact hI.own t q₁ h₁ x fd hx hc
      · simp only [hnode x (hopen h₁ hx)] at ha; exact hI.theirs t q₁ h₁ x fd hx ha
      · have hout := hB.owner.stage_outside hv (t := .recv p) (by simp [View.inside, hq, RecvPc.inside]) (by simp)
        exact absurd ((Stage.passing_inside hx).2.symm.trans hout) (by simp)
      · rcases hI.listed x hx hc with hk | hk | hk | ⟨hk, ha⟩
        · exact .inl hk
        · exact .inr (.inl hk)
        · exact .inr (.inr (.inl hk))
        · exact .inr (.inr (.inr ⟨hk, hactive x ha⟩))
    | _ =>
      exact ⟨hI.fd, hI.own, hI.theirs, hI.closed, hI.clearing, hI.cleared, hI.passing, hI.inserted, hI.listed⟩
  | peer hc =>
    exact ⟨hI.fd, hI.own, hI.theirs, hI.closed, hI.clearing, hI.cleared, hI.passing, hI.inserted, hI.listed⟩

/-- **The state of closed records in every run.** -/
theorem closing_reach {E : Env} {C : View → Label → Prop} {s : State} (h : ReachView E C s) : s.view.Closing := by
  refine view_inv (fun _ => base_reach) ?_ (fun v l v' hv hB hI _ hm => closing_step hv hB hI hm) h
  have hs (t : Tid) : State.init.view.setup t = none := by cases t <;> rfl
  have hsu {P : Tid → SetupPc → Prop} : ∀ t q, State.init.view.setup t = some q → P t q := by
    intro t q h; rw [hs t] at h; cases h
  exact ⟨hsu, hsu, hsu, hsu, (by rintro p ⟨⟩), (by rintro p ⟨⟩), (by rintro p ⟨⟩), fun p hp => absurd rfl hp,
    fun p hp => absurd hp.1 List.not_mem_nil⟩

end Chat
