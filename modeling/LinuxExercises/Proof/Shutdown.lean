import LinuxExercises.Proof.Pass
import LinuxExercises.Proof.Sockets

/-!
# The exit command

* `late_accept_left_open`: a connection that the listener adds while `cmd_exit` waits for it
  is still open when `cmd_exit` joins the receive threads.
* `shuts_down`: when the listener has been joined, every listed record is inactive, its socket
  is shut down, and every connection that was owed a notice has got one, as long as nothing
  is added behind the pass, the pass meets active records only, and the listener takes back
  no record that the pass has still to notify.
-/

namespace Chat

/-- A notice has gone to the record's own socket. -/
def Mem.Notified (m : Mem) (p : Ptr) : Prop :=
  ∃ c ∈ m.sends, c.conn = p ∧ c.text = disconnect ∧ c.file = some (.conn (m.hist p).sock)

/-- **Complete shutdown**: behind the join of the listener every listed record is inactive and
its socket is shut down, and all that were owed a notice have been sent one. -/
def State.ShutDown (s : State) : Prop :=
  s.main.stage.late = true →
    (∀ p ∈ s.mem.listed, (s.mem.node p).active = false ∧ (s.mem.socks (s.mem.hist p).sock).shut = true) ∧
    ∀ p ∈ s.mem.owed, s.mem.Notified p

/-- The pass of `cmd_exit` has sent the record its notice. -/
def Stage.noticed : Stage → Option Ptr
  | .shutdown .exit p | .close .exit p | .clear .exit p => some p
  | _ => none

/-- The pass of `cmd_exit` has shut the record's socket down. -/
def Stage.shut : Stage → Option Ptr
  | .close .exit p | .clear .exit p => some p
  | _ => none

/-- A set-up at `conn_head = p`. -/
def SetupPc.toList : SetupPc → Option Ptr
  | .publish p _ => some p
  | _ => none

/-- The listener has no listed record half taken back when `cmd_exit` begins; until the
listener has been joined it takes back only records that the pass has notified, and lists
none behind the pass; the pass meets active records only; no record is closed again while
its number is in use. -/
def Orderly (v : View) (l : Label) : Prop :=
  Clean v l ∧ PassActive v l ∧
  (l.by .main = true → v.stage = .exitStop →
    ∀ p ∈ (v.setup .listener).bind SetupPc.closed, p ∉ v.mem.listed) ∧
  (v.stage.exiting = true → ∀ p ∈ v.rollback l, (v.mem.node p).active = false ∨ v.stage.noticed = some p) ∧
  (l.by .listener = true → v.stage = .waiting → ∀ q ∈ v.setup .listener, q.toList = none)

instance (v : View) (l : Label) : Decidable (Orderly v l) := by unfold Orderly; infer_instance

/-- The listener is taking the record back. -/
def View.Taken (v : View) (p : Ptr) : Prop := ∃ q, v.setup .listener = some q ∧ q.closed = some p

/-- **What the exit command has done so far.** -/
structure View.Orders (v : View) : Prop where
  noticed : ∀ p, v.stage.noticed = some p → v.mem.Notified p
  shut : ∀ p, v.stage.shut = some p → (v.mem.socks (v.mem.hist p).sock).shut = true ∨ v.Taken p
  swept : v.Swept fun p => (v.mem.node p).active = false ∧ v.mem.Notified p ∧
    ((v.mem.socks (v.mem.hist p).sock).shut = true ∨ v.Taken p)
  born : ∀ p ∈ v.mem.owed, p < v.mem.allocs
  owed : v.stage.exiting = true → ∀ p ∈ v.mem.owed, v.mem.Notified p ∨ v.mem.Listed p
  unmade : v.stage.exiting = true → ∀ t q, v.setup t = some q → ∀ p fd, q.open = some (p, fd) →
    v.mem.Listed p → (v.mem.node p).active = false → v.mem.Notified p
  taken : v.stage.exiting = true → ∀ t q, v.setup t = some q → ∀ p, q.closed = some p → v.mem.Listed p →
    v.mem.Notified p ∧ ((v.mem.node p).active = false ∨ v.stage.noticed = some p)

variable {m : Mem} {su : Tid → Option SetupPc} {k k' : Stage} {d d' : Bool} {t : Tid} {ch : Choice} {op : Op}
  {q : SetupPc} {q' : Option SetupPc} {p : Ptr} {c : Sock}

/-! ## Notices and shut sockets stay -/

theorem sends_mono {x : SendCall} (h : x ∈ m.sends) : x ∈ (m.apply t op).sends := by
  cases op <;> first | exact h | exact List.mem_append_left _ h

theorem notified_mono (hp : p ≠ m.allocs) (h : m.Notified p) : (m.apply t op).Notified p := by
  obtain ⟨x, hx, hc, ht, hf⟩ := h
  refine ⟨x, sends_mono hx, hc, ht, ?_⟩
  rw [apply_sock op (fun _ => hp)]; exact hf

/-- A socket that has been opened and shut down stays so. -/
theorem shut_mono (hc : c < m.opens) (h : (m.socks c).shut = true) : ((m.apply t op).socks c).shut = true := by
  cases op with
  | openConn n =>
    have hne : c ≠ m.opens := Nat.ne_of_lt hc
    simpa [Mem.apply, Function.update_of_ne hne] using h
  | shutdown p =>
    simp only [Mem.apply]
    cases m.connOf p with
    | none => exact h
    | some c' => by_cases hcc : c = c' <;> simp [hcc, h]
  | send p text sent =>
    simp only [Mem.apply]
    cases m.connOf p with
    | none => cases sent <;> exact h
    | some c' =>
      cases sent with
      | false => exact h
      | true => by_cases hcc : c = c' <;> simp_all
  | take p c' n => by_cases hcc : c = c' <;> simp_all [Mem.apply, Mem.setSock]
  | _ => exact h

theorem listed_keep (hu : ∀ prev, op ≠ .unlink p prev) (hc : op ≠ .clearHead) (h : m.Listed p) :
    (m.apply t op).Listed p := by
  cases op with
  | unlink x prev =>
    refine ⟨h.1, fun hx => ?_⟩
    rcases List.mem_cons.1 hx with rfl | hx
    · exact hu prev rfl
    · exact h.2 hx
  | clearHead => exact absurd rfl hc
  | publish x => exact ⟨List.mem_cons_of_mem _ h.1, h.2⟩
  | _ => exact h

/-! ## What the moves do -/

theorem Stage.noticed_passing (h : k.noticed = some p) : k.passing = some p ∧ k.exiting = true := by
  cases k with
  | shutdown b x => cases b <;> cases h; exact ⟨rfl, rfl⟩
  | close b x => cases b <;> cases h; exact ⟨rfl, rfl⟩
  | clear b x => cases b <;> cases h; exact ⟨rfl, rfl⟩
  | _ => cases h

theorem Stage.shut_noticed (h : k.shut = some p) : k.noticed = some p := by
  cases k with
  | close b x => cases b <;> exact h
  | clear b x => cases b <;> exact h
  | _ => cases h

theorem Stage.Ok.passing {L : List Ptr} (h : k.Ok m L) (hk : k.passing = some p) : p ∈ L := by
  cases k with
  | send b x => cases b <;> cases hk; exact h
  | shutdown b x => cases b <;> cases hk; exact h
  | close b x => cases b <;> cases hk; exact h
  | clear b x => cases b <;> cases hk; exact h
  | _ => cases hk

theorem MainMove.noticed_of (h : MainMove m d ch k op k') (hp : k'.noticed = some p) :
    k.noticed = some p ∨ k = .send .exit p ∧ ∃ sent, op = .send p disconnect sent := by
  cases h with
  | send b x sent hb => cases b <;> cases hp; exact .inr ⟨rfl, sent, rfl⟩
  | shutdown b x => cases b <;> exact .inl hp
  | close b x => cases b <;> exact .inl hp
  | _ => first | exact .inl hp | cases hp

theorem MainMove.noticed_to (h : MainMove m d ch k op k') (hp : k.noticed = some p) :
    k'.noticed = some p ∨ op = .deactivate p := by
  cases h with
  | shutdown b x => cases b <;> exact .inl hp
  | close b x => cases b <;> exact .inl hp
  | clear x => cases hp
  | clearExit x => cases hp; exact .inr rfl
  | _ => first | exact .inl hp | cases hp

theorem MainMove.shut_of (h : MainMove m d ch k op k') (hp : k'.shut = some p) :
    k.shut = some p ∨ k = .shutdown .exit p ∧ op = .shutdown p := by
  cases h with
  | shutdown b x => cases b <;> cases hp; exact .inr ⟨rfl, rfl⟩
  | close b x => cases b <;> exact .inl hp
  | _ => first | exact .inl hp | cases hp

theorem MainMove.exiting_of (h : MainMove m d ch k op k') (hk : k'.exiting = true) :
    k.exiting = true ∨ k = .exitStop ∧ op = .stop := by
  cases h with
  | stop => exact .inr ⟨rfl, rfl⟩
  | send b x => cases b <;> first | exact .inl rfl | cases hk
  | shutdown b x => cases b <;> first | exact .inl rfl | cases hk
  | close b x => cases b <;> first | exact .inl rfl | cases hk
  | stay => exact .inl hk
  | _ => first | exact .inl rfl | cases hk

theorem MainMove.not_publish (h : MainMove m d ch k op k') : op ≠ .publish p := by
  cases h <;> simp

/-- The main thread unlinks a record in `cmd_exit` only at the end. -/
theorem MainMove.unlists (h : MainMove m d ch k op k') (hk : k.exiting = true) :
    (∀ prev, op ≠ .unlink p prev) ∧ (op = .clearHead → k.toPass = some none) := by
  cases h with
  | unlink b x prev => cases hk
  | clearHead => exact ⟨by simp, fun _ => rfl⟩
  | _ => exact ⟨by simp, by simp⟩

theorem SetupMove.owed_of (h : SetupMove m ch q op q') (hp : p ∈ (m.apply t op).owed) : p ∈ m.owed ∨ op = .publish p := by
  cases h with
  | publish x fd =>
    have hp' : p ∈ if m.running then m.owed else x :: m.owed := hp
    split at hp'
    · exact .inl hp'
    · rcases List.mem_cons.1 hp' with rfl | hp'
      · exact .inr rfl
      · exact .inl hp'
  | _ => exact .inl hp

theorem SetupMove.unlink_eq {prev : Option Ptr} (h : SetupMove m ch q (.unlink p prev) q') : q.closed = some p := by
  cases h; rfl

theorem SetupMove.closed_not_publish {x : Ptr} (h : SetupMove m ch q op q') (hq : q.closed = some p) : op ≠ .publish x := by
  cases h with
  | publish y fd => cases hq
  | _ => simp

/-! ## One step -/

theorem orders_setup {l : Label} (hv : k ≠ .ended) (hB : View.Base ⟨m, su, k, d⟩) (hF : View.Flow ⟨m, su, k, d⟩)
    (hK : View.Closing ⟨m, su, k, d⟩) (hO : View.Born ⟨m, su, k, d⟩) (hC : Orderly ⟨m, su, k, d⟩ l)
    (hI : View.Orders ⟨m, su, k, d⟩) (hl : l.who = some (t, ch)) (hs : su t = some q)
    (ht : t = .main ∧ k = .rest ∨ t = .listener) (h : SetupMove m ch q op q') :
    View.Orders ⟨m.apply t op, Function.update su t q', k, d⟩ := by
  obtain ⟨L, hL, hS, hok⟩ := hB.registry
  have hborn {p} (hp : m.Listed p) : p < m.allocs := hL.born p hp.1
  have hactive {p} (hp : ((m.apply t op).node p).active = false) : (m.node p).active = false := by
    rcases inactive_of hp with hp | hp | hp
    · exact hp
    · exact absurd hp h.not_deactivate.1
    · exact absurd hp h.not_deactivate.2
  have hshut {p} (hp : p < m.allocs) (hs : (m.socks (m.hist p).sock).shut = true) :
      ((m.apply t op).socks ((m.apply t op).hist p).sock).shut = true := by
    rw [apply_sock op (fun _ => Nat.ne_of_lt hp)]
    exact shut_mono (hO.made p hp) hs
  -- what the listener is taking back, it goes on taking back until it is off the list
  have htaken {p} (hp : m.Listed p) (ht : View.Taken ⟨m, su, k, d⟩ p) :
      View.Taken ⟨m.apply t op, Function.update su t q', k, d⟩ p := by
    obtain ⟨q₁, h₁, hq₁⟩ := ht
    by_cases hne : t = .listener
    · subst hne
      cases hs.symm.trans h₁
      rcases h.closed_to hq₁ with ⟨q₂, rfl, hq₂⟩ | rfl
      · exact ⟨q₂, Function.update_self Tid.listener (some q₂) su, hq₂⟩
      · exact absurd ((hL.mem_iff p).2 hp) (hS .listener _ hs).2
    · exact ⟨q₁, (Function.update_of_ne (Ne.symm hne) _ _).trans h₁, hq₁⟩
  -- a record that is being inserted is active
  have hfresh {p} (hop : op = .publish p) : (m.node p).active = true ∧ p < m.allocs := by
    subst hop
    cases h with
    | publish p fd =>
      refine ⟨?_, hB.records.bound t _ hs p rfl⟩
      by_contra hn
      exact (hS t _ hs).1 (hK.inserted p (hK.theirs t _ hs p fd rfl (by simpa using hn)))
  have hlisted {p} (hp : (m.apply t op).Listed p) (ha : ((m.apply t op).node p).active = false) : m.Listed p := by
    rcases listed_of op hp with hp | hop
    · exact hp
    · exact absurd ((hfresh hop).1.symm.trans (hactive ha)) (by simp)
  refine ⟨fun p hp => ?_, fun p hp => ?_, ?_, fun p hp => ?_, fun hk p hp => ?_, fun hk => setups_update ?_ ?_,
    fun hk => setups_update ?_ ?_⟩
  · exact notified_mono (hB.bound (Stage.passing_inside (Stage.noticed_passing hp).1).1) (hI.noticed p hp)
  · have hlist : m.Listed p := (hL.mem_iff p).1 (hok.passing (Stage.noticed_passing (Stage.shut_noticed hp)).1)
    exact (hI.shut p hp).imp (hshut (hborn hlist)) (htaken hlist)
  · refine swept_setup hv hB hF hI.swept hs ht h ?_ ?_
    · rintro p hp ⟨ha, hn, hst⟩
      have hl : m.Listed p := by
        rcases listed_of op hp with hp | hop
        · exact hp
        · exact absurd ((hfresh hop).1.symm.trans ha) (by simp)
      have hpa := Nat.ne_of_lt (hborn hl)
      exact ⟨inactive_keep hpa ha, notified_mono hpa hn, hst.imp (hshut (hborn hl)) (htaken hl)⟩
    · rintro p rfl hk
      cases h with
      | publish p fd =>
        obtain rfl : t = .listener := mover_listener ht (by rintro rfl; cases hk)
        have hno := hC.2.2.2.2 (by simp [Label.by, hl]) hk _ hs
        cases hno
  · rcases h.owed_of hp with hp | hop
    · exact (hI.born p hp).trans_le (apply_allocs op)
    · exact (hfresh hop).2.trans_le (apply_allocs op)
  · rcases h.owed_of hp with hp | rfl
    · rcases hI.owed hk p hp with hn | hlst
      · exact .inl (notified_mono (Nat.ne_of_lt (hI.born p hp)) hn)
      · by_cases hu : ∃ prev, op = .unlink p prev
        · obtain ⟨prev, rfl⟩ := hu
          exact .inl (notified_mono (Nat.ne_of_lt (hborn hlst)) (hI.taken hk t q hs p h.unlink_eq hlst).1)
        · exact .inr (listed_keep (fun prev hop => hu ⟨prev, hop⟩) (by rintro rfl; cases h) hlst)
    · right
      cases h with
      | publish p fd => exact ⟨List.mem_cons_self, fun hu => (hS t _ hs).1 (hL.before p hu)⟩
  · intro q₁ hq p fd hp hlst ha
    have hl := hlisted hlst ha
    refine notified_mono (Nat.ne_of_lt (hborn hl)) ?_
    rcases (h.open_of hq hp).2 with ho | ⟨c, ip, port, rfl, rfl⟩
    · exact hI.unmade hk t q hs p fd ho hl (hactive ha)
    · exact absurd (hborn hl) (lt_irrefl _)
  · intro t' q₁ h₁ p fd hp hlst ha
    have hl := hlisted hlst ha
    exact notified_mono (Nat.ne_of_lt (hborn hl)) (hI.unmade hk t' q₁ h₁ p fd hp hl (hactive ha))
  · intro q₁ hq p hp hlst
    rcases h.closed_of hq hp with hc | ⟨n, rfl⟩
    · have hl : m.Listed p := (listed_of op hlst).resolve_right (h.closed_not_publish hc)
      obtain ⟨hn, ha⟩ := hI.taken hk t q hs p hc hl
      have hpa := Nat.ne_of_lt (hborn hl)
      exact ⟨notified_mono hpa hn, ha.imp_left (inactive_keep hpa)⟩
    · obtain ⟨rfl, -⟩ := h.close_eq
      have hlm : m.Listed p := hlst
      have hpa := Nat.ne_of_lt (hborn hlm)
      have hroll : p ∈ View.rollback ⟨m, su, k, d⟩ l := by simp [View.rollback, hl, hs, SetupPc.toClose]
      rcases hC.2.2.2.1 hk p hroll with ha | hn
      · have ha' : ((m.apply t (.close n (some p))).node p).active = false := inactive_keep hpa ha
        exact ⟨notified_mono hpa (hI.unmade hk t _ hs p n rfl hlm ha), .inl ha'⟩
      · exact ⟨notified_mono hpa (hI.noticed p hn), .inr hn⟩
  · intro t' q₁ h₁ p hp hlst
    have hl : m.Listed p := by
      rcases listed_of op hlst with hl | rfl
      · exact hl
      · -- the record that is being inserted is of another set-up
        cases h with
        | publish p fd =>
          obtain rfl := hB.records.apart t' q₁ h₁ t _ hs p (SetupPc.node_of_closed hp) rfl
          cases hs.symm.trans h₁
          cases hp
    obtain ⟨hn, ha⟩ := hI.taken hk t' q₁ h₁ p hp hl
    have hpa := Nat.ne_of_lt (hborn hl)
    exact ⟨notified_mono hpa hn, ha.imp_left (inactive_keep hpa)⟩

/-- A listed record that the main thread is not ending and the listener not taking back has
not been closed. -/
theorem View.Closing.unclosed {v : View} (hK : v.Closing) (hB : v.Base) (hs : v.setup .main = none)
    (hp : v.mem.Listed p) (h₁ : v.stage.clearing ≠ some p) (h₂ : v.stage.cleared ≠ some p)
    (ha : v.stage.leaving = true → (v.mem.node p).active = true) : (v.mem.hist p).closes = [] ∨ v.Taken p := by
  by_contra hn
  obtain ⟨hc, ht⟩ := not_or.1 hn
  rcases hK.listed p hp hc with h | h | ⟨t, q, hq, hcl⟩ | ⟨hl, hi⟩
  · exact h₁ h
  · exact h₂ h
  · cases t with
    | main => cases hs.symm.trans hq
    | listener => exact ht ⟨q, hq, hcl⟩
    | recv x => cases (hB.records.makers x).symm.trans hq
  · exact absurd ((ha hl).symm.trans hi) (by simp)

/-- The notice of `cmd_exit` goes to the record's own socket. -/
theorem notice_own {su : Tid → Option SetupPc} (hB : View.Base ⟨m, su, .send .exit p, d⟩)
    (hK : View.Closing ⟨m, su, .send .exit p, d⟩) (hD : View.Leased ⟨m, su, .send .exit p, d⟩)
    (hI : View.Orders ⟨m, su, .send .exit p, d⟩) (hs : su .main = none) (sent : Bool) :
    (m.apply .main (.send p disconnect sent)).Notified p := by
  obtain ⟨L, hL, -, hok⟩ := hB.registry
  have hl : m.Listed p := (hL.mem_iff p).1 hok
  have ha : (m.node p).active = true := hK.passing p rfl
  have hc : (m.hist p).closes = [] := by
    refine (hK.unclosed hB hs hl (by simp [Stage.clearing]) (by simp [Stage.cleared]) fun _ => ha).resolve_right ?_
    rintro ⟨q, hq, hcl⟩
    rcases (hI.taken rfl .listener q hq p hcl hl).2 with hi | hn
    · exact absurd (ha.symm.trans hi) (by simp)
    · cases hn
  have hown : m.files (m.node p).sockfd = some (.conn (m.hist p).sock) := hD.own (hL.born p hl.1) hc
  exact ⟨_, List.mem_append_right _ (List.mem_singleton.2 rfl), rfl, rfl, hown⟩

theorem orders_main {l : Label} (hB : View.Base ⟨m, su, k, d⟩)
    (hK : View.Closing ⟨m, su, k, d⟩) (hD : View.Leased ⟨m, su, k, d⟩) (hO : View.Born ⟨m, su, k, d⟩)
    (hC : Orderly ⟨m, su, k, d⟩ l) (hI : View.Orders ⟨m, su, k, d⟩) (hl : l.who = some (.main, ch))
    (hs : su .main = none) (h : MainMove m d ch k op k') : View.Orders ⟨m.apply .main op, su, k', d⟩ := by
  obtain ⟨L, hL, hS, hok⟩ := hB.registry
  have hna : op.isAlloc = false := by cases h <;> rfl
  have hborn {p} (hp : m.Listed p) : p < m.allocs := hL.born p hp.1
  have hnote {p} (hn : m.Notified p) : (m.apply .main op).Notified p := by
    obtain ⟨x, hx, hc, ht, hf⟩ := hn
    refine ⟨x, sends_mono hx, hc, ht, ?_⟩
    rw [apply_sock op (by simp [hna])]; exact hf
  have hinactive {p} (ha : (m.node p).active = false) : ((m.apply .main op).node p).active = false := by
    rw [apply_active op (by simp [hna]), ha]; rfl
  have hshut {p} (hp : p < m.allocs) (hs : (m.socks (m.hist p).sock).shut = true) :
      ((m.apply .main op).socks ((m.apply .main op).hist p).sock).shut = true := by
    rw [apply_sock op (by simp [hna])]
    exact shut_mono (hO.made p hp) hs
  have hlisted {p} (hp : (m.apply .main op).Listed p) : m.Listed p := (listed_of op hp).resolve_right h.not_publish
  -- when `cmd_exit` begins, no record is half ended
  have hbegin {t q p} (hk : k = .exitStop) (h₁ : su t = some q) (hp : m.Listed p) :
      q.closed ≠ some p ∧ ∀ fd, q.open = some (p, fd) → (m.node p).active = true := by
    subst hk
    have hlast : q.closed ≠ some p := by
      intro hcl
      cases t with
      | main => cases hs.symm.trans h₁
      | listener =>
        exact hC.2.2.1 (by simp [Label.by, hl]) rfl p (Option.bind_eq_some_iff.2 ⟨q, h₁, hcl⟩) (hB.mem_listed.2 hp)
      | recv x => cases (hB.records.makers x).symm.trans h₁
    refine ⟨hlast, fun fd ho => ?_⟩
    by_contra hn
    have hcl := hK.theirs t q h₁ p fd ho (by simpa using hn)
    rcases hK.unclosed hB hs hp (by simp [Stage.clearing]) (by simp [Stage.cleared]) (by rintro ⟨⟩) with hc | ⟨q₁, hq₁, hc⟩
    · exact hcl hc
    · obtain rfl := hB.records.apart t q h₁ .listener q₁ hq₁ p (SetupPc.node_of_open ho).2 (SetupPc.node_of_closed hc)
      cases h₁.symm.trans hq₁
      exact hlast hc
  refine ⟨fun p hp => ?_, fun p hp => ?_, ?_, fun p hp => ?_, fun hk p hp => ?_, fun hk t q h₁ p fd ho hp ha => ?_,
    fun hk t q h₁ p hc hp => ?_⟩
  · rcases h.noticed_of hp with hn | ⟨rfl, sent, rfl⟩
    · exact hnote (hI.noticed p hn)
    · exact notice_own hB hK hD hI hs sent
  · rcases h.shut_of hp with hn | ⟨rfl, rfl⟩
    · have hlst := (hL.mem_iff p).1 (hok.passing (Stage.noticed_passing (Stage.shut_noticed hn)).1)
      exact (hI.shut p hn).imp_left (hshut (hborn hlst))
    · have hlst : m.Listed p := (hL.mem_iff p).1 hok
      rcases hK.unclosed hB hs hlst (by simp [Stage.clearing]) (by simp [Stage.cleared])
        (fun _ => hK.passing p rfl) with hc | ht
      · have hown : m.files (m.node p).sockfd = some (.conn (m.hist p).sock) := hD.own (hborn hlst) hc
        left
        simp [Mem.apply, Mem.connOf, hown]
      · exact .inr ht
  · refine swept_main hB hC.2.1 hI.swept hl h ?_ ?_
    · rintro p hp ⟨ha, hn, hst⟩
      exact ⟨hinactive ha, hnote hn, hst.imp_left (hshut (hborn hp))⟩
    · rintro p rfl rfl
      have hlst : m.Listed p := (hL.mem_iff p).1 hok
      refine ⟨?_, hnote (hI.noticed p rfl), (hI.shut p rfl).imp_left (hshut (hborn hlst))⟩
      rw [apply_active _ (by simp [Op.isAlloc])]; simp
  · refine (?_ : p < m.allocs).trans_le (apply_allocs op)
    cases h with
    | stop =>
      have hp' : p ∈ m.listed := List.mem_of_mem_filter hp
      exact hborn (hB.mem_listed.1 hp')
    | _ => exact hI.born p hp
  · rcases h.exiting_of hk with hk₀ | ⟨rfl, rfl⟩
    · have howed : p ∈ m.owed := by cases h <;> first | exact hp | cases hk₀
      rcases hI.owed hk₀ p howed with hn | hlst
      · exact .inl (hnote hn)
      · obtain ⟨hu, hcl⟩ := h.unlists (p := p) hk₀
        by_cases hop : op = .clearHead
        · obtain ⟨-, hn, -⟩ := (hI.swept none (hcl hop) p hlst).resolve_right Sync.from_none
          exact .inl (hnote hn)
        · exact .inr (listed_keep hu hop hlst)
    · have hp' : p ∈ m.listed := List.mem_of_mem_filter hp
      exact .inr (hB.mem_listed.1 hp')
  · have hlst := hlisted hp
    rcases h.exiting_of hk with hk₀ | ⟨hk₀, rfl⟩
    · refine hnote ?_
      rcases inactive_of ha with ha | rfl | rfl
      · exact hI.unmade hk₀ t q h₁ p fd ho hlst ha
      · -- the pass has just marked it
        cases h with
        | clear => cases hk₀
        | clearExit => exact hI.noticed p rfl
      · cases h
    · exact absurd (((hbegin hk₀ h₁ hlst).2 fd ho).symm.trans ha) (by simp)
  · have hlst := hlisted hp
    rcases h.exiting_of hk with hk₀ | ⟨hk₀, rfl⟩
    · obtain ⟨hn, ha⟩ := hI.taken hk₀ t q h₁ p hc hlst
      refine ⟨hnote hn, ?_⟩
      rcases ha with ha | hno
      · exact .inl (hinactive ha)
      · rcases h.noticed_to hno with hno | rfl
        · exact .inr hno
        · left
          rw [apply_active _ (by simp [Op.isAlloc])]; simp
    · exact absurd hc (hbegin hk₀ h₁ hlst).1

theorem orders_step {v v' : View} {l : Label} (hv : v.stage ≠ .ended) (hB : v.Base) (hF : v.Flow) (hK : v.Closing)
    (hD : v.Leased) (hO : v.Born) (hC : Orderly v l) (hI : v.Orders) (h : Move v l v') : v'.Orders := by
  cases h with
  | setup hl hs ht h => exact orders_setup hv hB hF hK hO hC hI hl hs ht h
  | main hl hs h => exact orders_main hB hK hD hO hC hI hl hs h
  | connected a hs =>
    exact ⟨(by rintro p ⟨⟩), (by rintro p ⟨⟩), (by rintro cur ⟨⟩), hI.born, (by rintro ⟨⟩), (by rintro ⟨⟩), (by rintro ⟨⟩)⟩
  | @accepted m su k l n a hl hs hn =>
    obtain ⟨L, hL, -, hok⟩ := hB.registry
    have hborn {p} (hp : m.Listed p) : p < m.allocs := hL.born p hp.1
    -- the listener has no record in hand
    have hshut {p} (hp : p < m.allocs) {Q : Prop}
        (hs : (m.socks (m.hist p).sock).shut = true ∨ View.Taken ⟨m, su, k, false⟩ p) :
        ((m.apply .listener (.openConn n)).socks (m.hist p).sock).shut = true ∨ Q := by
      rcases hs with hs | ⟨q, hq, -⟩
      · exact .inl (shut_mono (hO.made p hp) hs)
      · cases hs.symm.trans hq
    refine ⟨hI.noticed, fun p hp => ?_, fun cur hcur p hp => ?_, hI.born, hI.owed,
      fun hk => setups_update ?_ (hI.unmade hk), fun hk => setups_update ?_ (hI.taken hk)⟩
    · have hlst := (hL.mem_iff p).1 (hok.passing (Stage.noticed_passing (Stage.shut_noticed hp)).1)
      exact hshut (hborn hlst) (hI.shut p hp)
    · refine (hI.swept cur hcur p hp).imp_left ?_
      rintro ⟨ha, hno, hst⟩
      exact ⟨ha, hno, hshut (hborn hp) hst⟩
    · rintro q ⟨⟩ p fd ⟨⟩
    · rintro q ⟨⟩ p ⟨⟩
  | listen => exact hI
  | listenerEnds hs hr => exact ⟨hI.noticed, hI.shut, hI.swept, hI.born, hI.owed, hI.unmade, hI.taken⟩
  | @recv m su k d l p q op q' hq h =>
    cases h with
    | mark =>
      have hnode (x : Ptr) (hx : x ≠ p) : ((m.apply (.recv p) (.mark p)).setRecv p .unlock).node x = m.node x := by
        simp [Mem.apply, Mem.setRecv, Mem.setNode, hx]
      have hactive (x : Ptr) (hx : (m.node x).active = false) :
          (((m.apply (.recv p) (.mark p)).setRecv p .unlock).node x).active = false := by
        by_cases hxp : x = p
        · subst hxp; simp [Mem.apply, Mem.setRecv, Mem.setNode]
        · rw [hnode x hxp]; exact hx
      refine ⟨hI.noticed, hI.shut, fun cur hcur x hx => (hI.swept cur hcur x hx).imp_left ?_, hI.born, hI.owed,
        fun hk t q₁ h₁ x fd ho hx ha => ?_, fun hk t q₁ h₁ x hc hx => ?_⟩
      · rintro ⟨ha, hn, hst⟩
        exact ⟨hactive x ha, hn, hst⟩
      · have hxp : x ≠ p := by
          rintro rfl
          exact absurd (hB.records.unmade t q₁ h₁ x (SetupPc.node_of_open ho).1) (by simp [hq])
        simp only [hnode x hxp] at ha
        exact hI.unmade hk t q₁ h₁ x fd ho hx ha
      · exact (hI.taken hk t q₁ h₁ x hc hx).imp_right fun ha => ha.imp_left (hactive x)
    | take c n =>
      have hshut (x : Ptr) (hs : (m.socks (m.hist x).sock).shut = true) :
          ((m.apply (.recv p) (.take p c n)).socks (m.hist x).sock).shut = true := by
        by_cases hc : (m.hist x).sock = c <;> simp_all [Mem.apply, Mem.setSock]
      refine ⟨hI.noticed, fun x hx => (hI.shut x hx).imp_left (hshut x), fun cur hcur x hx => (hI.swept cur hcur x hx).imp_left ?_,
        hI.born, hI.owed, hI.unmade, hI.taken⟩
      rintro ⟨ha, hn, hst⟩
      exact ⟨ha, hn, hst.imp_left (hshut x)⟩
    | _ => exact ⟨hI.noticed, hI.shut, hI.swept, hI.born, hI.owed, hI.unmade, hI.taken⟩
  | @peer m su k d l c e hc =>
    have hshut (x : Ptr) (hs : (m.socks (m.hist x).sock).shut = true) :
        ((m.setSock c (PeerEvent.on · e)).socks (m.hist x).sock).shut = true := by
      have hon : (e.on (m.socks c)).shut = (m.socks c).shut := by
        cases e with
        | send text => simp only [PeerEvent.on]; split <;> rfl
        | _ => rfl
      by_cases hx : (m.hist x).sock = c
      · subst hx; simpa [Mem.setSock, hon] using hs
      · simpa [Mem.setSock, hx] using hs
    refine ⟨hI.noticed, fun x hx => (hI.shut x hx).imp_left (hshut x), fun cur hcur x hx => (hI.swept cur hcur x hx).imp_left ?_,
      hI.born, hI.owed, hI.unmade, hI.taken⟩
    rintro ⟨ha, hn, hst⟩
    exact ⟨ha, hn, hst.imp_left (hshut x)⟩

theorem Stage.late_pass (h : k.late = true) : k.toPass = some none ∧ k.exiting = true := by
  cases k <;> first | exact ⟨rfl, rfl⟩ | cases h

/-- **Complete shutdown**: in every orderly run, when the listener has been joined, every
listed record is inactive, its socket is shut down, and every connection that was active
when `cmd_exit` began or was added since has been sent its notice. -/
theorem shuts_down {E : Env} {s : State} (h : ReachView E Orderly s) : s.ShutDown := by
  have hclean (s : State) (hr : ReachView E Orderly s) (l : Label) (hC : Orderly s.view l) : Clean s.view l := hC.1
  obtain ⟨hB, hF, -⟩ := flow_reach h
  have hI : s.view.Orders := by
    refine view_inv (J := fun v => (v.Base ∧ v.Flow) ∧ v.Closing ∧ v.Leased ∧ v.Born) ?_ ?_ ?_ h
    · intro s hr
      obtain ⟨hB, hF, -⟩ := flow_reach hr
      exact ⟨⟨hB, hF⟩, closing_reach hr, leases_reach hclean hr, born_reach hr⟩
    · exact ⟨(by rintro p ⟨⟩), (by rintro p ⟨⟩), (by rintro cur ⟨⟩), (by rintro p ⟨⟩), (by rintro ⟨⟩), (by rintro ⟨⟩), (by rintro ⟨⟩)⟩
    · rintro v l v' hv ⟨⟨hB, hF⟩, hK, hD, hO⟩ hI hC hm
      exact orders_step hv hB hF hK hD hO hC hI hm
  intro hlate
  have hlate : s.view.stage.late = true := hlate
  obtain ⟨hpass, hexit⟩ := Stage.late_pass hlate
  have hswept {p} (hp : s.view.mem.Listed p) := (hI.swept none hpass p hp).resolve_right Sync.from_none
  refine ⟨fun p hp => ?_, fun p hp => ?_⟩
  · obtain ⟨ha, -, hst⟩ := hswept (hB.mem_listed.1 hp)
    refine ⟨ha, hst.resolve_right ?_⟩
    rintro ⟨q, hq, -⟩
    cases (hF.done (hF.late hlate)).symm.trans hq
  · rcases hI.owed hexit p hp with hn | hp
    · exact hn
    · exact (hswept hp).2.1

/-- Two accepted connections; the exit command closes both, the listener ends, and the receive
threads end before they are joined. -/
def orderlyExit : List Label :=
  accepts 4 ++ listens 7 ++ accepts 5 ++ listens 7 ++ enters .exit ++ mains 15 ++ listens 1 ++
    [.recv 0 .ok, .recv 0 .ok, .recv 0 .ok, .recv 0 .ok, .recv 1 .ok, .recv 1 .ok, .recv 1 .ok, .recv 1 .ok] ++ mains 2

theorem shuts_down_orderly :
    ((chat .demo).after (fun s l => Orderly s.view l) orderlyExit).main = .exit (.next (some 1)) ∧
    ((chat .demo).after (fun s l => Orderly s.view l) orderlyExit).ShutDown :=
  ⟨by decide +kernel, shuts_down (Sync.Trans.reach_after _)⟩

/-- The listener accepts a connection while `cmd_exit` is between its pass and the join of the
listener. -/
def acceptInExit : List Label :=
  listens 1 ++ enters .exit ++ mains 5 ++ [.listener (.peer 4 ⟨peerAddr, 30000⟩)] ++ listens 8 ++ mains 1

/-- **A connection that is left open.** -/
theorem late_accept_left_open : ¬ ∀ (E : Env) (s : State), (chat E).Reachable s → s.ShutDown := by
  intro h
  have hdown := h .demo _ (Sync.Trans.reach_after acceptInExit) (by decide +kernel)
  exact absurd (hdown.1 0 (by decide +kernel)).1 (by decide +kernel)

end Chat
