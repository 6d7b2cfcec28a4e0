import LinuxExercises.Proof.Sockets

/-!
# Where sends go

* `rollback_leaves_active`: a set-up whose `pthread_create` fails closes its descriptor
  while its record is still listed and active.
* `routes_own`: apart from that, while the mutex is free every listed active record has
  the descriptor of its own socket, and every send for an active record goes there.
-/

namespace Chat

/-- The main thread is about to close the record, or has just done it. -/
def Stage.atClose : Stage → Option Ptr
  | .shutdown _ p | .close _ p | .clear _ p => some p
  | _ => none

/-- A set-up takes back only a record that the main thread has ended, or is ending under the
mutex; and a record that has been closed before is closed only while its number is free. -/
def Covered (v : View) (l : Label) : Prop :=
  Clean v l ∧ ∀ p ∈ v.rollback l, (v.mem.node p).active = false ∨ v.stage.atClose = some p

instance (v : View) (l : Label) : Decidable (Covered v l) := by unfold Covered; infer_instance

/-- **Sends go to the right peer**: while the mutex is free, every listed active record has a
descriptor that denotes its own socket, and no two have the same; `cmd_send` and `cmd_exit`
send only for active records, and what was sent for an active record went to its socket. -/
def State.RoutesOwn (s : State) : Prop :=
  (s.mem.connMutex = none →
    (∀ p ∈ s.mem.listed, (s.mem.node p).active = true →
      s.mem.files (s.mem.node p).sockfd = some (.conn (s.mem.hist p).sock)) ∧
    ∀ p ∈ s.mem.listed, ∀ q ∈ s.mem.listed, (s.mem.node p).active = true → (s.mem.node q).active = true →
      (s.mem.node p).sockfd = (s.mem.node q).sockfd → p = q) ∧
  (∀ p, (∃ id text, s.main = .send id text (.send p)) ∨ s.main = .exit (.send p) → (s.mem.node p).active = true) ∧
  ∀ c ∈ s.mem.sends, c.active = true → c.file = some (.conn (s.mem.hist c.conn).sock)

/-- A listed active record has been closed only while the main thread is ending it. -/
structure View.Routed (v : View) : Prop where
  listed : ∀ p, v.mem.Listed p → (v.mem.node p).active = true → (v.mem.hist p).closes ≠ [] → v.stage.atClose = some p
  found : ∀ p, v.stage = .found p → (v.mem.node p).active = true
  sends : ∀ c ∈ v.mem.sends, c.conn < v.mem.allocs ∧
    (c.active = true → c.file = some (.conn (v.mem.hist c.conn).sock))

variable {m : Mem} {su : Tid → Option SetupPc} {k k' : Stage} {d d' : Bool} {t : Tid} {ch : Choice} {op : Op}
  {q : SetupPc} {q' : Option SetupPc} {p : Ptr}

theorem active_of (h : ((m.apply t op).node p).active = true) (hp : p ≠ m.allocs) :
    (m.node p).active = true ∧ op ≠ .deactivate p := by
  rw [apply_active op (fun _ => hp)] at h
  simp only [Bool.and_eq_true, Bool.not_eq_true', decide_eq_false_iff_not] at h
  exact ⟨h.1.1, h.1.2⟩

theorem SetupMove.sends_eq (h : SetupMove m ch q op q') : (m.apply t op).sends = m.sends := by
  cases h <;> rfl

theorem RecvMove.sends_eq {r r' : RecvPc} (h : RecvMove m p r op r') : (m.apply (.recv p) op).sends = m.sends := by
  cases h <;> rfl

theorem MainMove.atClose_to (h : MainMove m d ch k op k') (hp : k.atClose = some p) :
    k'.atClose = some p ∨ op = .deactivate p := by
  cases h with
  | clear x => cases hp; exact .inr rfl
  | clearExit x => cases hp; exact .inr rfl
  | _ => first | exact .inl hp | cases hp

theorem MainMove.found_of (h : MainMove m d ch k op k') (hp : k' = .found p) :
    (∀ x, op ≠ .deactivate x) ∧ (k = .found p ∨ (m.node p).active = true) := by
  cases h with
  | stay => exact ⟨by simp, .inl hp⟩
  | found x hx ha => cases hp; exact ⟨by simp, .inr ha⟩
  | sendFound x text sent hb => exact ⟨by simp, .inl hp⟩
  | _ => cases hp

/-- Every send is for a record in hand, with its number as it stands. -/
theorem MainMove.sends_of (h : MainMove m d ch k op k') :
    (m.apply .main op).sends = m.sends ∨
    ∃ p text, (k = .found p ∨ ∃ b, k = .send b p) ∧
      (m.apply .main op).sends = m.sends ++ [⟨p, (m.node p).active, m.files (m.node p).sockfd, text⟩] := by
  cases h with
  | sendFound p text sent hb => exact .inr ⟨p, text, .inl rfl, rfl⟩
  | killFound p text => exact .inr ⟨p, text, .inl rfl, rfl⟩
  | send b p sent hb => exact .inr ⟨p, disconnect, .inr ⟨b, rfl⟩, rfl⟩
  | kill b p => exact .inr ⟨p, disconnect, .inr ⟨b, rfl⟩, rfl⟩
  | _ => exact .inl rfl

theorem routed_setup {l : Label} (hB : View.Base ⟨m, su, k, d⟩) (hK : View.Closing ⟨m, su, k, d⟩)
    (hC : Covered ⟨m, su, k, d⟩ l) (hI : View.Routed ⟨m, su, k, d⟩) (hl : l.who = some (t, ch)) (hs : su t = some q)
    (h : SetupMove m ch q op q') : View.Routed ⟨m.apply t op, Function.update su t q', k, d⟩ := by
  obtain ⟨L, hL, hS, -⟩ := hB.registry
  refine ⟨fun p hp ha hc => ?_, fun p hp => ?_, fun c hc => ?_⟩
  · -- what is being inserted has not been closed
    have hl' : m.Listed p := by
      rcases listed_of op hp with hp | rfl
      · exact hp
      · have hc' : ((m.apply t (.publish p)).hist p).closes ≠ [] := hc
        rcases closes_of hc' with hc | ⟨n, hop⟩
        · have hins := hK.inserted p hc
          cases h with
          | publish p fd => exact absurd hins (hS t _ hs).1
        · cases hop
    obtain ⟨ha, -⟩ := active_of ha (Nat.ne_of_lt (hL.born p hl'.1))
    rcases closes_of hc with hc | ⟨n, rfl⟩
    · exact hI.listed p hl' ha hc
    · obtain ⟨rfl, -⟩ := h.close_eq
      have hroll : p ∈ View.rollback ⟨m, su, k, d⟩ l := by simp [View.rollback, hl, hs, SetupPc.toClose]
      rcases hC.2 p hroll with hn | hk
      · exact absurd (ha.symm.trans hn) (by simp)
      · exact hk
  · have hk : k = .found p := hp
    refine active_keep (hB.bound (by simp [hk, Stage.node])) h.not_deactivate.1 h.not_deactivate.2 (hI.found p hp)
  · simp only [h.sends_eq] at hc
    obtain ⟨hb, hown⟩ := hI.sends c hc
    refine ⟨hb.trans_le (apply_allocs op), fun ha => ?_⟩
    rw [apply_sock op (fun _ => Nat.ne_of_lt hb)]
    exact hown ha

theorem routed_main (hB : View.Base ⟨m, su, k, d⟩) (hD : View.Leased ⟨m, su, k, d⟩) (hI : View.Routed ⟨m, su, k, d⟩)
    (h : MainMove m d ch k op k') : View.Routed ⟨m.apply .main op, su, k', d⟩ := by
  obtain ⟨L, hL, -, hok⟩ := hB.registry
  have hna : op.isAlloc = false := by cases h <;> rfl
  have hsock (p : Ptr) : ((m.apply .main op).hist p).sock = (m.hist p).sock := apply_sock op (by simp [hna])
  refine ⟨fun p hp ha hc => ?_, fun p hp => ?_, fun c hc => ?_⟩
  · have hl : m.Listed p := (listed_of op hp).resolve_right (by rintro rfl; cases h)
    obtain ⟨ha, hop⟩ := active_of ha (Nat.ne_of_lt (hL.born p hl.1))
    rcases closes_of hc with hc | ⟨n, rfl⟩
    · exact (h.atClose_to (hI.listed p hl ha hc)).resolve_right hop
    · obtain ⟨-, b, -, rfl⟩ := h.close_eq
      rfl
  · obtain ⟨hop, hk⟩ := h.found_of hp
    have ha : (m.node p).active = true := by
      rcases hk with hk | ha
      · exact hI.found p hk
      · exact ha
    rw [apply_active op (by simp [hna]), ha]
    simp only [Bool.true_and, Bool.and_eq_true, Bool.not_eq_true', decide_eq_false_iff_not]
    exact ⟨hop p, by rintro rfl; cases h⟩
  · have hold (hc : c ∈ m.sends) : c.conn < m.allocs ∧ (c.active = true → c.file = some (.conn (m.hist c.conn).sock)) :=
      hI.sends c hc
    have hgoal : c.conn < m.allocs ∧ (c.active = true → c.file = some (.conn (m.hist c.conn).sock)) := by
      rcases h.sends_of with he | ⟨p, text, hk, he⟩
      · simp only [he] at hc; exact hold hc
      · simp only [he] at hc
        rcases List.mem_append.1 hc with hc | hc
        · exact hold hc
        · obtain rfl := List.mem_singleton.1 hc
          -- an active record in hand has not been closed
          have hp : p ∈ L ∧ k.atClose ≠ some p := by
            rcases hk with rfl | ⟨b, rfl⟩
            · exact ⟨hok, by simp [Stage.atClose]⟩
            · exact ⟨hok, by simp [Stage.atClose]⟩
          have hb := hL.born p (hL.inserted hp.1)
          refine ⟨hb, fun ha => hD.own hb ?_⟩
          by_contra hcl
          exact hp.2 (hI.listed p ((hL.mem_iff p).1 hp.1) ha hcl)
    refine ⟨hgoal.1.trans_le (apply_allocs op), fun ha => ?_⟩
    rw [hsock]; exact hgoal.2 ha

theorem routed_step {v v' : View} {l : Label} (hv : v.stage ≠ .ended) (hB : v.Base) (hK : v.Closing) (hD : v.Leased)
    (hC : Covered v l) (hI : v.Routed) (h : Move v l v') : v'.Routed := by
  cases h with
  | setup hl hs ht h => exact routed_setup hB hK hC hI hl hs h
  | main hl hs h => exact routed_main hB hD hI h
  | connected a hs =>
    refine ⟨fun p hp ha hc => ?_, (by rintro p ⟨⟩), hI.sends⟩
    cases hI.listed p hp ha hc
  | accepted a hl hs hn => exact ⟨hI.listed, hI.found, hI.sends⟩
  | listen => exact hI
  | listenerEnds hs hr => exact ⟨hI.listed, hI.found, hI.sends⟩
  | @recv m su k d l p q op q' hq h =>
    cases h with
    | mark =>
      have hactive {x : Ptr} (hx : (((m.apply (.recv p) (.mark p)).setRecv p .unlock).node x).active = true) :
          (m.node x).active = true := by
        by_cases hxp : x = p
        · subst hxp; simp [Mem.apply, Mem.setRecv, Mem.setNode] at hx
        · simpa [Mem.apply, Mem.setRecv, Mem.setNode, hxp] using hx
      refine ⟨fun x hx ha hc => hI.listed x hx (hactive ha) hc, fun x hx => ?_, hI.sends⟩
      -- the main thread has the mutex, so no thread marks its record
      have hout := hB.owner.stage_outside hv (t := .recv p) (by simp [View.inside, hq, RecvPc.inside]) (by simp)
      have hk : k = .found x := hx
      rw [hk] at hout; cases hout
    | _ => exact ⟨hI.listed, hI.found, hI.sends⟩
  | peer hc => exact ⟨hI.listed, hI.found, hI.sends⟩

/-- **Send routing**: in every run in which a set-up takes back only records that the main
thread has ended or is ending, and no record is closed again while its number is in use,
sends go to the right peer. -/
theorem routes_own {E : Env} {s : State} (h : ReachView E Covered s) : s.RoutesOwn := by
  have hD : s.view.Leased := leases_reach (fun _ _ _ hC => hC.1) h
  have hB : s.view.Base := base_reach h
  have hK : s.view.Closing := closing_reach h
  have hI : s.view.Routed := by
    refine view_inv (J := fun v => (v.Base ∧ v.Closing) ∧ v.Leased)
      (fun _ hr => ⟨⟨base_reach hr, closing_reach hr⟩, leases_reach (fun _ _ _ hC => hC.1) hr⟩) ?_ ?_ h
    · exact ⟨fun p hp => absurd hp.1 List.not_mem_nil, (by rintro p ⟨⟩), fun c hc => absurd hc List.not_mem_nil⟩
    · rintro v l v' hv ⟨⟨hB, hK⟩, hD⟩ hI hC hm
      exact routed_step hv hB hK hD hC hI hm
  obtain ⟨L, hL, -, -⟩ := hB.registry
  refine ⟨fun hfree => ?_, fun p hp => ?_, fun c hc => (hI.sends c hc).2⟩
  · -- nobody is ending a record
    have hclose (p : Ptr) : s.view.stage.atClose ≠ some p := by
      intro hk
      have hne : s.view.stage ≠ .ended := by rintro he; rw [he] at hk; cases hk
      have hin : s.view.stage.inside = true := by
        cases hst : s.view.stage <;> rw [hst] at hk <;> first | rfl | cases hk
      have hown := (hB.owner hne .main).1 (by simp [View.inside, hin])
      exact absurd (hfree.symm.trans hown) (by simp)
    have hopen {p} (hp : p ∈ s.mem.listed) (ha : (s.mem.node p).active = true) :
        p < s.mem.allocs ∧ (s.mem.hist p).closes = [] := by
      have hl : s.view.mem.Listed p := hB.mem_listed.1 hp
      refine ⟨hL.born p hl.1, ?_⟩
      by_contra hc
      exact hclose p (hI.listed p hl ha hc)
    refine ⟨fun p hp ha => hD.own (hopen hp ha).1 (hopen hp ha).2, fun p hp q hq hpa hqa he => ?_⟩
    exact hD.apart (hopen hp hpa).1 (hopen hq hqa).1 (hopen hp hpa).2 (hopen hq hqa).2 he
  · rcases hp with ⟨id, text, hm⟩ | hm
    · exact hI.found p (by rw [State.view, hm]; rfl)
    · exact hK.passing p (by rw [State.view, hm]; rfl)

/-- An accepted connection gets a message; `pthread_create` fails for the next one, which
the exit command has already closed. -/
def coveredRollback : List Label :=
  accepts 4 ++ listens 7 ++ enters (.send 1 msgHi) ++ mains 5 ++ accepts 5 ++ listens 5 ++
    enters .exit ++ mains 12 ++ [.listener .fail] ++ listens 1

theorem routes_own_covered :
    ((chat .demo).after (fun s l => Covered s.view l) coveredRollback).mem.sends.length = 3 ∧
    ((chat .demo).after (fun s l => Covered s.view l) coveredRollback).RoutesOwn :=
  ⟨by decide +kernel, routes_own (Sync.Trans.reach_after _)⟩

/-- A connection is accepted and listed; its `pthread_create` fails. -/
def failedCreate : List Label :=
  accepts 4 ++ listens 5 ++ [.listener .fail] ++ listens 1

/-- **A listed active record whose descriptor has been closed.** -/
theorem rollback_leaves_active : ¬ ∀ (E : Env) (s : State), (chat E).Reachable s → s.RoutesOwn := by
  intro h
  have hroute := h .demo _ (Sync.Trans.reach_after failedCreate)
  have hown := (hroute.1 (by decide +kernel)).1 0 (by decide +kernel) (by decide +kernel)
  exact absurd hown (by decide +kernel)

end Chat
