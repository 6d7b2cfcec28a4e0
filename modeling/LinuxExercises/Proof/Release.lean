import LinuxExercises.Proof.Join
import LinuxExercises.Spec.Uses

/-!
# Released records

* `reap_logs_released`: `reap_connections` reads the id of the record it has just freed.
* `touches_live`: no step touches a released record, as long as `reap_connections` finds
  none to remove, `cmd_terminate` waits for the set-up of the record it ends, and the
  listener takes back no record that the main thread will still read outside the mutex.
-/

namespace Chat

/-- The records that the main thread touches at a stage. -/
def Stage.uses (m : Mem) : Stage → List Ptr
  | .held _ | .find .. => m.listed
  | .found p | .log p | .send _ p | .shutdown _ p | .close _ p | .clear _ p | .join _ p => [p]
  | .free _ p | .logFreed p | .exitFree p => [p]
  | .unlink _ p prev => p :: prev.toList
  | .pass cur | .next cur => cur.toList
  | _ => []

/-- `reap_connections` has met a marked record. -/
def Stage.reaping : Stage → Bool
  | .doomed _ | .logFreed _ => true
  | .join b _ | .joining b _ _ | .relock b _ | .find b _ | .unlink b _ _ | .free b _ => b ≠ .terminate
  | _ => false

/-- A record that the main thread has outside the mutex and will read. -/
def Stage.outsideHand : Stage → Option Ptr
  | .log p | .join _ p => some p
  | _ => none

/-- `cmd_terminate` at its `free`. -/
def Stage.termFree : Stage → Option Ptr
  | .free .terminate p => some p
  | _ => none

/-- A record between its unlinking and its `free`. -/
def Stage.toFree : Stage → Option Ptr
  | .free _ p => some p
  | _ => none

/-- The place of the second pass of `cmd_exit`, the record in hand included. -/
def Stage.onward : Stage → Option (Option Ptr)
  | .next cur => some cur
  | .exitJoining p _ | .exitFree p => some (some p)
  | _ => none

/-- `reap_connections` finds no marked record. -/
def NoReap (v : View) (l : Label) : Prop :=
  l.by .main = true → v.stage = .held .scan → ∀ p ∈ v.mem.listed, (v.mem.node p).shouldRemove = false

instance (v : View) (l : Label) : Decidable (NoReap v l) := by unfold NoReap; infer_instance

/-- `reap_connections` finds no marked record; `cmd_terminate` waits for the set-up of the
record it joins, and frees none that the listener still has in hand; the listener frees
none that the main thread will read outside the mutex. -/
def Careful (v : View) (l : Label) : Prop :=
  TermWaits v l ∧ NoReap v l ∧
  (l.by .main = true → ∀ p ∈ v.stage.termFree, (v.setup .listener).bind SetupPc.node ≠ some p) ∧
  (l.by .listener = true → ∀ p ∈ v.stage.outsideHand, v.setup .listener ≠ some (.rbFree p))

instance (v : View) (l : Label) : Decidable (Careful v l) := by unfold Careful; infer_instance

/-- **Which records are alive.** -/
structure View.Alive (v : View) : Prop where
  noReap : v.stage.reaping = false
  listed : ∀ p, v.mem.Listed p → v.stage.final = false → (v.mem.hist p).life ≠ .released
  setup : ∀ t q, v.setup t = some q → ∀ p, q.node = some p → (v.mem.hist p).life ≠ .released
  recv : ∀ p, v.mem.recv p ≠ none → v.mem.recv p ≠ some .finished → (v.mem.hist p).life ≠ .released
  hand : ∀ p, v.stage.outsideHand = some p → (v.mem.hist p).life ≠ .released
  toFree : ∀ p, v.stage.toFree = some p → (v.mem.hist p).life ≠ .released
  onward : ∀ cur, v.stage.onward = some cur → ∀ p, Sync.From v.mem.next cur p → (v.mem.hist p).life ≠ .released
  joining : ∀ b p t, v.stage = .joining b p t → t = some p
  exitJoining : ∀ p t, v.stage = .exitJoining p t → t = some p
  joined : ∀ p, v.stage.joined = some p → v.mem.recv p = some .finished

variable {m : Mem} {ch : Choice} {op : Op} {d : Bool} {k k' : Stage} {p : Ptr}

/-- A record is released by its `free`. -/
theorem life_keep {t : Tid} (h : (m.hist p).life ≠ .released) (hop : op ≠ .free p) :
    ((m.apply t op).hist p).life ≠ .released := by
  rcases op.alloc_or m p with ⟨fd, c, ip, port, rfl, rfl⟩ | hpa
  · rw [(apply_alloc fd c ip port).1]; simp
  · rw [apply_life op hpa, if_neg hop]
    split
    · simp
    · exact h

theorem SetupMove.free_eq {q : SetupPc} {q' : Option SetupPc} (h : SetupMove m ch q (.free p) q') :
    q = .rbFree p ∧ q' = some .rbUnlock := by
  cases h; exact ⟨rfl, rfl⟩

theorem MainMove.free_of (h : MainMove m d ch k (.free p) k') :
    (∃ b, k = .free b p ∧ b ≠ .exit) ∨ (k = .exitFree p ∧ k' = .next (m.next p)) := by
  cases h with
  | freeReap => exact .inl ⟨_, rfl, by simp⟩
  | free => exact .inl ⟨_, rfl, by simp⟩
  | exitFree => exact .inr ⟨rfl, rfl⟩

theorem Stage.late_of_onward {cur : Option Ptr} (h : k.onward = some cur) : k.late = true := by
  cases k <;> first | rfl | cases h

theorem alive_setup {su : Tid → Option SetupPc} {t : Tid} {l : Label} {q : SetupPc} {q' : Option SetupPc}
    (hv : k ≠ .ended) (hB : View.Base ⟨m, su, k, d⟩) (hF : View.Flow ⟨m, su, k, d⟩)
    (hC : Careful ⟨m, su, k, d⟩ l) (hI : View.Alive ⟨m, su, k, d⟩) (hl : l.who = some (t, ch))
    (hs : su t = some q) (ht : t = .main ∧ k = .rest ∨ t = .listener) (h : SetupMove m ch q op q') :
    View.Alive ⟨m.apply t op, Function.update su t q', k, d⟩ := by
  have ht' := ht.imp_left And.left
  obtain ⟨L, hL, hS, -⟩ := hB.registry
  -- what a record that is freed here can not be
  have hfree {p} (hop : op = .free p) : q = .rbFree p ∧ q' = some .rbUnlock := by subst hop; exact h.free_eq
  have hlate : k.late = false := hF.setup_early ht hs
  refine ⟨hI.noReap, fun p hp hk => ?_, setups_update_ne ?_ ?_, fun p hr hfin => ?_, fun p hp => ?_,
    fun p hp => ?_, fun cur hcur => ?_, hI.joining, hI.exitJoining, fun p hp => ?_⟩
  · rcases listed_of op hp with hp | rfl
    · refine life_keep (hI.listed p hp hk) fun hop => ?_
      obtain ⟨rfl, -⟩ := hfree hop
      exact (hS t _ hs).2 ((hL.mem_iff p).2 hp)
    · cases h with
      | publish p fd =>
        have hp : ((m.apply t (.publish p)).hist p).life ≠ .released :=
          life_keep (hI.setup t _ hs p rfl) (by simp)
        exact hp
  · intro q₁ hq p hp
    rcases h.node_of hq hp with ⟨hn, hop⟩ | ⟨ha, rfl⟩
    · exact life_keep (hI.setup t q hs p hn) hop
    · cases h with
      | alloc fd c a ip port => rw [(apply_alloc fd c ip port).1]; simp
      | _ => cases ha
  · intro t' q₁ hne h₁ p hp
    refine life_keep (hI.setup t' q₁ h₁ p hp) fun hop => ?_
    obtain ⟨rfl, -⟩ := hfree hop
    exact hne (hB.records.apart t' q₁ h₁ t _ hs p hp rfl)
  · by_cases hc : op = .create p
    · subst hc
      cases h with
      | create p fd =>
        have hp : ((m.apply t (.create p)).hist p).life ≠ .released :=
          life_keep (hI.setup t _ hs p rfl) (by simp)
        exact hp
    · simp only [apply_recv, if_neg hc] at hr hfin
      refine life_keep (hI.recv p hr hfin) fun hop => ?_
      obtain ⟨rfl, -⟩ := hfree hop
      exact hr (hB.records.unmade t _ hs p rfl)
  · refine life_keep (hI.hand p hp) fun hop => ?_
    obtain ⟨rfl, -⟩ := hfree hop
    rcases ht with ⟨rfl, rfl⟩ | rfl
    · cases hp
    · exact hC.2.2.2 (by simp [Label.by, hl]) p hp hs
  · refine life_keep (hI.toFree p hp) fun hop => ?_
    obtain ⟨rfl, -⟩ := hfree hop
    rcases ht with ⟨rfl, rfl⟩ | rfl
    · cases hp
    · -- the main thread is inside, so the listener is not at its `free`
      have hout := hB.owner.stage_outside hv (View.inside_setup (.inr rfl) hs rfl) (by simp)
      have hin : k.inside = true := by cases k <;> first | rfl | cases hp
      exact absurd (hin.symm.trans hout) (by simp)
  · exact absurd (hlate.symm.trans (Stage.late_of_onward hcur)) (by simp)
  · have hr := hI.joined p hp
    rw [apply_recv]
    split
    · rename_i hc; subst hc
      cases h with
      | create p fd => rw [hB.records.unmade t _ hs p rfl] at hr; cases hr
    · exact hr

theorem MainMove.reaping_of (h : MainMove m d ch k op k') (hk : k'.reaping = true) :
    k.reaping = true ∨ ∃ p ∈ m.listed, k = .held .scan ∧ (m.node p).shouldRemove = true := by
  cases h with
  | pick p hp hr => exact .inr ⟨p, hp, rfl, hr⟩
  | _ => first | exact .inl hk | exact .inl rfl | cases hk

theorem reaping_main {su : Tid → Option SetupPc} {l : Label} (hC : NoReap ⟨m, su, k, d⟩ l)
    (hI : k.reaping = false) (hl : l.who = some (.main, ch)) (h : MainMove m d ch k op k') : k'.reaping = false := by
  by_contra hk
  rcases h.reaping_of (by simpa using hk) with hk | ⟨p, hp, rfl, hr⟩
  · exact absurd (hI.symm.trans hk) (by simp)
  · exact absurd (hr.symm.trans (hC (by simp [Label.by, hl]) rfl p hp)) (by simp)

/-- What the main thread takes out of the mutex was under it, or is its already. -/
theorem MainMove.hand_of (h : MainMove m d ch k op k') (hp : k'.outsideHand = some p) :
    (∀ x, op ≠ .free x) ∧ (k.outsideHand = some p ∨ k = .found p ∨ k = .doomed p ∨ k = .closed p) := by
  cases h with
  | stay => exact ⟨by simp, .inl hp⟩
  | unlockFound x => cases hp; exact ⟨by simp, .inr (.inl rfl)⟩
  | unlockDoomed x => cases hp; exact ⟨by simp, .inr (.inr (.inl rfl))⟩
  | unlockClosed x => cases hp; exact ⟨by simp, .inr (.inr (.inr rfl))⟩
  | _ => cases hp

theorem MainMove.toFree_of (h : MainMove m d ch k op k') (hp : k'.toFree = some p) :
    (∀ x, op ≠ .free x) ∧ (k.toFree = some p ∨ ∃ b prev, k = .unlink b p prev) := by
  cases h with
  | stay => exact ⟨by simp, .inl hp⟩
  | unlink b x prev => cases hp; exact ⟨by simp, .inr ⟨b, prev, rfl⟩⟩
  | _ => cases hp

theorem MainMove.joinReturn (h : MainMove m d ch k (.joinReturn p) k') :
    ∃ t, ((∃ b, k = .joining b p t) ∨ k = .exitJoining p t) ∧ m.joinable t = true := by
  cases h with
  | joined b _ t hj => exact ⟨t, .inl ⟨b, rfl⟩, hj⟩
  | exitJoined _ t hj => exact ⟨t, .inr rfl, hj⟩

theorem MainMove.joining_of {b : By} {t : Option Ptr} (h : MainMove m d ch k op k')
    (hk : k' = .joining b p t ∨ k' = .exitJoining p t) :
    k = k' ∨ (op = .joinCall p ∧ t = (m.node p).thread) := by
  cases h with
  | stay => exact .inl rfl
  | join c x => rcases hk with hk | hk <;> cases hk; exact .inr ⟨rfl, rfl⟩
  | nextJoin x => rcases hk with hk | hk <;> cases hk; exact .inr ⟨rfl, rfl⟩
  | _ => rcases hk with hk | hk <;> cases hk

theorem alive_main {su : Tid → Option SetupPc} {l : Label} (hB : View.Base ⟨m, su, k, d⟩)
    (hF : View.Flow ⟨m, su, k, d⟩) (hMd : View.Made ⟨m, su, k, d⟩) (hC : Careful ⟨m, su, k, d⟩ l)
    (hJ : View.Joins ⟨m, su, k, d⟩) (hI : View.Alive ⟨m, su, k, d⟩) (hl : l.who = some (.main, ch))
    (hs : su .main = none) (h : MainMove m d ch k op k') : View.Alive ⟨m.apply .main op, su, k', d⟩ := by
  have hby : l.by .main = true := by simp [Label.by, hl]
  obtain ⟨L, hL, -, hok⟩ := hB.registry
  -- the main thread frees what it has unlinked, or in the second pass of `cmd_exit`
  have hfree {p} (hop : op = .free p) : (k = .free .terminate p ∧ p ∉ L) ∨ (k = .exitFree p ∧ k'.final = true) := by
    subst hop
    rcases h.free_of with ⟨b, rfl, hb⟩ | ⟨rfl, rfl⟩
    · have hnr := hI.noReap
      cases b with
      | terminate => exact .inl ⟨rfl, hok.2⟩
      | _ => first | exact absurd rfl hb | cases hnr
    · exact .inr ⟨rfl, rfl⟩
  have hrecv : (m.apply .main op).recv = m.recv := h.recv_eq
  have hcalled {p t} (hc : op = .joinCall p) (ht : t = (m.node p).thread) : t = some p := by
    subst hc
    exact ht.trans (joinCall_first hB hF hMd hs hC.1 hJ hl h).2
  have halive {p} (hp : p ∈ L) (hk : k.final = false) : (m.hist p).life ≠ .released :=
    hI.listed p ((hL.mem_iff p).1 hp) hk
  refine ⟨?_, fun p hp hk => ?_, fun t q h₁ p hp => ?_, fun p hr hfin => ?_, fun p hp => ?_, fun p hp => ?_,
    ?_, fun b p t hk => ?_, fun p t hk => ?_, fun p hp => ?_⟩
  · exact reaping_main hC.2.1 hI.noReap hl h
  · have hold : m.Listed p := (listed_of op hp).resolve_right (by rintro rfl; cases h)
    have hkf : k.final = false := by
      cases hkf : k.final with
      | false => rfl
      | true => exact absurd (hk.symm.trans (h.final_to hkf)) (by simp)
    refine life_keep (hI.listed p hold hkf) fun hop => ?_
    rcases hfree hop with ⟨-, hn⟩ | ⟨-, hf⟩
    · exact hn ((hL.mem_iff p).2 hold)
    · exact absurd (hk.symm.trans hf) (by simp)
  · refine life_keep (hI.setup t q h₁ p hp) fun hop => ?_
    rcases hfree hop with ⟨rfl, -⟩ | ⟨rfl, -⟩
    · refine hC.2.2.1 hby p rfl ?_
      cases t with
      | main => cases hs.symm.trans h₁
      | listener => exact Option.bind_eq_some_iff.2 ⟨q, h₁, hp⟩
      | recv x => cases (hB.records.makers x).symm.trans h₁
    · cases t with
      | main => cases hs.symm.trans h₁
      | listener => cases (hF.done (hF.late rfl)).symm.trans h₁
      | recv x => cases (hB.records.makers x).symm.trans h₁
  · simp only [hrecv] at hr hfin
    refine life_keep (hI.recv p hr hfin) fun hop => ?_
    subst hop
    exact hfin (hI.joined p h.free_joined)
  · obtain ⟨hop, hk⟩ := h.hand_of hp
    refine life_keep ?_ (hop p)
    rcases hk with hk | rfl | rfl | rfl
    · exact hI.hand p hk
    · exact halive hok rfl
    · exact halive hok rfl
    · exact halive hok rfl
  · obtain ⟨hop, hk⟩ := h.toFree_of hp
    refine life_keep ?_ (hop p)
    rcases hk with hk | ⟨b, prev, rfl⟩
    · exact hI.toFree p hk
    · exact halive (hok.mem hL.chain) rfl
  · cases h with
    | exitRelock hm =>
      rintro cur ⟨⟩ p hp
      have hp' : ((m.apply .main .lock).hist p).life ≠ .released :=
        life_keep (halive (hL.chain.from_iff.1 hp) rfl) (by simp)
      exact hp'
    | nextJoin x =>
      rintro cur ⟨⟩ p hp
      have hp' : ((m.apply .main (.joinCall x)).hist p).life ≠ .released :=
        life_keep (hI.onward _ rfl p hp) (by simp)
      exact hp'
    | exitJoined x t hj =>
      rintro cur ⟨⟩ p hp
      have hp' : ((m.apply .main (.joinReturn x)).hist p).life ≠ .released :=
        life_keep (hI.onward _ rfl p hp) (by simp)
      exact hp'
    | exitFree x =>
      rintro cur ⟨⟩ p hp
      have hpx : x ≠ p := by rintro rfl; exact hL.chain.not_from_next hL.nodup hok hp
      have hp' : ((m.apply .main (.free x)).hist p).life ≠ .released :=
        life_keep (hI.onward _ rfl p (.there hp)) (by simpa using hpx)
      exact hp'
    | stay k => exact hI.onward
    | _ => rintro cur ⟨⟩
  · rcases h.joining_of (.inl hk) with rfl | ⟨hc, ht⟩
    · exact hI.joining b p t hk
    · exact hcalled hc ht
  · rcases h.joining_of (b := .exit) (.inr hk) with rfl | ⟨hc, ht⟩
    · exact hI.exitJoining p t hk
    · exact hcalled hc ht
  · simp only [hrecv]
    rcases h.joined_of hp with hk | rfl
    · exact hI.joined p hk
    · obtain ⟨t, hk, hj⟩ := h.joinReturn
      have ht : t = some p := by
        rcases hk with ⟨b, rfl⟩ | rfl
        · exact hI.joining b p t rfl
        · exact hI.exitJoining p t rfl
      subst ht
      simpa [Mem.joinable] using hj

theorem alive_step {v v' : View} {l : Label} (hv : v.stage ≠ .ended) (hB : v.Base) (hF : v.Flow)
    (hMd : v.Made) (hC : Careful v l) (hJ : v.Joins) (hI : v.Alive) (h : Move v l v') : v'.Alive := by
  cases h with
  | setup hl hs ht h => exact alive_setup hv hB hF hC hI hl hs ht h
  | main hl hs h => exact alive_main hB hF hMd hC hJ hI hl hs h
  | connected a hs =>
    refine ⟨rfl, hI.listed, setups_update ?_ hI.setup, hI.recv, (by rintro p ⟨⟩), (by rintro p ⟨⟩), (by rintro cur ⟨⟩),
      (by rintro b p t ⟨⟩), (by rintro p t ⟨⟩), (by rintro p ⟨⟩)⟩
    rintro q ⟨⟩ p ⟨⟩
  | accepted a hl hs hn =>
    refine ⟨hI.noReap, hI.listed, setups_update ?_ hI.setup, hI.recv, hI.hand, hI.toFree, hI.onward, hI.joining,
      hI.exitJoining, hI.joined⟩
    rintro q ⟨⟩ p ⟨⟩
  | listen => exact hI
  | listenerEnds hs hr =>
    exact ⟨hI.noReap, hI.listed, hI.setup, hI.recv, hI.hand, hI.toFree, hI.onward, hI.joining, hI.exitJoining, hI.joined⟩
  | @recv m su k d l p q op q' hq h =>
    -- the thread has not returned yet
    have hfin : q ≠ .finished := by cases h <;> simp
    have hrecv (x : Ptr) (hx : x ≠ p) : ((m.apply (.recv p) op).setRecv p q').recv x = m.recv x := by
      simp [Mem.setRecv, hx, h.recv_eq]
    have hlive (x : Ptr) (hn : ((m.apply (.recv p) op).setRecv p q').recv x ≠ none)
        (hf : ((m.apply (.recv p) op).setRecv p q').recv x ≠ some .finished) : (m.hist x).life ≠ .released := by
      by_cases hx : x = p
      · subst hx; exact hI.recv x (by simp [hq]) (by simpa [hq] using hfin)
      · rw [hrecv x hx] at hn hf; exact hI.recv x hn hf
    have hjoined (x : Ptr) (hx : k.joined = some x) : ((m.apply (.recv p) op).setRecv p q').recv x = some .finished := by
      have hold : m.recv x = some .finished := hI.joined x hx
      have hxp : x ≠ p := by rintro rfl; exact hfin (Option.some.inj (hq.symm.trans hold))
      rw [hrecv x hxp]; exact hold
    cases h <;> exact ⟨hI.noReap, hI.listed, hI.setup, hlive, hI.hand, hI.toFree, hI.onward, hI.joining, hI.exitJoining,
      hjoined⟩
  | peer hc =>
    exact ⟨hI.noReap, hI.listed, hI.setup, hI.recv, hI.hand, hI.toFree, hI.onward, hI.joining, hI.exitJoining, hI.joined⟩

theorem alive_reach {E : Env} {s : State} (h : ReachView E Careful s) : s.view.Alive := by
  refine view_inv (J := fun v => (v.Base ∧ v.Flow ∧ v.Made) ∧ v.Joins)
    (fun _ hr => ⟨flow_reach hr, (joins_reach (fun _ _ hC => hC.1) hr).2⟩) ?_ ?_ h
  · refine ⟨rfl, fun p hp => absurd hp.1 List.not_mem_nil, ?_, fun p hp => absurd rfl hp,
      (by rintro p ⟨⟩), (by rintro p ⟨⟩), (by rintro cur ⟨⟩), (by rintro b p t ⟨⟩), (by rintro p t ⟨⟩), (by rintro p ⟨⟩)⟩
    intro t q h; cases t <;> cases h
  · rintro v l v' hv ⟨⟨hB, hF, hMd⟩, hJ⟩ hI hC hm
    exact alive_step hv hB hF hMd hC hJ hI hm

/-! ## What a step touches -/

theorem MainPc.uses_sub {q : MainPc} (h : p ∈ q.uses m) :
    p ∈ q.stage.uses m ∨ ∃ r, q.inSetup = some r ∧ p ∈ r.uses m := by
  cases q with
  | loop => cases h
  | reap q after => left; cases q <;> first | exact h | cases h
  | connect q =>
    cases q with
    | setup r => exact .inr ⟨r, rfl, h⟩
    | _ => left; first | exact h | cases h
  | list q => left; cases q <;> first | exact h | cases h
  | terminate id q => left; cases q <;> first | exact h | cases h
  | send id text q => left; cases q <;> first | exact h | cases h
  | exit q => left; cases q <;> exact h
  | ended => cases h

theorem Stage.late_of_final (h : k.final = true) (hk : k ≠ .ended) : k.late = true := by
  cases k <;> first | rfl | exact absurd rfl hk | cases h

/-- What the main thread touches at a stage is alive. -/
theorem View.Alive.stage {v : View} (hI : v.Alive) (hB : v.Base) (hp : p ∈ v.stage.uses v.mem) :
    (v.mem.hist p).life ≠ .released := by
  obtain ⟨m, su, k, d⟩ := v
  obtain ⟨L, hL, -, hok⟩ := hB.registry
  have halive {x} (hx : x ∈ L) (hk : k.final = false) : (m.hist x).life ≠ .released :=
    hI.listed x ((hL.mem_iff x).1 hx) hk
  have hlisted (hx : p ∈ m.listed) (hk : k.final = false) : (m.hist p).life ≠ .released :=
    hI.listed p (hB.mem_listed.1 hx) hk
  cases k with
  | held w => exact hlisted hp rfl
  | find b x => exact hlisted hp rfl
  | found x => obtain rfl := List.mem_singleton.1 hp; exact halive hok rfl
  | send b x => obtain rfl := List.mem_singleton.1 hp; exact halive hok rfl
  | shutdown b x => obtain rfl := List.mem_singleton.1 hp; exact halive hok rfl
  | close b x => obtain rfl := List.mem_singleton.1 hp; exact halive hok rfl
  | clear b x => obtain rfl := List.mem_singleton.1 hp; exact halive hok rfl
  | log x => obtain rfl := List.mem_singleton.1 hp; exact hI.hand p rfl
  | join b x => obtain rfl := List.mem_singleton.1 hp; exact hI.hand p rfl
  | free b x => obtain rfl := List.mem_singleton.1 hp; exact hI.toFree p rfl
  | logFreed x => have hn := hI.noReap; cases hn
  | exitFree x => obtain rfl := List.mem_singleton.1 hp; exact hI.onward _ rfl p (.here p)
  | unlink b x prev =>
    rcases List.mem_cons.1 hp with rfl | hp
    · exact halive (hok.mem hL.chain) rfl
    · obtain rfl := Option.mem_toList.1 hp
      exact halive hok.1 rfl
  | pass cur => exact halive (hok p (Option.mem_toList.1 hp)) rfl
  | next cur =>
    obtain rfl := Option.mem_toList.1 hp
    exact hI.onward _ rfl p (.here p)
  | _ => cases hp

/-- What a set-up touches is alive. -/
theorem View.Alive.touched {v : View} (hI : v.Alive) (hB : v.Base) {t : Tid} {q : SetupPc}
    (hs : v.setup t = some q) (hk : v.stage.final = false) (hp : p ∈ q.uses v.mem) :
    (v.mem.hist p).life ≠ .released := by
  obtain ⟨L, hL, hS, -⟩ := hB.registry
  have halive {x} (hx : x ∈ L) : (v.mem.hist x).life ≠ .released := hI.listed x ((hL.mem_iff x).1 hx) hk
  cases q with
  | rbFind x => exact hI.listed p (hB.mem_listed.1 hp) hk
  | rbUnlink x prev =>
    have hok : Sync.Hangs _ _ L x prev := hS t _ hs
    rcases List.mem_cons.1 hp with rfl | hp
    · exact halive (hok.mem hL.chain)
    · obtain rfl := Option.mem_toList.1 hp
      exact halive hok.1
  | link x fd => obtain rfl := List.mem_singleton.1 hp; exact hI.setup t _ hs p rfl
  | create x fd => obtain rfl := List.mem_singleton.1 hp; exact hI.setup t _ hs p rfl
  | rbFree x => obtain rfl := List.mem_singleton.1 hp; exact hI.setup t _ hs p rfl
  | log x => obtain rfl := List.mem_singleton.1 hp; exact hI.setup t _ hs p rfl
  | _ => cases hp

theorem RecvPc.uses_sub {x : Ptr} {q : RecvPc} (h : p ∈ q.uses x ch) : p = x ∧ q ≠ .finished := by
  cases q with
  | top => exact ⟨List.mem_singleton.1 h, by simp⟩
  | got buf => exact ⟨List.mem_singleton.1 h, by simp⟩
  | mark => exact ⟨List.mem_singleton.1 h, by simp⟩
  | inRecv c =>
    simp only [RecvPc.uses] at h
    split at h
    · exact ⟨List.mem_singleton.1 h, by simp⟩
    · cases h
  | _ => cases h

/-- **Released records are left alone**: in every run in which `reap_connections` finds no
marked record, `cmd_terminate` waits for the set-up of the record it ends, and the listener
takes back no record that the main thread will still read, no step touches a released
record. -/
theorem touches_live {E : Env} {s : State} (h : ReachView E Careful s) : s.TouchesLive E := by
  have hI := alive_reach h
  obtain ⟨hB, hF, -⟩ := flow_reach h
  intro l s' hst p hp
  have hended : s.view.stage ≠ .ended := (step_move hst).1
  have hfinal {t : Tid} {q : SetupPc} (hs : s.view.setup t = some q) : s.view.stage.final = false := by
    cases t with
    | main =>
      have hk : s.main.stage = .rest := s.stage_rest hs
      simp [State.view, hk, Stage.final]
    | listener =>
      by_contra hk
      have hlate := Stage.late_of_final (by simpa using hk) hended
      cases hs.symm.trans (hF.done (hF.late hlate))
    | recv x => cases hs
  cases l with
  | main ch =>
    rcases MainPc.uses_sub hp with hp | ⟨r, hr, hp⟩
    · exact hI.stage hB hp
    · have hs : s.view.setup .main = some r := hr
      exact hI.touched hB hs (hfinal hs) hp
  | listener ch =>
    cases hL : s.listener with
    | setup q =>
      have hs : s.view.setup .listener = some q := by simp [State.view, State.setup, hL, ListenerPc.inSetup]
      have hp' : p ∈ q.uses s.mem := by simpa [State.uses, hL, ListenerPc.uses] using hp
      exact hI.touched hB hs (hfinal hs) hp'
    | _ => simp [State.uses, hL, ListenerPc.uses] at hp
  | recv x ch =>
    cases hq : s.mem.recv x with
    | none => simp [State.uses, hq] at hp
    | some q =>
      have hp' : p ∈ q.uses x ch := by simpa [State.uses, hq] using hp
      obtain ⟨rfl, hfin⟩ := RecvPc.uses_sub hp'
      have hq' : s.view.mem.recv p = some q := hq
      exact hI.recv p (by simp [hq']) (by simpa [hq'] using hfin)
  | peer c e => cases hp

/-- A connection is accepted; its peer closes; `cmd_terminate` ends it. -/
def carefulTerminate : List Label :=
  accepts 4 ++ listens 8 ++ .recv 0 .ok :: enters (.terminate 1) ++ mains 7 ++
    [.recv 0 .eof, .recv 0 .ok, .recv 0 .ok, .recv 0 .ok] ++ mains 6

theorem touches_live_careful :
    (((chat .demo).after (fun s l => Careful s.view l) carefulTerminate).mem.hist 0).life = .released ∧
    ((chat .demo).after (fun s l => Careful s.view l) carefulTerminate).TouchesLive .demo :=
  ⟨by decide +kernel, touches_live (Sync.Trans.reach_after _)⟩

/-- A connection is accepted and closed by its peer; the next `reap_connections` removes it. -/
def reapClosed : List Label :=
  accepts 4 ++ listens 8 ++ [.recv 0 .ok, .peer 0 .close, .recv 0 .eof, .recv 0 .ok, .recv 0 .ok, .recv 0 .ok] ++
    .main (.line .idle) :: mains 9

/-- **The log line of `reap_connections`** reads a record that has just been released. -/
theorem reap_logs_released : ¬ ∀ (E : Env) (s : State), (chat E).Reachable s → s.TouchesLive E := by
  intro h
  have hlive := h .demo _ (Sync.Trans.reach_after reapClosed) (.main .ok)
  cases hs : (chat .demo).step ((chat .demo).after Sync.Trans.Free reapClosed) (.main .ok) with
  | none => exact absurd hs (by decide +kernel)
  | some s' => exact absurd (hlive s' hs 0 (by decide +kernel)) (by decide +kernel)

end Chat
