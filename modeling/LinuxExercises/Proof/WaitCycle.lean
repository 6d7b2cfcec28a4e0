import LinuxExercises.Proof.Flow

/-!
# Joining under the mutex

`reap_connections` and `cmd_terminate` give the mutex back before they join a receive
thread; `cmd_exit` joins under it, while the thread may still need it for its last block.

* `exit_wait_cycle`: so there is a run in which both wait for each other.
* `no_wait_cycle`: there is none if `cmd_exit` takes the mutex for its second pass only
  after every listed receive thread has been through its last block.
-/

namespace Chat

/-- Has the receive thread still to take the mutex before it can return? -/
def RecvPc.needsMutex : RecvPc → Bool
  | .top | .inRecv _ | .got _ | .lock => true
  | .mark | .unlock | .finished => false

/-- The thread that the main thread is blocked on in `pthread_join`. -/
def MainPc.joins : MainPc → Option Ptr
  | .reap (.joining _ t) _ => t
  | .terminate _ (.joining _ t) => t
  | .exit (.joining _ t) => t
  | _ => none

/-- **A wait cycle**: the main thread holds the mutex and is blocked in `pthread_join` on a
receive thread that still has to take it. -/
def State.WaitCycle (s : State) : Prop :=
  s.mem.connMutex = some .main ∧ (s.main.joins.bind s.mem.recv).any RecvPc.needsMutex = true

instance (s : State) : Decidable s.WaitCycle := inferInstanceAs (Decidable (_ ∧ _))

/-- When `cmd_exit` takes the mutex for its second pass, no listed receive thread still has to
take it. -/
def ExitWaits (v : View) (l : Label) : Prop :=
  l.by .main = true → v.stage = .exitRelock → ∀ p ∈ v.mem.listed, (v.mem.recv p).any RecvPc.needsMutex = false

instance (v : View) (l : Label) : Decidable (ExitWaits v l) := inferInstanceAs (Decidable (_ → _ → _))

/-- In its second pass `cmd_exit` only meets threads that need no mutex. -/
structure View.Settled (v : View) : Prop where
  recv : v.stage.late = true → v.stage ≠ .exitRelock →
    ∀ p, v.mem.Listed p → (v.mem.recv p).any RecvPc.needsMutex = false
  join : ∀ p t, v.stage = .exitJoining p t → t = none ∨ t = some p

/-- The second pass joins the thread of the record at hand. -/
theorem View.Records.thread_eq {v : View} (h : v.Records) (p : Ptr) :
    (v.mem.node p).thread = none ∨ (v.mem.node p).thread = some p := by
  by_cases hr : v.mem.recv p = none
  · exact .inl (h.noThread p hr)
  · exact .inr (h.thread p hr).2

theorem RecvMove.needsMutex {m : Mem} {p : Ptr} {q q' : RecvPc} {op : Op} (h : RecvMove m p q op q')
    (hq : q.needsMutex = false) : q'.needsMutex = false := by
  cases h <;> first | rfl | simp [RecvPc.needsMutex] at hq

theorem settled_step {v v' : View} {l : Label} (hB : v.Base) (hF : v.Flow) (hC : ExitWaits v l)
    (hI : v.Settled) (h : Move v l v') : v'.Settled := by
  cases h with
  | @setup m su k d l t ch q op q' hl hs ht h =>
    -- no set-up is under way in the second pass
    have hlate : k.late = false := hF.setup_early ht hs
    exact ⟨fun hk => absurd (hlate.symm.trans hk) (by simp), hI.join⟩
  | @main m su k d l ch op k' hl hs h =>
    cases h with
    | exitRelock hm =>
      refine ⟨fun _ _ p hp => hC (by simp [hl, Label.by]) rfl p (hB.mem_listed.2 hp), ?_⟩
      rintro p t ⟨⟩
    | nextJoin p =>
      refine ⟨fun _ _ => hI.recv rfl (by simp), ?_⟩
      rintro x t ⟨⟩
      exact hB.records.thread_eq p
    | clearHead =>
      refine ⟨fun _ _ p hp => ?_, ?_⟩
      · exact hI.recv rfl (by simp) p ⟨hp.1, fun h => hp.2 (List.mem_append_right _ h)⟩
      · rintro p t ⟨⟩
    | stay k => exact hI
    | nextEnd => exact ⟨fun _ _ => hI.recv rfl (by simp), by rintro p t ⟨⟩⟩
    | exitJoined p t hj => exact ⟨fun _ _ => hI.recv rfl (by simp), by rintro p t ⟨⟩⟩
    | exitFree p => exact ⟨fun _ _ => hI.recv rfl (by simp), by rintro p t ⟨⟩⟩
    | joinListener hd => exact ⟨fun _ hn => absurd rfl hn, by rintro p t ⟨⟩⟩
    | _ => exact ⟨(fun hk => by cases hk), by rintro p t ⟨⟩⟩
  | connected a hs => exact ⟨(fun hk => by cases hk), by rintro p t ⟨⟩⟩
  | accepted a hl hs hn => exact ⟨hI.recv, hI.join⟩
  | listen => exact hI
  | listenerEnds hs hr => exact ⟨hI.recv, hI.join⟩
  | @recv m su k d l p q op q' hq h =>
    refine ⟨fun hk hn x hx => ?_, hI.join⟩
    have hx' : m.Listed x := by cases h <;> exact hx
    have hold := hI.recv hk hn x hx'
    simp only [Mem.setRecv, h.recv_eq]
    by_cases hxp : x = p
    · subst hxp
      have hqx : q.needsMutex = false := by simpa [hq] using hold
      simpa using h.needsMutex hqx
    · rw [Function.update_of_ne hxp]; exact hold
  | peer hc => exact ⟨hI.recv, hI.join⟩

theorem joins_stage {q : MainPc} {p : Ptr} (h : q.joins = some p) :
    ((∃ b x, q.stage = .joining b x (some p)) ∨ ∃ x, q.stage = .exitJoining x (some p)) ∧ q.inSetup = none := by
  cases q with
  | reap q after => cases q <;> cases h; exact ⟨.inl ⟨_, _, rfl⟩, rfl⟩
  | terminate id q => cases q <;> cases h; exact ⟨.inl ⟨_, _, rfl⟩, rfl⟩
  | exit q => cases q <;> cases h; exact ⟨.inr ⟨_, rfl⟩, rfl⟩
  | _ => cases h

/-- **No wait cycle**: if `cmd_exit` takes the mutex for its second pass only when every
listed receive thread is through its last block, then no run comes to a wait cycle, at any
of the three joins. -/
theorem no_wait_cycle {E : Env} {s : State} (h : ReachView E ExitWaits s) : ¬ s.WaitCycle := by
  have hS : s.view.Settled := by
    refine view_inv (J := fun v => v.Base ∧ v.Flow) (fun s h => ⟨base_reach h, (flow_reach h).2.1⟩) ?_ ?_ h
    · exact ⟨(fun h => by cases h), by rintro p t ⟨⟩⟩
    · rintro v l v' - ⟨hB, hF⟩ hI hC hm
      exact settled_step hB hF hC hI hm
  obtain ⟨hB, hF, -⟩ := flow_reach h
  rintro ⟨hown, hjoin⟩
  cases hp : s.main.joins with
  | none => simp [hp] at hjoin
  | some p =>
    rw [hp] at hjoin
    obtain ⟨hk, hsu⟩ := joins_stage hp
    rcases hk with ⟨b, x, hk⟩ | ⟨x, hk⟩
    · -- `reap_connections` and `cmd_terminate` are outside the mutex
      have hin := (hB.owner (show s.view.stage ≠ .ended by simp [State.view, hk]) .main).2 hown
      simp [View.inside, State.view, State.setup, hk, hsu, Stage.inside] at hin
    · -- `cmd_exit` joins the thread of a listed record
      obtain ⟨l, hL⟩ := hB.registry
      have hx : x ∈ l := by have := hL.stage; simpa [State.view, hk, Stage.Ok] using this
      obtain rfl : p = x := by have := hS.join x (some p) hk; simpa using this
      have hnone := hS.recv (by simp [State.view, hk, Stage.late]) (by simp [State.view, hk]) p
        ((hL.list.mem_iff p).1 hx)
      exact absurd (hnone.symm.trans hjoin) (by simp)

/-- One connection; its thread is through before `cmd_exit` joins it. -/
def patientExit : List Label :=
  accepts 4 ++ listens 7 ++ .recv 0 .ok :: enters .exit ++ mains 10 ++
    [.recv 0 .eof, .recv 0 .ok, .recv 0 .ok, .recv 0 .ok] ++ listens 1 ++ mains 3

theorem no_wait_cycle_patient :
    ((chat .demo).after (fun s l => ExitWaits s.view l) patientExit).main = .exit (.joining 0 (some 0)) ∧
    ¬ ((chat .demo).after (fun s l => ExitWaits s.view l) patientExit).WaitCycle :=
  ⟨by decide +kernel, no_wait_cycle (Sync.Trans.reach_after _)⟩

/-- One connection; its thread has not run when `cmd_exit` joins it. -/
def hastyExit : List Label :=
  accepts 4 ++ listens 7 ++ enters .exit ++ mains 10 ++ listens 1 ++ mains 3

/-- **The wait cycle of `cmd_exit`.** -/
theorem exit_wait_cycle : ¬ ∀ (E : Env) (s : State), (chat E).Reachable s → ¬ s.WaitCycle :=
  fun h => h .demo _ (Sync.Trans.reach_after hastyExit) (by decide +kernel)

end Chat
