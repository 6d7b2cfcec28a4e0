import LinuxExercises.Proof.Records
import LinuxExercises.Sync.Owner

/-!
# `conn_mutex`

* `owner_reach`: while the process runs, `conn_mutex` names exactly the thread that is
  between a lock and an unlock.
-/

namespace Chat

/-- The places where the main thread holds the mutex, outside of a set-up. -/
def Stage.inside : Stage → Bool
  | .held _ | .found _ | .doomed _ | .send .. | .shutdown .. | .close .. | .clear .. | .closed _ => true
  | .find .. | .unlink .. | .free .. | .logFreed _ => true
  | .pass _ | .passed | .next _ | .exitJoining .. | .exitFree _ | .clearHead | .exitLeave => true
  | _ => false

def SetupPc.inside : SetupPc → Bool
  | .link .. | .publish .. | .unlock .. | .rbFind _ | .rbUnlink .. | .rbFree _ | .rbUnlock => true
  | _ => false

def RecvPc.inside : RecvPc → Bool
  | .mark | .unlock => true
  | _ => false

/-- Is the thread between a lock and an unlock? -/
def View.inside (v : View) : Tid → Bool
  | .main => v.stage.inside || (v.setup .main).any SetupPc.inside
  | .listener => (v.setup .listener).any SetupPc.inside
  | .recv p => (v.mem.recv p).any RecvPc.inside

/-- **The mutex names the thread inside.** -/
def View.Owner (v : View) : Prop :=
  v.stage ≠ .ended → Sync.Owns (fun t => v.inside t = true) v.mem.connMutex

open Sync (LockStep)

variable {m : Mem} {ch : Choice} {op : Op}

theorem SetupMove.lockStep {q : SetupPc} {q' : Option SetupPc} (t : Tid) (h : SetupMove m ch q op q') :
    LockStep t m.connMutex (m.apply t op).connMutex q.inside (q'.any SetupPc.inside) := by
  cases h with
  | lock p fd hm => rw [hm]; exact .acquire
  | rbLock p hm => rw [hm]; exact .acquire
  | unlock p fd => exact .release _
  | rbUnlock => exact .release _
  | _ => exact .keep _ _

theorem RecvMove.lockStep {p : Ptr} {q q' : RecvPc} (h : RecvMove m p q op q') :
    LockStep (.recv p) m.connMutex (m.apply (.recv p) op).connMutex q.inside q'.inside := by
  cases h with
  | lock hm => rw [hm]; exact .acquire
  | unlock => exact .release _
  | _ => exact .keep _ _

theorem MainMove.lockStep {d : Bool} {k k' : Stage} (h : MainMove m d ch k op k') (hk : k' ≠ .ended) :
    LockStep .main m.connMutex (m.apply .main op).connMutex k.inside k'.inside := by
  cases h with
  | lock w hm => rw [hm]; exact .acquire
  | relock b p hm => rw [hm]; exact .acquire
  | exitLock hm => rw [hm]; exact .acquire
  | exitRelock hm => rw [hm]; exact .acquire
  | leave => exact .release _
  | leaveExit => exact .release _
  | unlockFound p => exact .release _
  | unlockFailed p => exact .release _
  | unlockDoomed p => exact .release _
  | unlockClosed p => exact .release _
  | unlockPassed => exact .release _
  | killFound => exact absurd rfl hk
  | kill => exact absurd rfl hk
  | exitLeave => exact absurd rfl hk
  | _ => exact .keep _ _

/-- A set-up leaves every receive thread inside or outside: the one it makes is new. -/
theorem SetupMove.recv_inside {q : SetupPc} {q' : Option SetupPc} {t : Tid}
    (hu : ∀ p, q.unmade = some p → m.recv p = none) (h : SetupMove m ch q op q') (x : Ptr) :
    ((m.apply t op).recv x).any RecvPc.inside = (m.recv x).any RecvPc.inside := by
  cases h with
  | create p fd hc =>
    by_cases hx : x = p
    · subst hx; rw [hu x rfl]; simp [Mem.apply, Mem.setRecv, RecvPc.inside]
    · simp [Mem.apply, Mem.setRecv, Mem.setNode, hx]
  | _ => rfl

theorem MainMove.recv_eq {d : Bool} {k k' : Stage} (h : MainMove m d ch k op k') :
    (m.apply .main op).recv = m.recv := by
  cases h <;> rfl

theorem RecvMove.recv_eq {p : Ptr} {q q' : RecvPc} (h : RecvMove m p q op q') :
    (m.apply (.recv p) op).recv = m.recv := by
  cases h <;> rfl

theorem owner_step {v v' : View} {l : Label} (hv : v.stage ≠ .ended) (hR : v.Records) (hI : v.Owner)
    (h : Move v l v') : v'.Owner := by
  intro hv'
  have hI := hI hv
  cases h with
  | @setup m su k d l t ch q op q' hl hs ht h =>
    have hrecv := h.recv_inside (t := t) (hR.unmade t q hs)
    rcases ht with ⟨rfl, rfl⟩ | rfl
    · refine hI.step (h.lockStep .main) ?_ ?_ ?_
      · simp [View.inside, hs, Stage.inside]
      · simp [View.inside, Stage.inside]
      · intro t' ht'
        cases t' with
        | main => exact absurd rfl ht'
        | listener => simp [View.inside, Function.update]
        | recv p => simp only [View.inside, hrecv]
    · refine hI.step (h.lockStep .listener) ?_ ?_ ?_
      · simp [View.inside, hs]
      · simp [View.inside]
      · intro t' ht'
        cases t' with
        | main => simp [View.inside, Function.update]
        | listener => exact absurd rfl ht'
        | recv p => simp only [View.inside, hrecv]
  | @main m su k d l ch op k' hl hs h =>
    refine hI.step (h.lockStep hv') ?_ ?_ ?_
    · simp [View.inside, hs]
    · simp [View.inside, hs]
    · intro t' ht'
      cases t' with
      | main => exact absurd rfl ht'
      | listener => rfl
      | recv p => simp only [View.inside, h.recv_eq]
  | connected a hs =>
    refine hI.congr fun t => ?_
    cases t <;> simp [View.inside, Stage.inside, Function.update, SetupPc.inside, hs]
  | accepted a hl hs hn =>
    refine hI.congr fun t => ?_
    cases t <;> simp [View.inside, Function.update, SetupPc.inside, hs, Mem.apply]
  | listen => exact hI
  | listenerEnds hs hr => exact hI
  | @recv m su k d l p q op q' hq h =>
    refine hI.step h.lockStep ?_ ?_ ?_
    · simp [View.inside, hq]
    · simp [View.inside, Mem.setRecv]
    · intro t' ht'
      cases t' with
      | main => rfl
      | listener => rfl
      | recv x =>
        have hx : x ≠ p := fun e => ht' (e ▸ rfl)
        simp [View.inside, Mem.setRecv, h.recv_eq, hx]
  | peer hc => exact hI

theorem owner_init : State.init.view.Owner := by
  intro _ t
  cases t <;> simp [View.inside, State.view, State.init, MainPc.stage, Stage.inside, State.setup,
    MainPc.inSetup, ListenerPc.inSetup, Mem.init]

theorem records_owner {E : Env} {C : View → Label → Prop} {s : State} (h : ReachView E C s) :
    s.view.Records ∧ s.view.Owner := by
  refine view_inv (J := fun _ => True) (I := fun v => v.Records ∧ v.Owner) (fun _ _ => trivial) ?_ ?_ h
  · exact ⟨records_init, owner_init⟩
  · rintro v l v' hv - ⟨hR, hO⟩ - hm
    exact ⟨records_step hR hm, owner_step hv hR hO hm⟩

/-- **Mutual exclusion**: two threads are never both inside. -/
theorem View.Owner.excl {v : View} (h : v.Owner) (hv : v.stage ≠ .ended) {t t' : Tid}
    (ht : v.inside t = true) (ht' : v.inside t' = true) : t = t' := (h hv).excl ht ht'

/-- While a thread is inside, the set-up of another thread is outside. -/
theorem View.Owner.setup_outside {v : View} (h : v.Owner) (hv : v.stage ≠ .ended) (hR : v.Records)
    {t t' : Tid} {q : SetupPc} (ht : v.inside t = true) (hne : t' ≠ t) (hs : v.setup t' = some q) :
    q.inside = false := by
  cases hq : q.inside with
  | false => rfl
  | true =>
    refine absurd (h.excl hv ?_ ht) hne
    cases t' with
    | main => simp [View.inside, hs, hq]
    | listener => simp [View.inside, hs, hq]
    | recv p => rw [hR.makers p] at hs; cases hs

/-- While another thread is inside, the main thread is outside. -/
theorem View.Owner.stage_outside {v : View} (h : v.Owner) (hv : v.stage ≠ .ended) {t : Tid}
    (ht : v.inside t = true) (hne : t ≠ .main) : v.stage.inside = false := by
  cases hk : v.stage.inside with
  | false => rfl
  | true => exact absurd (h.excl hv ht (by simp [View.inside, hk])) hne

/-- A set-up is inside with its thread. -/
theorem View.inside_setup {v : View} {t : Tid} {q : SetupPc} (ht : t = .main ∨ t = .listener)
    (hs : v.setup t = some q) (hq : q.inside = true) : v.inside t = true := by
  rcases ht with rfl | rfl <;> simp [View.inside, hs, hq]

end Chat
