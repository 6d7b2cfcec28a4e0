import LinuxExercises.Proof.Registry

/-!
# The order of shutdown, and who makes the threads

* `flow_reach`: `running` is 0 exactly in `cmd_exit`; behind its `pthread_join` the
  listener has ended and makes no more records.
* A listed record has a receive thread, unless its set-up is still under way (`Made`).
-/

namespace Chat

/-- `cmd_exit` after `running = 0`. -/
def Stage.exiting : Stage → Bool
  | .send b _ | .shutdown b _ | .close b _ | .clear b _ => b = .exit
  | .exitStart | .exitLock | .pass _ | .passed | .waiting => true
  | .exitRelock | .next _ | .exitJoining .. | .exitFree _ | .clearHead | .exitLeave => true
  | _ => false

/-- `cmd_exit` after the join of the listener. -/
def Stage.late : Stage → Bool
  | .exitRelock | .next _ | .exitJoining .. | .exitFree _ | .clearHead | .exitLeave => true
  | _ => false

/-- **The order of shutdown.** -/
structure View.Flow (v : View) : Prop where
  done : v.done = true → v.setup .listener = none
  late : v.stage.late = true → v.done = true
  running : v.stage ≠ .ended → (v.mem.running = false ↔ v.stage.exiting = true)

theorem flow_step {v v' : View} {lab : Label} (hv : v.stage ≠ .ended) (hI : v.Flow) (h : Move v lab v') :
    v'.Flow := by
  have hrun := hI.running hv
  cases h with
  | @setup m su k d lab t ch q op q' hl hs ht h =>
    refine ⟨fun hd => ?_, hI.late, fun _ => ?_⟩
    · rcases ht with ⟨rfl, rfl⟩ | rfl
      · exact hI.done hd
      · exact absurd (hI.done hd) (by simp [hs])
    · cases h <;> exact hrun
  | @main m su k d lab ch op k' hl hs h =>
    refine ⟨hI.done, ?_, ?_⟩
    · cases h with
      | joinListener hd => exact fun _ => hd
      | _ => first | exact hI.late | exact fun _ => hI.late rfl
    · cases h with
      | eof => exact fun h => absurd rfl h
      | killFound => exact fun h => absurd rfl h
      | kill => exact fun h => absurd rfl h
      | exitLeave => exact fun h => absurd rfl h
      | stop => exact fun _ => ⟨fun _ => rfl, fun _ => rfl⟩
      | _ => exact fun _ => hrun
  | connected a hs =>
    exact ⟨fun hd => hI.done hd, hI.late, fun _ => hrun⟩
  | accepted a hl hs hn => exact ⟨fun hd => (by cases hd), hI.late, fun _ => hrun⟩
  | listen => exact hI
  | listenerEnds hs hr => exact ⟨fun _ => hs, fun _ => rfl, fun _ => hrun⟩
  | recv hq h => exact ⟨hI.done, hI.late, fun _ => by cases h <;> exact hrun⟩
  | peer hc => exact ⟨hI.done, hI.late, fun _ => hrun⟩

/-- A set-up that moves is of the main thread at rest, or of the running listener. -/
theorem View.Flow.setup_early {m : Mem} {su : Tid → Option SetupPc} {k : Stage} {d : Bool} {t : Tid}
    {q : SetupPc} (hI : View.Flow ⟨m, su, k, d⟩) (ht : t = .main ∧ k = .rest ∨ t = .listener)
    (hs : su t = some q) : k.late = false := by
  rcases ht with ⟨-, rfl⟩ | rfl
  · rfl
  · cases hk : k.late with
    | false => rfl
    | true => have hn := hs.symm.trans (hI.done (hI.late hk)); cases hn

/-! ## Listed records have threads -/

/-- A record is on the list. -/
def Mem.Listed (m : Mem) (p : Ptr) : Prop := p ∈ m.inserted ∧ p ∉ m.unlinked

theorem View.Base.mem_listed {v : View} (h : v.Base) {p : Ptr} : p ∈ v.mem.listed ↔ v.mem.Listed p := by
  obtain ⟨l, hL, -, -⟩ := h.registry
  rw [hL.listed_eq]; exact hL.mem_iff p

/-- A listed record has a receive thread, or its set-up has still to make it. -/
def View.Made (v : View) : Prop :=
  ∀ p, v.mem.Listed p → v.mem.recv p ≠ none ∨ ∃ t q, v.setup t = some q ∧ q.unmade = some p

theorem made_step {v v' : View} {lab : Label} (hB : v.Base) (hI : v.Made) (h : Move v lab v') : v'.Made := by
  cases h with
  | @setup m su k d lab t ch q op q' hl hs ht h =>
    -- the set-ups that keep their record
    have hkeep (m' : Mem) (hr : ∀ p, m.recv p ≠ none → m'.recv p ≠ none)
        (hu : ∀ p, q.unmade = some p → m'.Listed p → m'.recv p ≠ none ∨ ∃ q₁, q' = some q₁ ∧ q₁.unmade = some p)
        (p : Ptr) (hp : m.Listed p) (hp' : m'.Listed p) :
        m'.recv p ≠ none ∨ ∃ t' q₁, Function.update su t q' t' = some q₁ ∧ q₁.unmade = some p := by
      rcases hI p hp with hI | ⟨t', q₁, h₁, hq₁⟩
      · exact .inl (hr p hI)
      · by_cases hne : t' = t
        · subst hne
          cases hs.symm.trans h₁
          rcases hu p hq₁ hp' with hr | ⟨q₂, hq₂, hu₂⟩
          · exact .inl hr
          · exact .inr ⟨t', q₂, by rw [Function.update_self, hq₂], hu₂⟩
        · exact .inr ⟨t', q₁, (Function.update_of_ne hne _ _).trans h₁, hq₁⟩
    intro x hx
    cases h with
    | publish p fd =>
      by_cases hxp : x = p
      · subst hxp; exact .inr ⟨t, _, Function.update_self .., rfl⟩
      · have hx' : m.Listed x := ⟨(List.mem_cons.1 hx.1).resolve_left hxp, hx.2⟩
        exact hkeep (m.apply t (.publish p)) (fun _ h => h) (by rintro y ⟨⟩ -; exact .inr ⟨_, rfl, rfl⟩) x hx' hx
    | create p fd =>
      have hself : (m.apply t (.create p)).recv p ≠ none := by simp [Mem.apply, Mem.setRecv]
      refine hkeep (m.apply t (.create p)) (fun y hy => ?_) ?_ x hx hx
      · by_cases hyp : y = p
        · subst hyp; exact hself
        · simpa [Mem.apply, Mem.setRecv, Mem.setNode, hyp] using hy
      · rintro y ⟨⟩ -; exact .inl hself
    | rbUnlink p prev =>
      have hx' : m.Listed x := ⟨hx.1, fun h => hx.2 (List.mem_cons_of_mem _ h)⟩
      exact hkeep (m.apply t (.unlink p prev)) (fun _ h => h) (by rintro y ⟨⟩ -; exact .inr ⟨_, rfl, rfl⟩) x hx' hx
    | rbFree p =>
      refine hkeep m (fun _ h => h) (fun y hyp hy => ?_) x hx hx
      cases hyp
      obtain ⟨l, hL, hS, -⟩ := hB.registry
      exact absurd ((hL.mem_iff p).2 hy) (hS t _ hs).2
    | _ => exact hkeep m (fun _ h => h) (by rintro y ⟨⟩ - <;> exact .inr ⟨_, rfl, rfl⟩) x hx hx
  | @main m su k d lab ch op k' hl hs h =>
    intro x hx
    cases h with
    | unlink b p prev => exact hI x ⟨hx.1, fun h => hx.2 (List.mem_cons_of_mem _ h)⟩
    | clearHead => exact hI x ⟨hx.1, fun h => hx.2 (List.mem_append_right _ h)⟩
    | _ => exact hI x hx
  | @connected m su d lab fd c a hs =>
    intro x hx
    rcases hI x hx with hI | ⟨t', q₁, h₁, hq₁⟩
    · exact .inl hI
    · have hne : t' ≠ .main := by rintro rfl; cases hs.symm.trans h₁
      exact .inr ⟨t', q₁, (Function.update_of_ne hne _ _).trans h₁, hq₁⟩
  | @accepted m su k lab n a hl hs hn =>
    intro x hx
    rcases hI x hx with hI | ⟨t', q₁, h₁, hq₁⟩
    · exact .inl hI
    · have hne : t' ≠ .listener := by rintro rfl; cases hs.symm.trans h₁
      exact .inr ⟨t', q₁, (Function.update_of_ne hne _ _).trans h₁, hq₁⟩
  | listen => exact hI
  | listenerEnds hs hr => exact hI
  | @recv m su k d lab p q op q' hq h =>
    intro x hx
    have hl : m.Listed x := by cases h <;> exact hx
    rcases hI x hl with hI | hI
    · have hq' : (m.apply (.recv p) op).recv p = some q := by rw [h.recv_eq]; exact hq
      refine .inl (mt (setRecv_none hq' x).1 ?_)
      rw [h.recv_eq]; exact hI
    · exact .inr hI
  | peer hc => exact hI

/-- **What holds in every run.** -/
theorem flow_reach {E : Env} {C : View → Label → Prop} {s : State} (h : ReachView E C s) :
    s.view.Base ∧ s.view.Flow ∧ s.view.Made := by
  refine ⟨base_reach h, view_inv (J := View.Base) (I := fun v => v.Flow ∧ v.Made) (fun _ => base_reach) ?_ ?_ h⟩
  · have hflow : State.init.view.Flow := by
      refine ⟨fun _ => rfl, ?_, fun _ => ?_⟩
      · intro h; cases h
      · simp [State.view, State.init, Mem.init, MainPc.stage, Stage.exiting]
    exact ⟨hflow, fun p hp => absurd hp.1 List.not_mem_nil⟩
  · rintro v lab v' hv hB ⟨hF, hM⟩ - hm
    exact ⟨flow_step hv hF hm, made_step hB hM hm⟩

end Chat
