import LinuxExercises.Proof.Release
import LinuxExercises.Proof.Shutdown

/-!
# No record is left behind

* `View.Traced`: a record that is not released is on the list, or some thread has it in hand:
  the set-up that is still to insert it, or the one that is to free it.
* `exit_frees_all`: when `cmd_exit` is through, every record that was ever allocated is released.
-/

namespace Chat

/-- A record that its set-up has still to insert. -/
def SetupPc.hidden : SetupPc → Option Ptr
  | .lock p _ | .link p _ | .publish p _ => some p
  | _ => none

/-- The place of the second pass of `cmd_exit`; `none` when it is through. -/
def Stage.toSweep : Stage → Option (Option Ptr)
  | .next cur => some cur
  | .exitJoining p _ | .exitFree p => some (some p)
  | .clearHead => some none
  | _ => none

theorem Stage.late_of_toSweep {k : Stage} {cur : Option Ptr} (h : k.toSweep = some cur) : k.late = true := by
  cases k <;> first | rfl | cases h

def Mem.Released (m : Mem) (p : Ptr) : Prop := (m.hist p).life = .released

/-- **Where a record that is not released is**: with the set-up that made it, on the list, or with
the thread that has unlinked it. -/
structure View.Traced (v : View) : Prop where
  hidden : ∀ p < v.mem.allocs, p ∉ v.mem.inserted → ∃ t q, v.setup t = some q ∧ q.hidden = some p
  unlinked : ∀ p ∈ v.mem.unlinked,
    v.mem.Released p ∨ v.stage.toFree = some p ∨ ∃ t, v.setup t = some (.rbFree p)
  swept : ∀ cur, v.stage.toSweep = some cur → ∀ p, v.mem.Listed p → Sync.From v.mem.next cur p ∨ v.mem.Released p
  empty : v.stage = .exitLeave → v.mem.connHead = none

variable {m : Mem} {su : Tid → Option SetupPc} {k k' : Stage} {d : Bool} {t : Tid} {ch : Choice} {op : Op}
  {q : SetupPc} {q' : Option SetupPc} {p : Ptr}

theorem released_keep (h : m.Released p) (hp : p < m.allocs) (hop : op ≠ .publish p) : (m.apply t op).Released p := by
  unfold Mem.Released
  rw [apply_life op fun _ => hp.ne, if_neg hop]
  split
  · rfl
  · exact h

theorem released_free (t : Tid) (p : Ptr) : (m.apply t (.free p)).Released p := by
  simp [Mem.Released, Mem.apply, Mem.note]

/-- A set-up keeps its hidden record, or inserts it. -/
theorem SetupMove.hidden_to (h : SetupMove m ch q op q') (hq : q.hidden = some p) :
    op = .publish p ∨ ∃ q₁, q' = some q₁ ∧ q₁.hidden = some p := by
  cases h with
  | lock | link => exact .inr ⟨_, rfl, hq⟩
  | publish => cases hq; exact .inl rfl
  | _ => cases hq

theorem SetupMove.unlinked_of (h : SetupMove m ch q op q') (hp : p ∈ (m.apply t op).unlinked) :
    p ∈ m.unlinked ∨ q' = some (.rbFree p) := by
  cases h with
  | rbUnlink x prev =>
    rcases List.mem_cons.1 hp with rfl | hp
    · exact .inr rfl
    · exact .inl hp
  | _ => exact .inl hp

theorem traced_setup (hB : View.Base ⟨m, su, k, d⟩) (hF : View.Flow ⟨m, su, k, d⟩) (hI : View.Traced ⟨m, su, k, d⟩)
    (hs : su t = some q) (ht : t = .main ∧ k = .rest ∨ t = .listener) (h : SetupMove m ch q op q') :
    View.Traced ⟨m.apply t op, Function.update su t q', k, d⟩ := by
  obtain ⟨L, hL, hS, -⟩ := hB.registry
  have hL : m.Spells L := hL
  have hother {t' q₁} (hne : t' ≠ t) (h₁ : su t' = some q₁) : Function.update su t q' t' = some q₁ := by
    rw [Function.update_of_ne hne, h₁]
  have hearly : k.late = false := hF.setup_early ht hs
  refine ⟨fun p hp hi => ?_, fun p hp => ?_, fun cur hcur => ?_, fun hk => ?_⟩
  · have hi' : p ∉ m.inserted := fun hm => hi (inserted_mono op hm)
    by_cases hnew : p < m.allocs
    · obtain ⟨t', q₁, h₁, hq₁⟩ := hI.hidden p hnew hi'
      by_cases hne : t' = t
      · subst hne
        obtain rfl : q = q₁ := Option.some.inj (hs.symm.trans h₁)
        rcases h.hidden_to hq₁ with rfl | ⟨q₂, rfl, hq₂⟩
        · exact absurd List.mem_cons_self hi
        · exact ⟨t', q₂, Function.update_self .., hq₂⟩
      · exact ⟨t', q₁, hother hne h₁, hq₁⟩
    · -- the record has just been made
      cases h with
      | alloc fd c a ip port =>
        have hp' : p < m.allocs + 1 := hp
        obtain rfl : p = m.allocs := by omega
        exact ⟨t, _, Function.update_self .., rfl⟩
      | _ => exact absurd hp hnew
  · rcases h.unlinked_of hp with hu | rfl
    · have hins : p ∈ m.inserted := hL.before p hu
      rcases hI.unlinked p hu with hr | hk | ⟨t', h₁⟩
      · refine .inl (released_keep hr (hL.born p hins) ?_)
        rintro rfl
        cases h with
        | publish p fd => exact (hS t _ hs).1 hins
      · exact .inr (.inl hk)
      · by_cases hne : t' = t
        · subst hne
          obtain rfl : q = .rbFree p := Option.some.inj (hs.symm.trans h₁)
          cases h
          exact .inl (released_free t' p)
        · exact .inr (.inr ⟨t', hother hne h₁⟩)
    · exact .inr (.inr ⟨t, Function.update_self ..⟩)
  · exact absurd (hearly.symm.trans (Stage.late_of_toSweep hcur)) (by simp)
  · have hk' : k = .exitLeave := hk
    subst hk'
    cases hearly

/-- What the main thread is to free it frees next. -/
theorem MainMove.toFree_to (h : MainMove m d ch k op k') (hk : k.toFree = some p) :
    op = .free p ∨ op = .skip ∧ k' = k := by
  cases h with
  | stay => exact .inr ⟨rfl, rfl⟩
  | freeReap | free => cases hk; exact .inl rfl
  | _ => cases hk

theorem MainMove.unlinked_of (h : MainMove m d ch k op k') (hp : p ∈ (m.apply .main op).unlinked) :
    p ∈ m.unlinked ∨ k'.toFree = some p ∨ k = .clearHead ∧ p ∈ m.listed := by
  cases h with
  | unlink b x prev =>
    rcases List.mem_cons.1 hp with rfl | hp
    · exact .inr (.inl rfl)
    · exact .inl hp
  | clearHead =>
    rcases List.mem_append.1 hp with hp | hp
    · exact .inr (.inr ⟨rfl, hp⟩)
    · exact .inl hp
  | _ => exact .inl hp

theorem traced_main (hB : View.Base ⟨m, su, k, d⟩) (hI : View.Traced ⟨m, su, k, d⟩)
    (h : MainMove m d ch k op k') : View.Traced ⟨m.apply .main op, su, k', d⟩ := by
  obtain ⟨L, hL, -, hok⟩ := hB.registry
  have hL : m.Spells L := hL
  have hkeep {p} (hr : m.Released p) (hp : p ∈ m.inserted) : (m.apply .main op).Released p :=
    released_keep hr (hL.born p hp) h.not_publish
  refine ⟨fun p hp hi => ?_, fun p hp => ?_, ?_, fun hk => ?_⟩
  · refine hI.hidden p ?_ fun hm => hi (inserted_mono op hm)
    cases h <;> exact hp
  · rcases h.unlinked_of hp with hu | hk | ⟨rfl, hl⟩
    · rcases hI.unlinked p hu with hr | hk | hsu
      · exact .inl (hkeep hr (hL.before p hu))
      · rcases h.toFree_to hk with rfl | ⟨rfl, rfl⟩
        · exact .inl (released_free .main p)
        · exact .inr (.inl hk)
      · exact .inr (.inr hsu)
    · exact .inr (.inl hk)
    · rw [hL.listed_eq] at hl
      rcases hI.swept none rfl p ((hL.mem_iff p).1 hl) with hf | hr
      · exact absurd hf Sync.from_none
      · exact .inl (hkeep hr (hL.inserted hl))
  · -- a step that stays where it is in the second pass
    have hgo {cur} (hcur : k.toSweep = some cur) (hins : (m.apply .main op).inserted = m.inserted)
        (hu : (m.apply .main op).unlinked = m.unlinked) (hn : (m.apply .main op).next = m.next)
        (p : Ptr) (hp : (m.apply .main op).Listed p) :
        Sync.From (m.apply .main op).next cur p ∨ (m.apply .main op).Released p := by
      unfold Mem.Listed at hp
      rw [hins, hu] at hp
      rw [hn]
      exact (hI.swept cur hcur p hp).imp_right fun hr => hkeep hr hp.1
    cases h with
    | stay => exact hI.swept
    | exitRelock hm =>
      rintro cur ⟨⟩ p hp
      exact .inl (hL.chain.from_iff.2 ((hL.mem_iff p).2 hp))
    | nextJoin x =>
      rintro cur ⟨⟩
      exact hgo rfl rfl rfl rfl
    | exitJoined x _ hj =>
      rintro cur ⟨⟩
      exact hgo rfl rfl rfl rfl
    | exitFree x =>
      rintro cur ⟨⟩ p hp
      rcases hI.swept _ rfl p hp with hf | hr
      · rcases Sync.from_some.1 hf with rfl | hf
        · exact .inr (released_free .main p)
        · exact .inl hf
      · exact .inr (hkeep hr hp.1)
    | nextEnd =>
      rintro cur ⟨⟩
      exact hgo rfl rfl rfl rfl
    | _ => rintro cur ⟨⟩
  · cases h with
    | stay => exact hI.empty hk
    | clearHead => rfl
    | _ => cases hk

theorem traced_step {v v' : View} {l : Label} (hB : v.Base) (hF : v.Flow) (hI : v.Traced) (h : Move v l v') :
    v'.Traced := by
  cases h with
  | setup hl hs ht h => exact traced_setup hB hF hI hs ht h
  | main hl hs h => exact traced_main hB hI h
  | @connected m su d l fd c a hs =>
    have hne {t : Tid} {q : SetupPc} (h : su t = some q) : t ≠ .main := by
      rintro rfl
      cases hs.symm.trans h
    refine ⟨fun p hp hi => ?_, fun p hp => ?_, by rintro cur ⟨⟩, by rintro ⟨⟩⟩
    · obtain ⟨t, q, h, hq⟩ := hI.hidden p hp hi
      exact ⟨t, q, (Function.update_of_ne (hne h) _ _).trans h, hq⟩
    · rcases hI.unlinked p hp with hr | hk | ⟨t, h⟩
      · exact .inl hr
      · cases hk
      · exact .inr (.inr ⟨t, (Function.update_of_ne (hne h) _ _).trans h⟩)
  | @accepted m su k l n a hl hs hn =>
    have hne {t : Tid} {q : SetupPc} (h : su t = some q) : t ≠ .listener := by
      rintro rfl
      cases hs.symm.trans h
    refine ⟨fun p hp hi => ?_, fun p hp => ?_, hI.swept, hI.empty⟩
    · obtain ⟨t, q, h, hq⟩ := hI.hidden p hp hi
      exact ⟨t, q, (Function.update_of_ne (hne h) _ _).trans h, hq⟩
    · rcases hI.unlinked p hp with hr | hk | ⟨t, h⟩
      · exact .inl hr
      · exact .inr (.inl hk)
      · exact .inr (.inr ⟨t, (Function.update_of_ne (hne h) _ _).trans h⟩)
  | listen => exact hI
  | listenerEnds hs hr => exact ⟨hI.hidden, hI.unlinked, hI.swept, hI.empty⟩
  | recv hq h => cases h <;> exact ⟨hI.hidden, hI.unlinked, hI.swept, hI.empty⟩
  | peer hc => exact ⟨hI.hidden, hI.unlinked, hI.swept, hI.empty⟩

theorem traced_reach {E : Env} {s : State} (h : (chat E).Reachable s) : s.view.Traced := by
  refine view_inv (C := fun _ _ => True) (J := fun v => v.Base ∧ v.Flow) (fun _ hr => ?_) ?_ ?_ h
  · obtain ⟨hB, hF, -⟩ := flow_reach hr
    exact ⟨hB, hF⟩
  · exact ⟨fun p hp => absurd hp (Nat.not_lt_zero p), fun p hp => absurd hp List.not_mem_nil, by rintro cur ⟨⟩, by rintro ⟨⟩⟩
  · rintro v l v' - ⟨hB, hF⟩ hI - hm
    exact traced_step hB hF hI hm

/-- The list is empty, the listener has ended, no set-up is under way, and every record that
`malloc` ever returned has been released. -/
def State.Freed (s : State) : Prop :=
  s.mem.listed = [] ∧ s.listener = .finished ∧ (∀ t, s.setup t = none) ∧ ∀ p < s.mem.allocs, s.mem.Released p

/-- **Nothing is left behind** in any run that comes to the last `pthread_mutex_unlock` of `cmd_exit`. -/
theorem exit_frees_all {E : Env} {s : State} (h : (chat E).Reachable s) (hm : s.main = .exit .leave) : s.Freed := by
  obtain ⟨hB, hF, -⟩ := flow_reach (C := fun _ _ => True) h
  have hI := traced_reach h
  have hstage : s.view.stage = .exitLeave := by simp [State.view, hm, MainPc.stage, ExitPc.stage]
  have hdone : s.listener = .finished := of_decide_eq_true (hF.late (by rw [hstage]; rfl))
  have hsetup (t : Tid) : s.setup t = none := by
    cases t with
    | main => simp [State.setup, hm, MainPc.inSetup]
    | listener => simp [State.setup, hdone, ListenerPc.inSetup]
    | recv p => rfl
  obtain ⟨l, hL, -, -⟩ := hB.registry
  have hL : s.mem.Spells l := hL
  have hempty : s.mem.listed = [] := by
    have hchain := hL.chain
    rw [show s.mem.connHead = none from hI.empty hstage] at hchain
    rw [hL.listed_eq]
    cases l with
    | nil => rfl
    | cons p l => cases hchain.1
  refine ⟨hempty, hdone, hsetup, fun p hp => ?_⟩
  have hinserted : p ∈ s.mem.inserted := by
    by_contra hi
    obtain ⟨t, q, hq, -⟩ := hI.hidden p hp hi
    cases (hsetup t).symm.trans hq
  have hunlinked : p ∈ s.mem.unlinked := by
    by_contra hu
    have hp : p ∈ l := (hL.mem_iff p).2 ⟨hinserted, hu⟩
    rw [← hL.listed_eq, hempty] at hp
    cases hp
  rcases hI.unlinked p hunlinked with hr | hk | ⟨t, ht⟩
  · exact hr
  · rw [hstage] at hk
    cases hk
  · cases (hsetup t).symm.trans ht

/-- A connection is taken back; another is accepted, closed by `cmd_exit` and joined. -/
def exitsAfterRollback : List Label :=
  accepts 4 ++ listens 5 ++ [.listener .fail] ++ listens 6 ++ accepts 5 ++ listens 7 ++ enters .exit ++ mains 10 ++
    listens 1 ++ [.recv 1 .ok, .recv 1 .ok, .recv 1 .ok, .recv 1 .ok] ++ mains 7

theorem exit_frees_all_rollback :
    ((chat .demo).after Sync.Trans.Free exitsAfterRollback).mem.inserted = [1, 0] ∧
    ((chat .demo).after Sync.Trans.Free exitsAfterRollback).Freed :=
  ⟨by decide +kernel, exit_frees_all (Sync.Trans.reach_after _) (by decide +kernel)⟩

end Chat
