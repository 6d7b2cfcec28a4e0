import LinuxExercises.Proof.Flags

/-!
# The life cycle of receive threads

* `released_reach`: in every run, a record is released only after a join on it has
  returned or its `pthread_create` has failed.
* `terminate_joins_unmade`: `cmd_terminate` can join a record whose thread the listener has
  still to make.
* `join_once`: if it does not, every record is joined at most once, and only on the thread
  that `pthread_create` has stored.
-/

namespace Chat

/-- The record whose join has returned. -/
def Stage.joined : Stage → Option Ptr
  | .relock _ p | .find _ p | .unlink _ p _ | .free _ p | .exitFree p => some p
  | _ => none

/-- The record that a set-up is taking back. -/
def SetupPc.rolling : SetupPc → Option Ptr
  | .rbClose p _ | .rbLock p | .rbFind p | .rbUnlink p _ | .rbFree p => some p
  | _ => none

variable {m : Mem} {ch : Choice} {op : Op} {d : Bool} {k k' : Stage} {p : Ptr}

theorem Stage.node_of_joined (h : k.joined = some p) : k.node = some p := by
  cases k <;> first | exact h | cases h

theorem SetupPc.unmade_of_rolling {q : SetupPc} (h : q.rolling = some p) : q.unmade = some p := by
  cases q <;> first | exact h | cases h

theorem MainMove.joined_of (h : MainMove m d ch k op k') (hp : k'.joined = some p) :
    k.joined = some p ∨ op = .joinReturn p := by
  cases h <;> first | exact .inl hp | (cases hp; exact .inr rfl) | cases hp

theorem MainMove.free_joined (h : MainMove m d ch k (.free p) k') : k.joined = some p := by
  cases h <;> rfl

theorem SetupMove.rolling_of {q q₁ : SetupPc} {q' : Option SetupPc} (h : SetupMove m ch q op q')
    (hq : q' = some q₁) (hp : q₁.rolling = some p) : q.rolling = some p ∨ op = .createFail p := by
  cases h <;> cases hq <;> first | exact .inl hp | (cases hp; exact .inr rfl) | cases hp

theorem SetupMove.free_rolling {q : SetupPc} {q' : Option SetupPc} (h : SetupMove m ch q (.free p) q') :
    q.rolling = some p := by
  cases h; rfl

/-- A record is released after its join or the failure of its `pthread_create`. -/
structure View.Released (v : View) : Prop where
  joined : ∀ p, v.stage.joined = some p → (v.mem.hist p).joined = true
  failed : ∀ t q, v.setup t = some q → ∀ p, q.rolling = some p → (v.mem.hist p).createFailed = true
  released : ∀ p, (v.mem.hist p).life = .released →
    (v.mem.hist p).joined = true ∨ (v.mem.hist p).createFailed = true

theorem joined_mono {t : Tid} (hp : op.isAlloc = true → p ≠ m.allocs) (h : (m.hist p).joined = true) :
    ((m.apply t op).hist p).joined = true := by
  rw [apply_joined op hp]; simp [h]

theorem createFailed_mono {t : Tid} (hp : op.isAlloc = true → p ≠ m.allocs)
    (h : (m.hist p).createFailed = true) : ((m.apply t op).hist p).createFailed = true := by
  rw [apply_createFailed op hp]; simp [h]

/-- An operation that releases a record releases one that is joined or failed. -/
theorem released_apply {t : Tid} (h : ∀ p, (m.hist p).life = .released →
      (m.hist p).joined = true ∨ (m.hist p).createFailed = true)
    (hf : ∀ p, op = .free p → (m.hist p).joined = true ∨ (m.hist p).createFailed = true) (p : Ptr)
    (hp : ((m.apply t op).hist p).life = .released) :
    ((m.apply t op).hist p).joined = true ∨ ((m.apply t op).hist p).createFailed = true := by
  rcases op.alloc_or m p with ⟨fd, c, ip, port, rfl, rfl⟩ | hpa
  · rw [(apply_alloc fd c ip port).1] at hp; cases hp
  · have hold : (m.hist p).joined = true ∨ (m.hist p).createFailed = true := by
      rw [apply_life op hpa] at hp
      split at hp
      · cases hp
      · split at hp
        · rename_i hop; exact hf p hop
        · exact h p hp
    exact hold.imp (joined_mono hpa) (createFailed_mono hpa)

theorem released_step {v v' : View} {l : Label} (hB : v.Base) (hI : v.Released) (h : Move v l v') :
    v'.Released := by
  cases h with
  | @setup m su k d l t ch q op q' hl hs ht h =>
    refine ⟨fun p hp => ?_, setups_update ?_ ?_, released_apply hI.released ?_⟩
    · exact joined_mono (fun _ => hB.bound (Stage.node_of_joined hp)) (hI.joined p hp)
    · intro q₁ hq p hp
      rcases h.rolling_of hq hp with hr | rfl
      · exact createFailed_mono (fun _ => hB.bound_setup hs (SetupPc.node_of_unmade (SetupPc.unmade_of_rolling hr)))
          (hI.failed t q hs p hr)
      · rw [apply_createFailed _ (by simp [Op.isAlloc])]; simp
    · intro t' q₁ h₁ p hp
      exact createFailed_mono (fun _ => hB.bound_setup h₁ (SetupPc.node_of_unmade (SetupPc.unmade_of_rolling hp)))
        (hI.failed t' q₁ h₁ p hp)
    · rintro p rfl
      exact .inr (hI.failed t q hs p h.free_rolling)
  | @main m su k d l ch op k' hl hs h =>
    refine ⟨fun p hp => ?_, fun t q h₁ p hp => ?_, released_apply hI.released ?_⟩
    · rcases h.joined_of hp with hk | rfl
      · exact joined_mono (fun _ => hB.bound (Stage.node_of_joined hk)) (hI.joined p hk)
      · rw [apply_joined _ (by simp [Op.isAlloc])]; simp
    · exact createFailed_mono (fun _ => hB.bound_setup h₁ (SetupPc.node_of_unmade (SetupPc.unmade_of_rolling hp)))
        (hI.failed t q h₁ p hp)
    · rintro p rfl
      exact .inl (hI.joined p h.free_joined)
  | connected a hs =>
    refine ⟨(by rintro p ⟨⟩), setups_update ?_ hI.failed, hI.released⟩
    rintro q ⟨⟩ p ⟨⟩
  | accepted a hl hs hn =>
    refine ⟨hI.joined, setups_update ?_ hI.failed, hI.released⟩
    rintro q ⟨⟩ p ⟨⟩
  | listen => exact hI
  | listenerEnds hs hr => exact ⟨hI.joined, hI.failed, hI.released⟩
  | recv hq h => cases h <;> exact ⟨hI.joined, hI.failed, hI.released⟩
  | peer hc => exact ⟨hI.joined, hI.failed, hI.released⟩

theorem released_reach {E : Env} {C : View → Label → Prop} {s : State} (h : ReachView E C s) :
    s.view.Released := by
  refine view_inv (fun _ => base_reach) ?_ ?_ h
  · exact ⟨(by rintro p ⟨⟩), (by intro t q h; cases t <;> cases h), (by rintro p ⟨⟩)⟩
  · exact fun v l v' _ hB hI _ hm => released_step hB hI hm

/-! ## Joins -/

/-- A marked record that `reap_connections` is about to join. -/
def Stage.reaped : Stage → Option Ptr
  | .doomed p | .join .reap p | .join .exit p => some p
  | _ => none

/-- The record that `cmd_terminate` was told to end, up to its join. -/
def Stage.chosen : Stage → Option Ptr
  | .send .terminate p | .shutdown .terminate p | .close .terminate p | .clear .terminate p => some p
  | .closed p | .join .terminate p => some p
  | _ => none

def Stage.toJoin : Stage → Option Ptr
  | .join _ p => some p
  | _ => none

/-- `cmd_terminate` at its join. -/
def Stage.termJoin : Stage → Option Ptr
  | .join .terminate p => some p
  | _ => none

/-- A record that has been joined and is still listed. -/
def Stage.pastJoin : Stage → Option Ptr
  | .joining _ p _ | .relock _ p | .find _ p | .unlink _ p _ => some p
  | _ => none

/-- The second pass of `cmd_exit`. -/
def Stage.final : Stage → Bool
  | .next _ | .exitJoining .. | .exitFree _ | .clearHead | .exitLeave | .ended => true
  | _ => false

/-- The place of the second pass behind the record in hand. -/
def Stage.ahead (next : Ptr → Option Ptr) : Stage → Option (Option Ptr)
  | .next cur => some cur
  | .exitJoining p _ | .exitFree p => some (next p)
  | _ => none

/-- When `cmd_terminate` comes to the join of a record, the listener is not before or in
the failure of the record's `pthread_create`; and it does not take such a record back
while `cmd_terminate` is at its join. -/
def TermWaits (v : View) (l : Label) : Prop :=
  ∀ p ∈ v.stage.termJoin,
    (l.by .main = true → (v.setup .listener).bind SetupPc.unmade ≠ some p) ∧
    (l.by .listener = true → v.setup .listener ≠ some (.rbFree p))

instance (v : View) (l : Label) : Decidable (TermWaits v l) := by unfold TermWaits; infer_instance

/-- Only threads that have been made mark their records. -/
def View.Marked (v : View) : Prop := ∀ p, (v.mem.node p).shouldRemove = true → v.mem.recv p ≠ none

/-- **Who has been joined.** -/
structure View.Joins (v : View) : Prop where
  reaped : ∀ p, v.stage.reaped = some p → v.mem.recv p ≠ none
  chosen : ∀ p, v.stage.chosen = some p →
    v.mem.recv p ≠ none ∨ ∃ q, v.setup .listener = some q ∧ q.unmade = some p
  toJoin : ∀ p, v.stage.toJoin = some p → (v.mem.hist p).joins = []
  once : ∀ p, (v.mem.hist p).joins = [] ∨ (v.mem.hist p).joins = [some p]
  inserted : ∀ p, (v.mem.hist p).joins ≠ [] → p ∈ v.mem.inserted
  listed : ∀ p, v.mem.Listed p →
    (v.mem.hist p).joins = [] ∨ v.stage.pastJoin = some p ∨ v.stage.final = true
  ahead : ∀ cur, v.stage.ahead v.mem.next = some cur →
    ∀ p, Sync.From v.mem.next cur p → (v.mem.hist p).joins = []

/-- A marked record's thread is past its marking block. -/
theorem View.Flags.made {v : View} (h : v.Flags) : v.Marked := by
  intro p hp hnone
  rw [h.marked p, hnone] at hp; cases hp

theorem joins_eq {t : Tid} (hop : op.isAlloc = true → p ≠ m.allocs) (hj : op ≠ .joinCall p) :
    ((m.apply t op).hist p).joins = (m.hist p).joins := by
  rw [apply_joins op hop, if_neg hj, List.append_nil]

/-- An operation that is no join of `p` makes `p` a record without joins, or keeps its joins. -/
theorem joins_or {t : Tid} (hj : op ≠ .joinCall p) :
    ((m.apply t op).hist p).joins = [] ∨ ((m.apply t op).hist p).joins = (m.hist p).joins := by
  rcases op.alloc_or m p with ⟨fd, c, ip, port, rfl, rfl⟩ | hpa
  · exact .inl (by rw [(apply_alloc fd c ip port).1])
  · exact .inr (joins_eq hpa hj)

theorem SetupMove.not_joinCall {q : SetupPc} {q' : Option SetupPc} (h : SetupMove m ch q op q') :
    op ≠ .joinCall p := by
  cases h <;> simp

/-- A set-up keeps its unmade record, makes its thread, or is through with taking it back. -/
theorem SetupMove.unmade_to {q : SetupPc} {q' : Option SetupPc} (h : SetupMove m ch q op q')
    (hq : q.unmade = some p) :
    (∃ q₁, q' = some q₁ ∧ q₁.unmade = some p) ∨ op = .create p ∨ q = .rbFree p := by
  cases h <;> first
    | exact .inl ⟨_, rfl, hq⟩
    | (cases hq <;> first | exact .inr (.inl rfl) | exact .inr (.inr rfl))

theorem Stage.chosen_inside (h : k.chosen = some p) : k.inside = true ∨ k.termJoin = some p := by
  cases k with
  | join b x => cases b <;> exact .inr h
  | send b x => exact .inl rfl
  | shutdown b x => exact .inl rfl
  | close b x => exact .inl rfl
  | clear b x => exact .inl rfl
  | closed x => exact .inl rfl
  | _ => cases h

theorem Stage.late_of_ahead {next : Ptr → Option Ptr} {cur : Option Ptr} (h : k.ahead next = some cur) :
    k.late = true := by
  cases k <;> first | rfl | cases h

theorem Stage.node_of_toJoin (h : k.toJoin = some p) : k.node = some p := by
  cases k <;> first | exact h | cases h

theorem joins_setup {su : Tid → Option SetupPc} {t : Tid} {l : Label} {q : SetupPc} {q' : Option SetupPc}
    (hv : k ≠ .ended) (hB : View.Base ⟨m, su, k, d⟩) (hF : View.Flow ⟨m, su, k, d⟩)
    (hC : TermWaits ⟨m, su, k, d⟩ l) (hI : View.Joins ⟨m, su, k, d⟩) (hl : l.who = some (t, ch))
    (hs : su t = some q) (ht : t = .main ∧ k = .rest ∨ t = .listener) (h : SetupMove m ch q op q') :
    View.Joins ⟨m.apply t op, Function.update su t q', k, d⟩ := by
  refine ⟨fun p hp => recv_mono op (hI.reaped p hp), fun p hp => ?_, fun p hp => ?_, fun p => ?_, fun p hp => ?_,
    fun p hp => ?_, fun cur hcur => ?_⟩
  · rcases hI.chosen p hp with hr | ⟨q₀, hq₀, hu⟩
    · exact .inl (recv_mono op hr)
    rcases ht with ⟨rfl, rfl⟩ | rfl
    · cases hp
    cases hs.symm.trans hq₀
    rcases h.unmade_to hu with ⟨q₁, rfl, hu₁⟩ | rfl | rfl
    · exact .inr ⟨q₁, Function.update_self Tid.listener (some q₁) su, hu₁⟩
    · exact .inl (by simp [apply_recv])
    · -- the listener takes the chosen record back: not under the mutex, and not at the join
      rcases Stage.chosen_inside hp with hin | hj
      · have := hB.owner.stage_outside hv (View.inside_setup (.inr rfl) hs rfl) (by simp)
        exact absurd (hin.symm.trans this) (by simp)
      · exact absurd hs ((hC p hj).2 (by simp [Label.by, hl]))
  · rw [joins_eq (fun _ => hB.bound (Stage.node_of_toJoin hp)) h.not_joinCall]; exact hI.toJoin p hp
  · rcases joins_or h.not_joinCall with hj | hj
    · exact .inl hj
    · rw [hj]; exact hI.once p
  · rcases joins_or h.not_joinCall with hj | hj
    · exact absurd hj hp
    · exact inserted_mono op (hI.inserted p (hj ▸ hp))
  · rcases joins_or (m := m) (t := t) (p := p) h.not_joinCall with hj | hj
    · exact .inl hj
    rw [hj]
    rcases listed_of op hp with hp | rfl
    · exact hI.listed p hp
    · -- a record that is being inserted has not been joined
      obtain ⟨L, -, hS, -⟩ := hB.registry
      refine .inl ?_
      by_contra hne
      have hins := hI.inserted p hne
      cases h with
      | publish p fd => exact (hS t _ hs).1 hins
  · have hk := hF.setup_early ht hs
    exact absurd (hk.symm.trans (Stage.late_of_ahead hcur)) (by simp)

theorem MainMove.reaped_of (h : MainMove m d ch k op k') (hp : k'.reaped = some p) :
    k.reaped = some p ∨ (m.node p).shouldRemove = true := by
  cases h <;> first | exact .inl hp | (cases hp; first | assumption | exact .inr (by assumption)) | cases hp

theorem MainMove.chosen_of (h : MainMove m d ch k op k') (hp : k'.chosen = some p) :
    k.chosen = some p ∨ p ∈ m.listed := by
  cases h with
  | choose x hx => cases hp; exact .inr hx
  | send b x => cases b <;> exact .inl hp
  | shutdown b x => cases b <;> exact .inl hp
  | close b x => cases b <;> exact .inl hp
  | _ => first | exact .inl hp | cases hp

theorem MainMove.toJoin_of (h : MainMove m d ch k op k') (hp : k'.toJoin = some p) :
    op ≠ .joinCall p ∧ (k.toJoin = some p ∨ k = .doomed p ∨ k = .closed p) := by
  cases h with
  | unlockDoomed x => cases hp; exact ⟨by simp, .inr (.inl rfl)⟩
  | unlockClosed x => cases hp; exact ⟨by simp, .inr (.inr rfl)⟩
  | stay => exact ⟨by simp, .inl hp⟩
  | _ => cases hp

theorem MainMove.joinCall (h : MainMove m d ch k (.joinCall p) k') :
    (∃ b, k = .join b p ∧ k'.pastJoin = some p) ∨ k = .next (some p) ∧ k'.final = true := by
  cases h with
  | join b => exact .inl ⟨b, rfl, rfl⟩
  | nextJoin => exact .inr ⟨rfl, rfl⟩

/-- A joined record stays joined and listed, or is unlinked. -/
theorem MainMove.pastJoin_to (h : MainMove m d ch k op k') (hp : k.pastJoin = some p) :
    k'.pastJoin = some p ∨ (∃ prev, op = .unlink p prev) ∨ Sync.findPrev p none m.listed = none := by
  cases h with
  | unlink b x prev => cases hp; exact .inr (.inl ⟨prev, rfl⟩)
  | findMiss b x w hf => cases hp; exact .inr (.inr hf)
  | _ => first | exact .inl hp | cases hp

theorem MainMove.final_to (h : MainMove m d ch k op k') (hk : k.final = true) : k'.final = true := by
  cases h <;> first | rfl | exact hk

section Main

variable {su : Tid → Option SetupPc} {l : Label} (hB : View.Base ⟨m, su, k, d⟩)
  (hF : View.Flow ⟨m, su, k, d⟩) (hMd : View.Made ⟨m, su, k, d⟩) (hs : su .main = none)
include hB hMd hs

/-- A listed record without a thread is in the hands of the listener. -/
theorem listed_made (hp : m.Listed p) :
    m.recv p ≠ none ∨ ∃ q, su .listener = some q ∧ q.unmade = some p := by
  rcases hMd p hp with hr | ⟨t, q, hq, hu⟩
  · exact .inl hr
  · cases t with
    | main => cases hs.symm.trans hq
    | listener => exact .inr ⟨q, hq, hu⟩
    | recv x => cases (hB.records.makers x).symm.trans hq

include hF

/-- **A join is the first one, on the stored thread.** -/
theorem joinCall_first (hC : TermWaits ⟨m, su, k, d⟩ l) (hI : View.Joins ⟨m, su, k, d⟩)
    (hl : l.who = some (.main, ch)) (h : MainMove m d ch k (.joinCall p) k') :
    (m.hist p).joins = [] ∧ (m.node p).thread = some p := by
  obtain ⟨L, hL, -, hok⟩ := hB.registry
  rcases h.joinCall with ⟨b, rfl, -⟩ | ⟨rfl, -⟩
  · refine ⟨hI.toJoin p rfl, (hB.records.thread p ?_).2⟩
    cases b with
    | terminate =>
      rcases hI.chosen p rfl with hr | ⟨q, hq, hu⟩
      · exact hr
      · exact absurd (Option.bind_eq_some_iff.2 ⟨q, hq, hu⟩) ((hC p rfl).1 (by simp [Label.by, hl]))
    | reap => exact hI.reaped p rfl
    | exit => exact hI.reaped p rfl
  · refine ⟨hI.ahead _ rfl p (.here p), (hB.records.thread p ?_).2⟩
    rcases listed_made hB hMd hs ((hL.mem_iff p).1 (hok p rfl)) with hr | ⟨q, hq, -⟩
    · exact hr
    · exact absurd ((hF.done (hF.late rfl)).symm.trans hq) (by simp)

theorem joins_main (hMk : View.Marked ⟨m, su, k, d⟩)
    (hC : TermWaits ⟨m, su, k, d⟩ l) (hI : View.Joins ⟨m, su, k, d⟩) (hl : l.who = some (.main, ch))
    (h : MainMove m d ch k op k') : View.Joins ⟨m.apply .main op, su, k', d⟩ := by
  obtain ⟨L, hL, -, hok⟩ := hB.registry
  have hlisted {p} (hp : p ∈ L) : m.Listed p := (hL.mem_iff p).1 hp
  have hnone {p} (hp : m.Listed p) (hpj : k.pastJoin ≠ some p) (hf : k.final ≠ true) : (m.hist p).joins = [] := by
    rcases hI.listed p hp with hj | hj | hj
    · exact hj
    · exact absurd hj hpj
    · exact absurd hj hf
  refine ⟨fun p hp => ?_, fun p hp => ?_, fun p hp => ?_, fun p => ?_, fun p hp => ?_, fun p hp => ?_, ?_⟩
  · rcases h.reaped_of hp with hk | hr
    · exact recv_mono op (hI.reaped p hk)
    · exact recv_mono op (hMk p hr)
  · have hold : m.recv p ≠ none ∨ ∃ q, su .listener = some q ∧ q.unmade = some p := by
      rcases h.chosen_of hp with hk | hm
      · exact hI.chosen p hk
      · exact listed_made hB hMd hs (hB.mem_listed.1 hm)
    exact hold.imp_left (recv_mono op)
  · obtain ⟨hop, hk⟩ := h.toJoin_of hp
    rcases joins_or (m := m) (t := .main) hop with hj | hj
    · exact hj
    rw [hj]
    rcases hk with hk | rfl | rfl
    · exact hI.toJoin p hk
    · exact hnone (hlisted hok) (by simp [Stage.pastJoin]) (by simp [Stage.final])
    · exact hnone (hlisted hok) (by simp [Stage.pastJoin]) (by simp [Stage.final])
  · by_cases hj : op = .joinCall p
    · subst hj
      obtain ⟨hn, ht⟩ := joinCall_first hB hF hMd hs hC hI hl h
      right
      rw [apply_joins _ (by simp [Op.isAlloc]), hn, ht]; simp
    · rcases joins_or hj with hj | hj
      · exact .inl hj
      · rw [hj]; exact hI.once p
  · refine inserted_mono op ?_
    by_cases hj : op = .joinCall p
    · subst hj
      rcases h.joinCall with ⟨b, rfl, -⟩ | ⟨rfl, -⟩
      · exact hok
      · exact hL.inserted (hok p rfl)
    · rcases joins_or hj with hj | hj
      · exact absurd hj hp
      · exact hI.inserted p (hj ▸ hp)
  · by_cases hj : op = .joinCall p
    · subst hj
      rcases h.joinCall with ⟨b, -, hk⟩ | ⟨-, hk⟩
      · exact .inr (.inl hk)
      · exact .inr (.inr hk)
    rcases joins_or (m := m) (t := .main) hj with hj | hj
    · exact .inl hj
    rw [hj]
    have hold : m.Listed p := (listed_of op hp).resolve_right (by rintro rfl; cases h)
    rcases hI.listed p hold with hn | hk | hk
    · exact .inl hn
    · rcases h.pastJoin_to hk with hk | ⟨prev, rfl⟩ | hf
      · exact .inr (.inl hk)
      · exact absurd List.mem_cons_self hp.2
      · exact absurd (hB.mem_listed.2 hold) (Sync.findPrev_none.1 hf)
    · exact .inr (.inr (h.final_to hk))
  · cases h with
    | exitRelock hm =>
      rintro cur ⟨⟩ p hp
      exact hnone (hlisted (hL.chain.from_iff.1 hp)) (by simp [Stage.pastJoin]) (by simp [Stage.final])
    | nextJoin x =>
      rintro cur ⟨⟩ p hp
      have hpx : p ≠ x := by rintro rfl; exact hL.chain.not_from_next hL.nodup (hok p rfl) hp
      rw [joins_eq (by simp [Op.isAlloc]) (by simpa using Ne.symm hpx)]
      exact hI.ahead _ rfl p (.there hp)
    | exitJoined x t hj =>
      rintro cur ⟨⟩ p hp
      rw [joins_eq (by simp [Op.isAlloc]) (by simp)]
      exact hI.ahead _ rfl p hp
    | exitFree x =>
      rintro cur ⟨⟩ p hp
      rw [joins_eq (by simp [Op.isAlloc]) (by simp)]
      exact hI.ahead _ rfl p hp
    | stay k => exact hI.ahead
    | _ => rintro cur ⟨⟩

end Main

theorem joins_step {v v' : View} {l : Label} (hv : v.stage ≠ .ended) (hB : v.Base) (hF : v.Flow)
    (hMd : v.Made) (hMk : v.Marked) (hC : TermWaits v l) (hI : v.Joins) (h : Move v l v') : v'.Joins := by
  cases h with
  | setup hl hs ht h => exact joins_setup hv hB hF hC hI hl hs ht h
  | main hl hs h => exact joins_main hB hF hMd hs hMk hC hI hl h
  | connected a hs =>
    refine ⟨(by rintro p ⟨⟩), (by rintro p ⟨⟩), (by rintro p ⟨⟩), hI.once, hI.inserted, hI.listed, ?_⟩
    rintro cur ⟨⟩
  | @accepted m su k l n a hl hs hn =>
    refine ⟨hI.reaped, fun p hp => ?_, hI.toJoin, hI.once, hI.inserted, hI.listed, hI.ahead⟩
    refine (hI.chosen p hp).imp_right ?_
    rintro ⟨q, hq, -⟩
    cases hs.symm.trans hq
  | listen => exact hI
  | listenerEnds hs hr =>
    exact ⟨hI.reaped, hI.chosen, hI.toJoin, hI.once, hI.inserted, hI.listed, hI.ahead⟩
  | @recv m su k d l p q op q' hq h =>
    have hr (x : Ptr) (hx : m.recv x ≠ none) : ((m.apply (.recv p) op).setRecv p q').recv x ≠ none := by
      have hq' : (m.apply (.recv p) op).recv p = some q := by rw [h.recv_eq]; exact hq
      exact mt (setRecv_none hq' x).1 (recv_mono op hx)
    cases h <;> exact ⟨fun x hx => hr x (hI.reaped x hx), fun x hx => (hI.chosen x hx).imp_left (hr x),
      hI.toJoin, hI.once, hI.inserted, hI.listed, hI.ahead⟩
  | peer hc => exact ⟨hI.reaped, hI.chosen, hI.toJoin, hI.once, hI.inserted, hI.listed, hI.ahead⟩

/-- The joins of a run whose steps all let `cmd_terminate` wait. -/
theorem joins_reach {E : Env} {C : View → Label → Prop} (hT : ∀ v l, C v l → TermWaits v l) {s : State}
    (h : ReachView E C s) : s.view.Marked ∧ s.view.Joins := by
  refine ⟨(flags_reach h).made, ?_⟩
  refine view_inv (J := fun v => (v.Base ∧ v.Flow ∧ v.Made) ∧ v.Flags) (fun _ h => ⟨flow_reach h, flags_reach h⟩)
    ?_ ?_ h
  · refine ⟨(by rintro p ⟨⟩), (by rintro p ⟨⟩), (by rintro p ⟨⟩),
      fun p => .inl rfl, fun p hp => absurd rfl hp, fun p hp => .inl rfl, (by rintro cur ⟨⟩)⟩
  · rintro v l v' hv ⟨⟨hB, hF, hMd⟩, hFl⟩ hI hC hm
    exact joins_step hv hB hF hMd hFl.made (hT v l hC) hI hm

/-- **The life cycle of a receive thread**: if `cmd_terminate` only joins records that the
listener has finished setting up, then in every run every record is joined at most once, on
the thread that its `pthread_create` has stored, and is released only after a join on it
has returned or its `pthread_create` has failed. -/
theorem join_once {E : Env} {s : State} (h : ReachView E TermWaits s) (p : Ptr) :
    (s.mem.hist p).joins.length ≤ 1 ∧ (∀ t ∈ (s.mem.hist p).joins, t = some p) ∧
    ((s.mem.hist p).life = .released →
      (s.mem.hist p).joined = true ∨ (s.mem.hist p).createFailed = true) := by
  have hJ := joins_reach (fun _ _ hC => hC) h
  refine ⟨?_, ?_, (released_reach h).released p⟩
  · rcases hJ.2.once p with hj | hj <;> simp [show (s.mem.hist p).joins = _ from hj]
  · rcases hJ.2.once p with hj | hj <;> simp [show (s.mem.hist p).joins = _ from hj]

/-- A connection is accepted; `cmd_terminate` ends it, with its thread through in time. -/
def patientTerminate : List Label :=
  accepts 4 ++ listens 7 ++ .recv 0 .ok :: enters (.terminate 1) ++ mains 7 ++
    [.recv 0 .eof, .recv 0 .ok, .recv 0 .ok, .recv 0 .ok] ++ mains 6

theorem join_once_patient :
    (((chat .demo).after (fun s l => TermWaits s.view l) patientTerminate).mem.hist 0).life = .released ∧
    (((chat .demo).after (fun s l => TermWaits s.view l) patientTerminate).mem.hist 0).joins.length ≤ 1 :=
  ⟨by decide +kernel, (join_once (Sync.Trans.reach_after _) 0).1⟩

/-- A connection is accepted and listed; `cmd_terminate` joins it before its thread is made. -/
def hastyTerminate : List Label :=
  accepts 4 ++ listens 5 ++ enters (.terminate 1) ++ mains 8

/-- **A join on a thread that has not been made.** -/
theorem terminate_joins_unmade :
    ¬ ∀ (E : Env) (s : State), (chat E).Reachable s → ∀ p, (s.mem.hist p).joins.length ≤ 1 ∧
      (∀ t ∈ (s.mem.hist p).joins, t = some p) ∧ ((s.mem.hist p).life = .released →
        (s.mem.hist p).joined = true ∨ (s.mem.hist p).createFailed = true) :=
  fun h => absurd (h .demo _ (Sync.Trans.reach_after hastyTerminate) 0).2.1 (by decide +kernel)

end Chat
