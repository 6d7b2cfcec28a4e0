import LinuxExercises.Proof.Restaurant

/-!
# Nobody waits for ever in the restaurant

* `State.Fits`: a process visits the trays of its kind only.
* `held_eq`: the mutexes a process has taken and not given back are those of its stage;
  `exists_held`: the count goes along with every run.
* `deadlock_free`: with a chef and a customer for each tray some process can always go on,
  and a process that waits for a token has no mutex.
-/

namespace Restaurant

open Sync

variable {ι : Type*} [DecidableEq ι] {n : ℕ} {kind : ι → Kind} {s s' : State ι n} {i : ι}

/-- The process is blocked on `vegan_empty`, `vegan_full`, `non_empty` or `non_full`. -/
def State.AwaitsToken (s : State ι n) (i : ι) : Prop :=
  (s.proc i).stage = .waitToken ∧ (s.tray i).sem (s.visit i).takes = 0

/-- What a step does to the number of times process `i` has taken a mutex and not given it
back: `sem_wait` on the mutex counts up, `sem_post` on it counts down. -/
def held (s : State ι n) (i : ι) (g : ι → Side → ℤ) : ι → Side → ℤ :=
  let a := (s.visit i).side
  match (s.proc i).stage with
  | .waitMutex => Function.update g i (Function.update (g i) a (g i a + 1))
  | .postMutex _ => Function.update g i (Function.update (g i) a (g i a - 1))
  | _ => g

/-- The restaurant, with the mutexes each process has taken and not given back. -/
def restaurantHeld (kind : ι → Kind) (n : ℕ) : Trans (State ι n × (ι → Side → ℤ)) ι :=
  (restaurant kind n).ghost (fun _ _ => 0) held

/-! ## Where a step takes a process -/

/-- Where a step takes a process of this kind. -/
inductive Next (κ : Kind) (p : Proc) : Proc → Prop where
  | token : p.stage = .waitToken → Next κ p { p with stage := .waitMutex }
  | mutex : p.stage = .waitMutex → Next κ p { p with stage := .scan 0 }
  | look (k : ℕ) (stage : Stage) : p.stage = .scan k → (stage = .scan (k + 1) ∨ ∃ b, stage = .postMutex b) →
      Next κ p { p with stage }
  | post (b : Bool) : p.stage = .postMutex b → Next κ p { p with stage := .postToken b }
  | next (b : Bool) : p.stage = .postToken b → Next κ p (p.next κ)

theorem step_next (hs : s.step kind i = some s') :
    ∃ p, Next (kind i) (s.proc i) p ∧ s'.proc = Function.update s.proc i p := by
  unfold State.step at hs
  cases hst : (s.proc i).stage <;> simp only [hst] at hs
  case waitToken =>
    split at hs <;> simp only [Option.some.injEq, reduceCtorEq] at hs
    subst hs; exact ⟨_, .token hst, rfl⟩
  case waitMutex =>
    split at hs <;> simp only [Option.some.injEq, reduceCtorEq] at hs
    subst hs; exact ⟨_, .mutex hst, rfl⟩
  case scan k =>
    split at hs
    · split at hs <;> simp only [Option.some.injEq] at hs <;> subst hs
      · refine ⟨_, .look k _ hst (.inr ⟨true, rfl⟩), ?_⟩
        unfold State.tally; cases (s.visit i).takes <;> rfl
      · exact ⟨_, .look k _ hst (.inl rfl), rfl⟩
    · simp only [Option.some.injEq] at hs; subst hs
      exact ⟨_, .look k _ hst (.inr ⟨false, rfl⟩), rfl⟩
  case postMutex b => simp only [Option.some.injEq] at hs; subst hs; exact ⟨_, .post b hst, rfl⟩
  case postToken b => simp only [Option.some.injEq] at hs; subst hs; exact ⟨_, .next b hst, rfl⟩

/-- The visits of the process are those of its kind. -/
def Proc.Fits (κ : Kind) (p : Proc) : Prop :=
  (p.visit = κ.round.1 ∨ p.visit ∈ κ.round.2) ∧ ∀ v ∈ p.left, v ∈ κ.round.2

theorem Proc.Fits.next {κ : Kind} {p p' : Proc} (h : p.Fits κ) (hn : Next κ p p') : p'.Fits κ := by
  cases hn with
  | next b hst =>
    unfold Proc.next
    cases hl : p.left with
    | nil => exact ⟨.inl rfl, fun _ h => h⟩
    | cons v vs =>
      have hleft := h.2
      rw [hl] at hleft
      exact ⟨.inr (hleft v List.mem_cons_self), fun u hu => hleft u (List.mem_cons_of_mem _ hu)⟩
  | _ => exact h

theorem fits_reachable (h : (restaurant kind n).Reachable s) (i : ι) : (s.proc i).Fits (kind i) := by
  refine h.inv (I := fun s => ∀ i, (s.proc i).Fits (kind i)) (fun i => ⟨.inl rfl, fun _ h => h⟩)
    (fun s l s' _ hi _ hs j => ?_) i
  obtain ⟨p, hn, hp⟩ := step_next hs
  rw [hp]
  by_cases hj : j = l
  · subst hj; rw [Function.update_self]; exact (hi j).next hn
  · rw [Function.update_of_ne hj]; exact hi j

/-! ## The mutexes a process has -/

/-- Only a step that takes or gives back the mutex changes whether the process scans. -/
theorem scanning_next {κ : Kind} {p p' : Proc} (hn : Next κ p p') (a : Side) :
    (scanning a p' : ℤ) = match p.stage with
      | .waitMutex => if p.visit.side = a then 1 else 0
      | .postMutex _ => 0
      | _ => scanning a p := by
  cases hn with
  | token hst => simp [scanning, hst]
  | mutex hst => rw [hst]; simp only [scanning]; split <;> rfl
  | look k stage hst h => rcases h with rfl | ⟨b, rfl⟩ <;> simp [scanning, hst]
  | post b hst => simp [scanning, hst]
  | next b hst =>
    have hstage : (p.next κ).stage = .waitToken := by unfold Proc.next; cases p.left <;> rfl
    simp [scanning, hst, hstage]

/-- **The mutexes a process has** are the one of the tray it scans. -/
theorem held_eq {g : ι → Side → ℤ} (h : (restaurantHeld kind n).Reachable (s, g)) (i : ι) (a : Side) :
    g i a = scanning a (s.proc i) := by
  refine h.inv (I := fun x => ∀ i a, x.2 i a = (scanning a (x.1.proc i) : ℤ)) (fun i a => ?_)
    (fun x l x' _ hi _ hs j b => ?_) i a
  · have : scanning a (kind i).start = 0 := (weights_zero fun _ => rfl).1
    show (0 : ℤ) = scanning a (kind i).start
    rw [this]; rfl
  · obtain ⟨s', hstep, rfl⟩ := Option.map_eq_some_iff.1 hs
    obtain ⟨p, hn, hp⟩ := step_next hstep
    have hold := hi j b
    show held x.1 l x.2 j b = scanning b (s'.proc j)
    rw [hp]
    by_cases hj : j = l
    · subst hj
      rw [Function.update_self, scanning_next hn]
      unfold held
      cases hst : (x.1.proc j).stage <;> simp only <;> try exact hold
      all_goals
        rw [Function.update_self]
        by_cases hb : b = (x.1.visit j).side
        · subst hb; simp [hold, scanning, hst]
        · rw [Function.update_of_ne hb, hold]; simp [scanning, Ne.symm hb]
    · rw [Function.update_of_ne hj, ← hold]
      unfold held
      cases (x.1.proc l).stage <;> simp [Function.update_of_ne hj]

/-- Every reachable state is reached with an account of the mutexes. -/
theorem exists_held (h : (restaurant kind n).Reachable s) :
    ∃ g, (restaurantHeld kind n).Reachable (s, g) ∧ ∀ i a, g i a = scanning a (s.proc i) := by
  obtain ⟨g, hg⟩ := Trans.Reach.exists_ghost (fun _ _ => 0) held h
  exact ⟨g, hg, held_eq hg⟩

/-! ## Deadlock freedom -/

/-- A process that cannot go on waits for a semaphore whose value is 0. -/
theorem blocked_of_none (h : s.step kind i = none) :
    s.AwaitsToken i ∨ (s.proc i).stage = .waitMutex ∧ (s.tray i).mutex = 0 := by
  unfold State.step at h
  cases hst : (s.proc i).stage <;> simp only [hst, reduceCtorEq] at h
  case waitToken =>
    split at h <;> simp only [reduceCtorEq] at h
    exact .inl ⟨hst, by omega⟩
  case waitMutex =>
    split at h <;> simp only [reduceCtorEq] at h
    exact .inr ⟨rfl, by omega⟩
  case scan k =>
    split at h
    · split at h <;> simp only [reduceCtorEq] at h
    · simp only [reduceCtorEq] at h

variable [Fintype ι]

/-- **Some process can go on**, if one tray has a chef and a customer. -/
theorem exists_enabled (hn : 1 ≤ n) (h : (restaurant kind n).Reachable s)
    (hchef : ∃ i, kind i = .chefVegan) (hcust : ∃ i, kind i = .customerVegan) :
    ∃ i s', s.step kind i = some s' := by
  by_contra hno
  have hnone (i : ι) : s.step kind i = none := by
    cases hs : s.step kind i with
    | none => rfl
    | some s' => exact absurd ⟨i, s', hs⟩ hno
  have hinv := (inv_reachable h).1
  -- a process that waits for a mutex waits for one that scans
  have htoken (i : ι) : s.AwaitsToken i := by
    refine (blocked_of_none (hnone i)).resolve_right fun ⟨hst, hm⟩ => ?_
    have hmutex := hinv.mutex (s.visit i).side
    have hpos : 0 < total (scanning (s.visit i).side) s.proc := by
      simp only [State.tray] at hm; omega
    obtain ⟨j, -, hj⟩ := Finset.exists_ne_zero_of_sum_ne_zero (Nat.pos_iff_ne_zero.1 hpos)
    rcases blocked_of_none (hnone j) with ⟨hst', -⟩ | ⟨hst', -⟩ <;> simp [scanning, hst'] at hj
  have hinside : total (inside .vegan) s.proc = 0 := total_zero fun i => by simp [inside, (htoken i).1]
  have htok := hinv.tokens .vegan
  obtain ⟨i, hi⟩ := hchef
  obtain ⟨j, hj⟩ := hcust
  have hvi : s.visit i = chefVegan := by
    have := (fits_reachable h i).1
    rw [hi] at this; simpa [Kind.round] using this
  have hvj : s.visit j = eatVeganOnce := by
    have := (fits_reachable h j).1
    rw [hj] at this; simpa [Kind.round] using this
  have hempty := (htoken i).2
  have hfull := (htoken j).2
  rw [State.tray, hvi] at hempty
  rw [State.tray, hvj] at hfull
  simp only [chefVegan, eatVeganOnce, Tray.sem] at hempty hfull
  omega

/-- **Deadlock freedom**: with a `chef_vegan`, a `customer_vegan` and any other processes,
some process can go on in every reachable state; and a process that is blocked on a token
semaphore has taken no mutex that it has not given back. -/
theorem deadlock_free (hn : 1 ≤ n) (hchef : ∃ i, kind i = .chefVegan) (hcust : ∃ i, kind i = .customerVegan)
    (h : (restaurant kind n).Reachable s) :
    (∃ i s', s.step kind i = some s') ∧
    ∀ g, (restaurantHeld kind n).Reachable (s, g) → ∀ i, s.AwaitsToken i → ∀ a, g i a = 0 := by
  refine ⟨exists_enabled hn h hchef hcust, fun g hg i hi a => ?_⟩
  rw [held_eq hg i a]; simp [scanning, hi.1]

/-- A chef and a customer for each tray. -/
def fourProcesses (i : Fin 4) : Kind :=
  match i with
  | 0 => .chefVegan
  | 1 => .chefNonvegan
  | 2 => .customerVegan
  | 3 => .customerNonvegan

/-- `chef_vegan` has taken its token and the mutex. -/
def chefScans : State (Fin 4) 1 × (Fin 4 → Side → ℤ) := (restaurantHeld fourProcesses 1).after Sync.Trans.Free [0, 0]

/-- The customers wait while the tray is empty, and have no mutex. -/
theorem deadlock_free_four :
    chefScans.2 0 .vegan = 1 ∧ (∃ i s', chefScans.1.step fourProcesses i = some s') ∧ ∀ a, chefScans.2 2 a = 0 := by
  have hx : (restaurantHeld fourProcesses 1).Reachable chefScans := Sync.Trans.reach_after [0, 0]
  have hwait : chefScans.1.AwaitsToken 2 := ⟨by decide +kernel, by decide +kernel⟩
  obtain ⟨hgo, hheld⟩ := deadlock_free (by decide) ⟨0, rfl⟩ ⟨2, rfl⟩ (Trans.Reach.of_ghost hx)
  exact ⟨by decide +kernel, hgo, hheld _ hx 2 hwait⟩

end Restaurant
