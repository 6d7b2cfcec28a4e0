import LinuxExercises.Proof.Waiting

/-!
# When the restaurant comes to a stop

* `Trades`: what a step does to the counting semaphores and to its process.
* `Starved`: on a tray without a chef nobody gets past the first `sem_wait`, and a fed tray that
  has no customers of its own is never visited by a hybrid customer.
* `measure_step`: so a restaurant that is not `Fed` uses up its `EMPTY` slots and the first visits
  of its hybrid customers.
* `never_stuck_iff`: **a restaurant never comes to a stop if and only if it is fed**: some tray has
  both a chef and a customer of its own, or both trays have a chef and there is a hybrid customer.
-/

namespace Restaurant

open Sync

variable {ι : Type*} [DecidableEq ι] {n : ℕ} {kind : ι → Kind} {s s' : State ι n} {i : ι} {a : Side}

/-- The kind that puts dishes on the tray. -/
def Side.chef : Side → Kind
  | .vegan => .chefVegan
  | .nonvegan => .chefNonvegan

/-- The kind that eats from this tray only. -/
def Side.customer : Side → Kind
  | .vegan => .customerVegan
  | .nonvegan => .customerNonvegan

/-- The visit of a customer to the tray. -/
def Side.eating : Side → Visit
  | .vegan => eatVeganOnce
  | .nonvegan => eatNonveganOnce

/-- The tray has a chef. -/
def Cooked (kind : ι → Kind) (a : Side) : Prop := ∃ i, kind i = a.chef

/-- **Dishes find their eaters.** -/
def Fed (kind : ι → Kind) : Prop :=
  (∃ a, Cooked kind a ∧ ∃ i, kind i = a.customer) ∨ (∀ a, Cooked kind a) ∧ ∃ i, kind i = .customerHybrid

/-- The restaurant never comes to a stop. -/
def NeverStuck (kind : ι → Kind) (n : ℕ) : Prop :=
  ∀ s, (restaurant kind n).Reachable s → ¬ (restaurant kind n).Stuck s

/-! ## The visits of a process -/

/-- A process is in the visits of its kind, in their order. -/
inductive Paced : Kind → Proc → Prop where
  | chef (a : Side) (stage : Stage) :
      Paced a.chef ⟨a.chef.round.1, [], stage⟩
  | customer (a : Side) (stage : Stage) : Paced a.customer ⟨a.eating, [], stage⟩
  | hybrid (stage : Stage) : Paced .customerHybrid ⟨eatVeganOnce, [eatNonveganOnce], stage⟩
  | second (stage : Stage) : Paced .customerHybrid ⟨eatNonveganOnce, [], stage⟩

theorem Paced.start (κ : Kind) : Paced κ κ.start := by
  cases κ with
  | chefVegan => exact .chef .vegan .waitToken
  | chefNonvegan => exact .chef .nonvegan .waitToken
  | customerVegan => exact .customer .vegan .waitToken
  | customerNonvegan => exact .customer .nonvegan .waitToken
  | customerHybrid => exact .hybrid .waitToken

/-- Only the stage changes within a visit. -/
theorem Paced.goto {κ : Kind} {p : Proc} (h : Paced κ p) (stage : Stage) : Paced κ { p with stage } := by
  cases h with
  | chef a => exact .chef a stage
  | customer a => exact .customer a stage
  | hybrid => exact .hybrid stage
  | second => exact .second stage

theorem Paced.next {κ : Kind} {p : Proc} (h : Paced κ p) : Paced κ (p.next κ) := by
  cases h with
  | hybrid => exact .second .waitToken
  | _ => exact .start _

theorem paced_reachable (h : (restaurant kind n).Reachable s) (i : ι) : Paced (kind i) (s.proc i) := by
  refine h.inv (I := fun s => ∀ i, Paced (kind i) (s.proc i)) (fun i => .start _) (fun s l s' _ hi _ hs j => ?_) i
  obtain ⟨p, hn, hp⟩ := step_next hs
  rw [hp]
  by_cases hj : j = l
  · subst hj
    rw [Function.update_self]
    cases hn with
    | token hst => exact (hi j).goto _
    | mutex hst => exact (hi j).goto _
    | look k stage hst h => exact (hi j).goto _
    | post b hst => exact (hi j).goto _
    | next b hst => exact (hi j).next
  · rw [Function.update_of_ne hj]
    exact hi j

/-- A visit to a tray is one of a chef of the tray, or of a customer. -/
theorem Paced.cases_side {κ : Kind} {p : Proc} (h : Paced κ p) (hside : p.visit.side = a) :
    (κ = a.chef ∧ p.visit.takes = .empty ∧ p.visit.gives = .full) ∨
      p.visit = a.eating ∧ (κ = a.customer ∨ κ = .customerHybrid) := by
  subst hside
  cases h with
  | chef b stage =>
    cases b with
    | vegan => exact .inl ⟨rfl, rfl, rfl⟩
    | nonvegan => exact .inl ⟨rfl, rfl, rfl⟩
  | customer b stage =>
    cases b with
    | vegan => exact .inr ⟨rfl, .inl rfl⟩
    | nonvegan => exact .inr ⟨rfl, .inl rfl⟩
  | hybrid stage => exact .inr ⟨rfl, .inr rfl⟩
  | second stage => exact .inr ⟨rfl, .inr rfl⟩

/-! ## What a step does to the tokens -/

/-- The steps to the end of a visit on a tray of `n` slots, once it has its token. -/
def Stage.left (n : ℕ) : Stage → ℕ
  | .waitToken => 0
  | .waitMutex => n + 4
  | .scan k => n - k + 3
  | .postMutex _ => 2
  | .postToken _ => 1

/-- What a step of process `i` does: it takes its token, goes on in its visit, or gives a token and
begins its next visit. -/
inductive Trades (kind : ι → Kind) (s : State ι n) (i : ι) (s' : State ι n) : Prop where
  | take : (s.proc i).stage = .waitToken → 0 < (s.tray i).sem (s.visit i).takes →
      s'.proc = Function.update s.proc i { s.proc i with stage := .waitMutex } →
      s'.data = Function.update s.data (s.visit i).side
        ((s.tray i).setSem (s.visit i).takes ((s.tray i).sem (s.visit i).takes - 1)) → Trades kind s i s'
  | inside (stage : Stage) : (s.proc i).stage ≠ .waitToken → stage ≠ .waitToken →
      stage.left n < (s.proc i).stage.left n →
      s'.proc = Function.update s.proc i { s.proc i with stage } →
      (∀ a, (s'.data a).empty = (s.data a).empty ∧ (s'.data a).full = (s.data a).full) → Trades kind s i s'
  | give (success : Bool) : (s.proc i).stage = .postToken success →
      s'.proc = Function.update s.proc i ((s.proc i).next (kind i)) →
      s'.data = Function.update s.data (s.visit i).side
        ((s.tray i).setSem (s.visit i).gives ((s.tray i).sem (s.visit i).gives + 1)) → Trades kind s i s'

omit [DecidableEq ι] in
theorem tally_proc (s : State ι n) (v : Visit) : (s.tally v).proc = s.proc := by
  unfold State.tally
  cases v.takes <;> rfl

omit [DecidableEq ι] in
theorem tally_data (s : State ι n) (v : Visit) : (s.tally v).data = s.data := by
  unfold State.tally
  cases v.takes <;> rfl

/-- A change of a tray that leaves its counting semaphores. -/
theorem sems_put {t : Tray n} {p : Proc} (he : t.empty = (s.tray i).empty) (hf : t.full = (s.tray i).full) (a : Side) :
    ((s.put i t p).data a).empty = (s.data a).empty ∧ ((s.put i t p).data a).full = (s.data a).full := by
  simp only [State.put]
  by_cases ha : a = (s.visit i).side
  · subst ha
    rw [Function.update_self]
    exact ⟨he, hf⟩
  · rw [Function.update_of_ne ha]
    exact ⟨rfl, rfl⟩

theorem step_trades [Fintype ι] (h : Inv s) (hs : s.step kind i = some s') : Trades kind s i s' := by
  unfold State.step at hs
  cases hst : (s.proc i).stage with
  | waitToken =>
    simp only [hst] at hs
    split at hs
    · rename_i hpos
      obtain rfl := Option.some.inj hs
      exact .take hst hpos rfl rfl
    · cases hs
  | waitMutex =>
    simp only [hst] at hs
    split at hs
    · obtain rfl := Option.some.inj hs
      refine .inside (.scan 0) (by simp [hst]) (by simp) ?_ rfl (sems_put rfl rfl)
      simp [hst, Stage.left]
    · cases hs
  | scan k =>
    obtain ⟨j, hj, -⟩ := h.ahead hst
    have hk : k < n := lt_of_le_of_lt hj j.2
    simp only [hst, dif_pos hk] at hs
    split at hs
    · obtain rfl := Option.some.inj hs
      refine .inside (.postMutex true) (by simp [hst]) (by simp) ?_ ?_ fun a => ?_
      · rw [hst]
        simp only [Stage.left]
        omega
      · rw [tally_proc]
        rfl
      · rw [tally_data]
        exact sems_put (i := i) (t := (s.tray i).write ⟨k, hk⟩ (s.visit i).puts) rfl rfl a
    · obtain rfl := Option.some.inj hs
      refine .inside (.scan (k + 1)) (by simp [hst]) (by simp) ?_ rfl (sems_put rfl rfl)
      rw [hst]
      simp only [Stage.left]
      omega
  | postMutex b =>
    simp only [hst] at hs
    obtain rfl := Option.some.inj hs
    refine .inside (.postToken b) (by simp [hst]) (by simp) ?_ rfl (sems_put rfl rfl)
    simp [hst, Stage.left]
  | postToken b =>
    simp only [hst] at hs
    obtain rfl := Option.some.inj hs
    exact .give b hst rfl rfl

/-! ## Without food -/

/-- On a tray without a chef nobody gets past the first `sem_wait`, and nobody visits the second
tray once it has a chef. -/
structure Starved (kind : ι → Kind) (s : State ι n) : Prop where
  full : ∀ a, ¬ Cooked kind a → (s.data a).full = 0
  outside : ∀ a, ¬ Cooked kind a → ∀ i, s.visit i = a.eating → (s.proc i).stage = .waitToken
  second : Cooked kind .nonvegan → ∀ i, s.visit i ≠ eatNonveganOnce

omit [DecidableEq ι] in
theorem eating_side (h : s.visit i = a.eating) : (s.visit i).side = a := by
  rw [h]
  cases a <;> rfl

/-- Who can go on is on a tray with a chef. -/
theorem Starved.cooked (h : Starved kind s) (hp : Paced (kind i) (s.proc i)) (ht : Trades kind s i s') :
    Cooked kind (s.visit i).side := by
  by_contra hno
  rcases hp.cases_side rfl with ⟨hchef, -⟩ | ⟨hv, -⟩
  · exact hno ⟨i, hchef⟩
  · have hst := h.outside _ hno i hv
    cases ht with
    | take _ hpos =>
      have hfull := h.full _ hno
      have htakes : (s.visit i).takes = .full := by
        rw [show s.visit i = (s.visit i).side.eating from hv]
        cases (s.visit i).side <;> rfl
      rw [htakes] at hpos
      simp only [Tray.sem, State.tray] at hpos
      omega
    | inside stage hne => exact hne hst
    | give b hb => cases hst.symm.trans hb

omit [DecidableEq ι] in
/-- A customer on a tray with a chef is on the vegan tray. -/
theorem Starved.eats_vegan (h : Starved kind s) (hc : Cooked kind (s.visit i).side)
    (hv : s.visit i = (s.visit i).side.eating) : s.visit i = eatVeganOnce := by
  cases hside : (s.visit i).side with
  | vegan =>
    rw [hside] at hv
    exact hv
  | nonvegan =>
    rw [hside] at hc hv
    exact absurd hv (h.second hc i)

/-- **Every step keeps the others hungry.** -/
theorem Starved.step (hfed : ¬ Fed kind) (hp : ∀ i, Paced (kind i) (s.proc i)) (h : Starved kind s)
    (ht : Trades kind s i s') : Starved kind s' := by
  have hcooked := h.cooked (hp i) ht
  -- the tray of the step has a chef
  have hne {b : Side} (hb : ¬ Cooked kind b) : b ≠ (s.visit i).side := fun e => hb (e ▸ hcooked)
  have hother {j : ι} (hj : j ≠ i) : s'.proc j = s.proc j := by
    cases ht with
    | take _ _ hproc _ => rw [hproc, Function.update_of_ne hj]
    | inside stage _ _ _ hproc _ => rw [hproc, Function.update_of_ne hj]
    | give b _ hproc _ => rw [hproc, Function.update_of_ne hj]
  refine ⟨fun b hb => ?_, fun b hb j hv => ?_, fun hn j hv => ?_⟩
  · rw [← h.full b hb]
    cases ht with
    | take _ _ _ hdata => rw [hdata, Function.update_of_ne (hne hb)]
    | inside stage _ _ _ _ hdata => exact (hdata b).2
    | give b' _ _ hdata => rw [hdata, Function.update_of_ne (hne hb)]
  · by_cases hj : j = i
    · subst hj
      cases ht with
      | take _ _ hproc _ =>
        simp only [State.visit, hproc, Function.update_self] at hv
        exact absurd (eating_side hv).symm (hne hb)
      | inside stage _ _ _ hproc _ =>
        simp only [State.visit, hproc, Function.update_self] at hv
        exact absurd (eating_side hv).symm (hne hb)
      | give b' _ hproc _ =>
        rw [hproc, Function.update_self]
        unfold Proc.next
        cases (s.proc j).left <;> rfl
    · rw [State.visit, hother hj] at hv
      rw [hother hj]
      exact h.outside b hb j hv
  · by_cases hj : j = i
    · subst hj
      have hold := h.second hn j
      cases ht with
      | take _ _ hproc _ =>
        simp only [State.visit, hproc, Function.update_self] at hv
        exact hold hv
      | inside stage _ _ _ hproc _ =>
        simp only [State.visit, hproc, Function.update_self] at hv
        exact hold hv
      | give b' _ hproc _ =>
        simp only [State.visit, hproc, Function.update_self] at hv hold hcooked
        generalize hk : kind j = κ, hpj : s.proc j = p at hv hold hcooked
        have hpj' := hp j
        rw [hk, hpj] at hpj'
        cases hpj' with
        | chef b stage => cases b <;> cases hv
        | customer b stage =>
          cases b with
          | vegan => cases hv
          | nonvegan => exact hold rfl
        | hybrid stage =>
          -- a hybrid customer has eaten, so both trays have a chef
          refine hfed (.inr ⟨fun a => ?_, j, hk⟩)
          cases a with
          | vegan => exact hcooked
          | nonvegan => exact hn
        | second stage => exact hold rfl
    · rw [State.visit, hother hj] at hv
      exact h.second hn j hv

theorem starved_init (hfed : ¬ Fed kind) : Starved kind (restaurant kind n).init := by
  refine ⟨fun a _ => rfl, fun a _ i _ => rfl, fun hn i hv => ?_⟩
  cases hk : kind i with
  | customerNonvegan => exact hfed (.inl ⟨.nonvegan, hn, i, hk⟩)
  | _ =>
    have hv : (kind i).start.visit = eatNonveganOnce := hv
    rw [hk] at hv
    cases hv

/-! ## What is left to do -/

/-- The tokens and the rest of its visit that a process will still need; a visit to the vegan tray
gives an `EMPTY` slot, which pays for one visit of a chef. -/
def Proc.toll (n : ℕ) (p : Proc) : ℕ :=
  p.stage.left n + if p.visit = eatVeganOnce then (if p.stage = .waitToken then 2 * (n + 6) else n + 6) else 0

/-- The tokens of the chefs. -/
def State.empties (s : State ι n) : ℕ := (s.data .vegan).empty + (s.data .nonvegan).empty

omit [DecidableEq ι] in
theorem empties_update {t : Tray n} (h : s'.data = Function.update s.data a t) :
    s'.empties + (s.data a).empty = s.empties + t.empty := by
  unfold State.empties
  rw [h]
  cases a with
  | vegan =>
    rw [Function.update_self, Function.update_of_ne (by simp)]
    omega
  | nonvegan =>
    rw [Function.update_self, Function.update_of_ne (by simp)]
    omega

variable [Fintype ι]

/-- What is left to do, in steps. -/
def State.toll (s : State ι n) : ℕ := total (Proc.toll n) s.proc + (n + 6) * s.empties

/-- **Every step leaves less to do.** -/
theorem measure_step (hfed : ¬ Fed kind) (hp : ∀ i, Paced (kind i) (s.proc i)) (h : Starved kind s)
    (ht : Trades kind s i s') : s'.toll < s.toll := by
  have hcooked := h.cooked (hp i) ht
  unfold State.toll
  cases ht with
  | take hst hpos hproc hdata =>
    have htoll := total_update (w := Proc.toll n) (f := s.proc) i { s.proc i with stage := .waitMutex }
    have hempties := empties_update hdata
    rw [← hproc] at htoll
    simp only [Proc.toll, hst, Stage.left] at htoll
    rcases (hp i).cases_side rfl with ⟨-, htakes, -⟩ | ⟨hv, -⟩
    · -- a chef takes one of its tokens
      have hne : (s.proc i).visit ≠ eatVeganOnce := by
        intro e
        rw [e] at htakes
        cases htakes
      have htakes : (s.visit i).takes = .empty := htakes
      rw [htakes] at hpos hempties
      simp only [Tray.sem, Tray.setSem, State.tray] at hpos hempties
      rw [if_neg hne, if_neg hne] at htoll
      have hone : s.empties = s'.empties + 1 := by omega
      rw [hone, Nat.mul_succ]
      omega
    · -- a customer is on the vegan tray
      have hveg : (s.proc i).visit = eatVeganOnce := h.eats_vegan hcooked hv
      have hempty : ((s.tray i).setSem (s.visit i).takes ((s.tray i).sem (s.visit i).takes - 1)).empty =
          (s.tray i).empty := by
        rw [show s.visit i = eatVeganOnce from hveg]
        rfl
      rw [hempty] at hempties
      simp only [State.tray] at hempties
      have hsame : s'.empties = s.empties := by omega
      simp only [hveg, if_true, reduceCtorEq, if_false] at htoll
      rw [hsame]
      omega
  | inside stage hst hst' hlt hproc hdata =>
    have htoll := total_update (w := Proc.toll n) (f := s.proc) i { s.proc i with stage }
    rw [← hproc] at htoll
    simp only [Proc.toll, hst, hst', if_false] at htoll
    have hsame : s'.empties = s.empties := by
      unfold State.empties
      rw [(hdata .vegan).1, (hdata .nonvegan).1]
    rw [hsame]
    omega
  | give b hst hproc hdata =>
    have htoll := total_update (w := Proc.toll n) (f := s.proc) i ((s.proc i).next (kind i))
    have hempties := empties_update hdata
    rw [← hproc] at htoll
    have hpaced := hp i
    rcases hpaced.cases_side rfl with ⟨hchef, htakes, hgives⟩ | ⟨hv, hk⟩
    · -- a chef gives a dish, and none of its tokens
      have hgives : (s.visit i).gives = .full := hgives
      rw [hgives] at hempties
      simp only [Tray.setSem, State.tray] at hempties
      have hsame : s'.empties = s.empties := by omega
      have hnext : Proc.toll n ((s.proc i).next (kind i)) = 0 := by
        generalize s.proc i = p, kind i = κ at hpaced htakes hchef
        cases hpaced with
        | chef a => cases a <;> rfl
        | customer a => cases a <;> cases htakes
        | hybrid => cases htakes
        | second => cases htakes
      have hold : 0 < Proc.toll n (s.proc i) := by
        simp only [Proc.toll, hst, Stage.left]
        omega
      rw [hsame]
      omega
    · -- a hybrid customer gives a token, and goes on to the other tray
      have hveg : s.visit i = eatVeganOnce := h.eats_vegan hcooked hv
      have hhyb : kind i = .customerHybrid := hk.resolve_left fun hk => hfed (.inl ⟨_, hcooked, i, hk⟩)
      have hgives : (s.visit i).gives = .empty := by rw [hveg]; rfl
      rw [hgives] at hempties
      simp only [Tray.setSem, Tray.sem, State.tray] at hempties
      have hone : s'.empties = s.empties + 1 := by omega
      have hnext : Proc.toll n ((s.proc i).next (kind i)) = 0 := by
        simp only [State.visit] at hveg
        generalize s.proc i = p, kind i = κ at hpaced hveg hhyb
        cases hpaced with
        | hybrid => rfl
        | second => cases hveg
        | chef a => cases a <;> cases hveg
        | customer a => cases a <;> cases hhyb
      have hold : Proc.toll n (s.proc i) = 1 + (n + 6) := by
        simp only [State.visit] at hveg
        simp [Proc.toll, hst, hveg, Stage.left]
      rw [hone, Nat.mul_succ]
      omega

/-! ## The condition -/

/-- Where nobody can go on, everybody waits for a token, and each tray has all of its tokens. -/
theorem stuck_awaits (h : (restaurant kind n).Reachable s) (hs : (restaurant kind n).Stuck s) :
    (∀ i, s.AwaitsToken i) ∧ ∀ a, (s.data a).empty + (s.data a).full = n := by
  have hinv := (inv_reachable h).1
  have hblocked (i : ι) := blocked_of_none (hs i)
  -- nobody scans, so nobody waits for a mutex
  have hscan (a : Side) : total (scanning a) s.proc = 0 := total_zero fun j => by
    rcases hblocked j with ⟨hst, -⟩ | ⟨hst, -⟩ <;> simp [scanning, hst]
  have htoken (i : ι) : s.AwaitsToken i := by
    rcases hblocked i with hwait | ⟨-, hm⟩
    · exact hwait
    · have hmutex := hinv.mutex (s.visit i).side
      rw [hscan] at hmutex
      simp only [State.tray] at hm
      omega
  refine ⟨htoken, fun a => ?_⟩
  have htok := hinv.tokens a
  rw [total_zero fun i => by simp [inside, (htoken i).1]] at htok
  exact htok

omit [DecidableEq ι] [Fintype ι] in
/-- A chef that waits finds its tray full. -/
theorem full_of_chef (htoken : ∀ i, s.AwaitsToken i) (hall : ∀ a, (s.data a).empty + (s.data a).full = n)
    (hp : ∀ i, Paced (kind i) (s.proc i)) (hc : Cooked kind a) : (s.data a).full = n := by
  obtain ⟨i, hi⟩ := hc
  have hwait := (htoken i).2
  have htray := hall a
  have hvisit : s.visit i = a.chef.round.1 := by
    have hpaced := hp i
    rw [hi] at hpaced
    unfold State.visit
    generalize s.proc i = p at hpaced
    generalize hκ : a.chef = κ at hpaced
    cases hpaced with
    | chef b => rfl
    | customer b => cases a <;> cases b <;> cases hκ
    | hybrid => cases a <;> cases hκ
    | second => cases a <;> cases hκ
  have hempty : (s.data a).empty = 0 := by
    rw [State.tray, hvisit] at hwait
    cases a <;> exact hwait
  omega

omit [DecidableEq ι] [Fintype ι] in
/-- A customer that waits finds its tray empty. -/
theorem empty_of_eater (htoken : ∀ i, s.AwaitsToken i) (hv : s.visit i = a.eating) : (s.data a).full = 0 := by
  have hwait := (htoken i).2
  rw [State.tray, hv] at hwait
  cases a <;> exact hwait

/-- A fed restaurant never comes to a stop. -/
theorem never_stuck (hn : 1 ≤ n) (hfed : Fed kind) : NeverStuck kind n := by
  intro s h hs
  obtain ⟨htoken, hall⟩ := stuck_awaits h hs
  have hp := paced_reachable h
  rcases hfed with ⟨a, hc, i, hi⟩ | ⟨hall', i, hi⟩
  · have hvisit : s.visit i = a.eating := by
      have hpaced := hp i
      unfold State.visit
      generalize s.proc i = p, kind i = κ at hpaced hi
      cases hpaced with
      | chef b => cases a <;> cases b <;> cases hi
      | customer b => cases a <;> cases b <;> first | rfl | cases hi
      | hybrid => cases a <;> cases hi
      | second => cases a <;> cases hi
    have hfull := full_of_chef htoken hall hp hc
    have hempty := empty_of_eater htoken hvisit
    omega
  · obtain ⟨b, hvisit⟩ : ∃ b : Side, s.visit i = b.eating := by
      rcases (hp i).cases_side rfl with ⟨hchef, -⟩ | ⟨hv, -⟩
      · rw [hi] at hchef
        cases hside : (s.proc i).visit.side <;> rw [hside] at hchef <;> cases hchef
      · exact ⟨_, hv⟩
    have hfull := full_of_chef htoken hall hp (hall' b)
    have hempty := empty_of_eater htoken hvisit
    omega

/-- **When the restaurant never comes to a stop**: if and only if some tray has both a chef and a
customer of its own, or both trays have a chef and there is a hybrid customer. -/
theorem never_stuck_iff (hn : 1 ≤ n) : NeverStuck kind n ↔ Fed kind := by
  refine ⟨fun h => ?_, never_stuck hn⟩
  by_contra hfed
  obtain ⟨s, hs, hidle⟩ := Trans.exists_idle (T := restaurant kind n)
    (I := fun s => (restaurant kind n).Reachable s ∧ Starved kind s)
    (fun s l s' hi hst => ⟨hi.1.step trivial hst,
      hi.2.step hfed (paced_reachable hi.1) (step_trades (inv_reachable hi.1).1 hst)⟩)
    State.toll (fun _ => false) 0
    (fun s l s' hi hst =>
      measure_step hfed (paced_reachable hi.1) hi.2 (step_trades (inv_reachable hi.1).1 hst))
    ⟨.init, starved_init hfed⟩ .init
  exact h s hs fun l => hidle l rfl

/-- Both chefs and a customer for both trays. -/
def withHybrid (i : Fin 3) : Kind :=
  match i with
  | 0 => .chefVegan
  | 1 => .chefNonvegan
  | 2 => .customerHybrid

theorem never_stuck_hybrid : Fed withHybrid ∧ NeverStuck withHybrid 1 :=
  have hfed : Fed withHybrid := .inr ⟨fun a => by cases a <;> [exact ⟨0, rfl⟩; exact ⟨1, rfl⟩], 2, rfl⟩
  ⟨hfed, (never_stuck_iff (by decide)).2 hfed⟩

end Restaurant
