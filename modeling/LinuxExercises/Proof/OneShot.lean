import LinuxExercises.Spec.OneShot
import LinuxExercises.Proof.Restaurant

/-!
# The semaphores after one-shot calls

* `vegan_accounted`: the vegan tray is a restaurant of its own (`veganPart`), whose invariant
  gives its semaphores.
* `Fresh`: on the other tray nothing happens until `add_nonvegan_dish_once` is called; that
  function puts a dish and posts `non_empty`, so `non_full` stays 0.
* `accounted_iff`: so the semaphores account for the slots exactly while no call of
  `add_nonvegan_dish_once` has returned.
-/

namespace Restaurant

open Sync

variable {ι : Type*} [DecidableEq ι] {n : ℕ} {s s' : Session ι n} {i : ι} {c : Call} {stage : Stage}

/-! ## What one step does -/

/-- What a step of process `i` does. -/
inductive Acts (s : Session ι n) (i : ι) : Session ι n → Prop where
  | call (c : Call) : s.running i = none →
      Acts s i { s with running := Function.update s.running i (some (c, .waitToken)) }
  | go (c : Call) (stage stage' : Stage) (t : Tray n) : s.running i = some (c, stage) →
      c.visit.act (s.data c.visit.side) stage = some (t, .inl stage') →
      Acts s i { s with
        data := Function.update s.data c.visit.side t
        running := Function.update s.running i (some (c, stage')) }
  | ret (c : Call) (stage : Stage) (success : Bool) (t : Tray n) : s.running i = some (c, stage) →
      c.visit.act (s.data c.visit.side) stage = some (t, .inr success) →
      Acts s i { s with
        data := Function.update s.data c.visit.side t
        running := Function.update s.running i none
        returned := (c, success) :: s.returned }

theorem step_acts {l : Turn ι} (h : s.step l = some s') : ∃ i, Acts s i s' := by
  cases l with
  | call i c =>
    simp only [Session.step] at h
    cases hr : s.running i <;> simp only [hr, Option.some.injEq, reduceCtorEq] at h
    subst h; exact ⟨i, .call c hr⟩
  | go i =>
    simp only [Session.step] at h
    cases hr : s.running i with
    | none => simp [hr] at h
    | some x =>
      obtain ⟨c, stage⟩ := x
      simp only [hr] at h
      cases ha : c.visit.act (s.data c.visit.side) stage with
      | none => simp [ha] at h
      | some y =>
        obtain ⟨t, r⟩ := y
        cases r <;> simp only [ha, Option.some.injEq] at h <;> subst h
        · exact ⟨i, .go c stage _ t hr ha⟩
        · exact ⟨i, .ret c stage _ t hr ha⟩

/-! ## The vegan tray -/

/-- A process outside the calls on the vegan tray, as a process of the restaurant: before a visit. -/
def idle : Proc := ⟨eatVeganOnce, [], .waitToken⟩

/-- A process in a call on the vegan tray. -/
def veganProc : Option (Call × Stage) → Proc
  | some (c, stage) => if c.visit.side = .vegan then ⟨c.visit, [], stage⟩ else idle
  | none => idle

/-- The vegan tray and the calls on it. -/
def Session.veganPart (s : Session ι n) : State ι n where
  data
    | .vegan => s.data .vegan
    | .nonvegan => initSharedMemory n .nonvegan
  proc := fun i => veganProc (s.running i)
  added := fun _ => 0
  eaten := fun _ => 0

variable [Fintype ι]

/-- **A step of a visit keeps the invariant of the restaurant**, and a visit succeeds. -/
theorem Inv.act {S : State ι n} (h : Inv S) {v : Visit} {t : Tray n} {r : Stage ⊕ Bool}
    (hp : S.proc i = ⟨v, [], stage⟩) (ha : v.act (S.tray i) stage = some (t, r)) :
    (∀ stage', r = .inl stage' → Inv (S.put i t ⟨v, [], stage'⟩)) ∧
      ∀ b, r = .inr b → b = true ∧ Inv (S.put i t idle) := by
  have hst : (S.proc i).stage = stage := by rw [hp]
  have hv : S.visit i = v := by rw [State.visit, hp]
  cases stage with
  | waitToken =>
    simp only [Visit.act] at ha
    split at ha <;> simp only [Option.some.injEq, reduceCtorEq, Prod.mk.injEq] at ha
    obtain ⟨rfl, rfl⟩ := ha
    have := h.waitToken hst (by rw [hv]; assumption)
    rw [hv, hp] at this
    exact ⟨fun _ hr => by cases hr; exact this, by simp⟩
  | waitMutex =>
    simp only [Visit.act] at ha
    split at ha <;> simp only [Option.some.injEq, reduceCtorEq, Prod.mk.injEq] at ha
    obtain ⟨rfl, rfl⟩ := ha
    have := h.waitMutex hst (by assumption)
    rw [hp] at this
    exact ⟨fun _ hr => by cases hr; exact this, by simp⟩
  | scan k =>
    obtain ⟨j, hkj, -⟩ := h.ahead hst
    have hk : k < n := lt_of_le_of_lt hkj j.2
    simp only [Visit.act, dif_pos hk] at ha
    split at ha <;> simp only [Option.some.injEq, Prod.mk.injEq] at ha <;> obtain ⟨rfl, rfl⟩ := ha
    · have := h.write hk hst (by rw [hv]; assumption)
      rw [hv, hp] at this
      exact ⟨fun _ hr => by cases hr; exact this, by simp⟩
    · have := h.pass hk hst (by rw [hv]; assumption)
      rw [hp] at this
      exact ⟨fun _ hr => by cases hr; exact this, by simp⟩
  | postMutex b =>
    simp only [Visit.act, Option.some.injEq, Prod.mk.injEq] at ha
    obtain ⟨rfl, rfl⟩ := ha
    have := h.postMutex hst
    rw [hp] at this
    exact ⟨fun _ hr => by cases hr; exact this, by simp⟩
  | postToken b =>
    simp only [Visit.act, Option.some.injEq, Prod.mk.injEq] at ha
    obtain ⟨rfl, rfl⟩ := ha
    have := h.postToken (κ := .customerVegan) hst
    rw [hv, hp] at this
    have hb := (h.success i).2
    rw [hst] at hb
    refine ⟨by simp, fun b' hr => ?_⟩
    cases hr
    exact ⟨by simpa using hb, this⟩

/-- Calls on the vegan tray run like the processes of the restaurant, and succeed. -/
structure Vegan (s : Session ι n) : Prop where
  inv : Inv s.veganPart
  success : ∀ r ∈ s.returned, r.1.visit.side = .vegan → r.2 = true

omit [Fintype ι] in
/-- What the change of one process's call is to the restaurant. -/
theorem veganProc_update (f : ι → Option (Call × Stage)) (i : ι) (x : Option (Call × Stage)) :
    (fun j => veganProc (Function.update f i x j)) =
      Function.update (fun j => veganProc (f j)) i (veganProc x) := Function.comp_update veganProc f i x

omit [Fintype ι] in
/-- A move on the other tray. -/
theorem veganPart_nonvegan (s : Session ι n) (i : ι) {x : Option (Call × Stage)} {t : Tray n}
    {r : List (Call × Bool)} (hx : veganProc x = veganProc (s.running i)) :
    Session.veganPart ⟨Function.update s.data .nonvegan t, Function.update s.running i x, r⟩ = s.veganPart := by
  unfold Session.veganPart
  congr 1
  rw [veganProc_update, hx]
  exact Function.update_eq_self i _

omit [Fintype ι] in
/-- A move on the vegan tray. -/
theorem veganPart_vegan (s : Session ι n) (i : ι) {x : Option (Call × Stage)} {t : Tray n}
    {r : List (Call × Bool)} (hi : (s.veganPart.visit i).side = .vegan) :
    Session.veganPart ⟨Function.update s.data .vegan t, Function.update s.running i x, r⟩ =
      s.veganPart.put i t (veganProc x) := by
  unfold State.put
  rw [hi]
  unfold Session.veganPart
  congr 1
  · funext a; cases a <;> simp [Function.update]
  · exact veganProc_update _ i x

/-- A process between calls may start one. -/
theorem Inv.restart {S : State ι n} (h : Inv S) {p : Proc} (hst : (S.proc i).stage = .waitToken)
    (hp : p.visit.Ok ∧ ∀ v ∈ p.left, v.Ok) (hside : p.visit.side = (S.visit i).side) (hpst : p.stage = .waitToken) :
    Inv (S.put i (S.tray i) p) := by
  have h1 := weights_zero (a := (S.visit i).side) (p := p) fun _ => hpst
  have h2 := weights_zero (a := (S.visit i).side) (p := S.proc i) fun _ => hst
  refine h.put hp (.inl hside) ?_ ?_ ?_ (h.food _) (.inl rfl) (fun k hk => by rw [hpst] at hk; cases hk)
    (by simp [hpst])
  · rw [h1.1, h2.1]
  · rw [h1.2.1, h2.2.1]
  · rw [h1.2.2, h2.2.2]

theorem Vegan.step (h : Vegan s) (hs : Acts s i s') : Vegan s' := by
  cases hs with
  | call c hr =>
    have hi : s.veganPart.proc i = idle := by simp only [Session.veganPart, hr, veganProc]
    have hput := veganPart_vegan s i (x := some (c, .waitToken)) (t := s.data .vegan) (r := s.returned)
      (by rw [State.visit, hi]; rfl)
    rw [Function.update_eq_self] at hput
    have htray : s.data .vegan = s.veganPart.tray i := by rw [State.tray, State.visit, hi]; rfl
    refine ⟨?_, h.success⟩
    rw [hput, htray]
    refine h.inv.restart (by rw [hi]; rfl) ?_ ?_ ?_
    · cases c <;> simp [veganProc, Call.visit, Visit.Ok, addVeganDishOnce, addNonveganDishOnce, eatVeganOnce,
        eatNonveganOnce, idle, Side.food]
    · rw [State.visit, hi]; cases c <;> rfl
    · cases c <;> rfl
  | go c stage stage' t hr ha =>
    cases hc : c.visit.side with
    | vegan =>
      have hi : s.veganPart.proc i = ⟨c.visit, [], stage⟩ := by
        simp only [Session.veganPart, hr, veganProc, hc, if_true]
      have hput := veganPart_vegan s i (x := some (c, stage')) (t := t) (r := s.returned)
        (by rw [State.visit, hi]; exact hc)
      rw [hc] at ha
      refine ⟨?_, h.success⟩
      rw [hput]
      simp only [veganProc, hc, if_true]
      refine (h.inv.act hi ?_).1 stage' rfl
      rw [State.tray, State.visit, hi]
      show c.visit.act (s.veganPart.data c.visit.side) stage = _
      rw [hc]; exact ha
    | nonvegan =>
      refine ⟨?_, h.success⟩
      rw [veganPart_nonvegan s i (by simp [hr, veganProc, hc])]; exact h.inv
  | ret c stage b t hr ha =>
    cases hc : c.visit.side with
    | vegan =>
      have hi : s.veganPart.proc i = ⟨c.visit, [], stage⟩ := by
        simp only [Session.veganPart, hr, veganProc, hc, if_true]
      have hput := veganPart_vegan s i (x := none) (t := t) (r := (c, b) :: s.returned)
        (by rw [State.visit, hi]; exact hc)
      rw [hc] at ha
      have hact := (h.inv.act hi (t := t) (r := .inr b) (by
        rw [State.tray, State.visit, hi]
        show c.visit.act (s.veganPart.data c.visit.side) stage = _
        rw [hc]; exact ha)).2 b rfl
      refine ⟨by rw [hput]; exact hact.2, fun r hmem hside => ?_⟩
      rcases List.mem_cons.1 hmem with rfl | hmem
      · exact hact.1
      · exact h.success r hmem hside
    | nonvegan =>
      refine ⟨?_, fun r hmem hside => ?_⟩
      · rw [veganPart_nonvegan s i (by simp [hr, veganProc, hc])]; exact h.inv
      · rcases List.mem_cons.1 hmem with rfl | hmem
        · rw [hc] at hside; cases hside
        · exact h.success r hmem hside

theorem vegan_reachable (h : (oneShot ι n).Reachable s) : Vegan s := by
  refine h.inv ⟨?_, by simp [oneShot]⟩ fun _ _ _ _ hi _ hs => ?_
  · have hinit : (oneShot ι n).init.veganPart = State.init (fun _ => .customerVegan) n := by
      unfold Session.veganPart State.init
      congr 1
      funext a; cases a <;> rfl
    rw [hinit]; exact inv_init _
  · obtain ⟨i, hs⟩ := step_acts hs
    exact hi.step hs

/-- The semaphores of the vegan tray, while no call is past its first `sem_wait`. -/
theorem vegan_accounted (h : (oneShot ι n).Reachable s) (hq : s.Quiet) :
    (s.data .vegan).full = (s.data .vegan).occupied ∧ (s.data .vegan).empty + (s.data .vegan).occupied = n ∧
      (s.data .vegan).mutex = 1 := by
  have hinv := (vegan_reachable h).inv
  have hz (i : ι) := weights_zero (a := .vegan) (p := s.veganPart.proc i) fun _ => by
    show (veganProc (s.running i)).stage = _
    unfold veganProc
    cases hr : s.running i with
    | none => rfl
    | some x =>
      have := hq i x.1 x.2 hr
      by_cases hx : x.1.visit.side = .vegan <;> simp [hx, this, idle]
  have h1 := hinv.mutex .vegan
  have h2 := hinv.tokens .vegan
  have h3 := hinv.dishes .vegan
  rw [total_zero fun i => (hz i).1] at h1
  rw [total_zero fun i => (hz i).2.1] at h2
  rw [total_zero fun i => (hz i).2.2] at h3
  simp only [Session.veganPart] at h1 h2 h3
  omega

/-! ## The other tray -/

/-- The call is past its first `sem_wait` and has not found a slot yet. -/
def Stage.early : Stage → Bool
  | .waitMutex | .scan _ => true
  | _ => false

/-- A call of `add_nonvegan_dish_once` has got past its first `sem_wait`. -/
def Session.Entered (s : Session ι n) : Prop :=
  (∃ i stage, s.running i = some (.addNonvegan, stage) ∧ stage ≠ .waitToken) ∨ ∃ r ∈ s.returned, r.1 = .addNonvegan

/-- **The other tray**: `non_full` is never posted, so nobody eats; nothing happens before
`add_nonvegan_dish_once` is called; and after its first scan there is a dish. -/
structure Fresh (s : Session ι n) : Prop where
  full : (s.data .nonvegan).full = 0
  noEat : ∀ i stage, s.running i = some (.eatNonvegan, stage) → stage = .waitToken
  noEaten : ∀ r ∈ s.returned, r.1 ≠ .eatNonvegan
  fresh : ¬ s.Entered → s.data .nonvegan = initSharedMemory n .nonvegan
  used : s.Entered → 0 < n ∧ (0 < (s.data .nonvegan).occupied ∨
    ∃ i stage, s.running i = some (.addNonvegan, stage) ∧ stage.early)
  looked : ∀ i k, s.running i = some (.addNonvegan, .scan k) → 0 < k → 0 < (s.data .nonvegan).occupied

omit [Fintype ι] in
/-- A process that is in no call of `add_nonvegan_dish_once` past its first `sem_wait`, before
and after, and that leaves the tray alone. -/
theorem Fresh.bystander (h : Fresh s) {x : Option (Call × Stage)} (hd : s'.data .nonvegan = s.data .nonvegan)
    (hrun : s'.running = Function.update s.running i x) (hold : ∀ stage, s.running i ≠ some (.addNonvegan, stage))
    (hadd : ∀ stage, x = some (.addNonvegan, stage) → stage = .waitToken)
    (heat : ∀ stage, x = some (.eatNonvegan, stage) → stage = .waitToken)
    (hr : s'.returned = s.returned ∨ ∃ y, s'.returned = y :: s.returned ∧ y.1.visit.side = .vegan) : Fresh s' := by
  have hself : s'.running i = x := by rw [hrun, Function.update_self]
  have hrest {j : ι} (hj : j ≠ i) : s'.running j = s.running j := by rw [hrun, Function.update_of_ne hj]
  have hmem {c : Call} (hc : c.visit.side = .nonvegan) : (∃ y ∈ s'.returned, y.1 = c) ↔ ∃ y ∈ s.returned, y.1 = c := by
    rcases hr with hr | ⟨y, hr, hy⟩ <;> rw [hr]
    have hyc : y.1 ≠ c := fun e => by rw [e, hc] at hy; cases hy
    simp [hyc]
  have hent : s'.Entered ↔ s.Entered := by
    refine or_congr ⟨?_, ?_⟩ (hmem rfl)
    · rintro ⟨j, stage, hj, hne⟩
      by_cases hji : j = i
      · rw [hji, hself] at hj; exact absurd (hadd stage hj) hne
      · rw [hrest hji] at hj; exact ⟨j, stage, hj, hne⟩
    · rintro ⟨j, stage, hj, hne⟩
      have hji : j ≠ i := by rintro rfl; exact hold stage hj
      exact ⟨j, stage, (hrest hji).trans hj, hne⟩
  refine ⟨by rw [hd]; exact h.full, fun j stage hj => ?_, fun y hy hc => ?_, fun hne => ?_, fun he => ?_, fun j k hj hk => ?_⟩
  · by_cases hji : j = i
    · rw [hji, hself] at hj; exact heat stage hj
    · rw [hrest hji] at hj; exact h.noEat j stage hj
  · obtain ⟨z, hz, hzc⟩ := (hmem (c := .eatNonvegan) rfl).1 ⟨y, hy, hc⟩
    exact h.noEaten z hz hzc
  · rw [hd]; exact h.fresh fun he => hne (hent.2 he)
  · obtain ⟨hn, hu⟩ := h.used (hent.1 he)
    refine ⟨hn, ?_⟩
    rw [hd]
    rcases hu with hu | ⟨j, stage, hj, hearly⟩
    · exact .inl hu
    · have hji : j ≠ i := by rintro rfl; exact hold stage hj
      exact .inr ⟨j, stage, (hrest hji).trans hj, hearly⟩
  · rw [hd]
    by_cases hji : j = i
    · rw [hji, hself] at hj; cases hadd _ hj
    · rw [hrest hji] at hj; exact h.looked j k hj hk

omit [Fintype ι] in
/-- A process in `add_nonvegan_dish_once`: it takes no dish away, and after its scan there is one. -/
theorem Fresh.adder (h : Fresh s) {x : Option (Call × Stage)} {t : Tray n}
    (hold : s.running i = some (.addNonvegan, stage)) (hrun : s'.running = Function.update s.running i x)
    (ht : s'.data .nonvegan = t) (hfull : t.full = (s.data .nonvegan).full)
    (heat : ∀ stage, x ≠ some (.eatNonvegan, stage))
    (hr : s'.returned = s.returned ∨ ∃ b, s'.returned = (.addNonvegan, b) :: s.returned)
    (hent : s'.Entered) (hn : 0 < n) (hocc : (s.data .nonvegan).occupied ≤ t.occupied)
    (hused : 0 < t.occupied ∨ (∃ stage', x = some (.addNonvegan, stage') ∧ stage'.early) ∨
      stage.early = false ∧ stage ≠ .waitToken)
    (hlook : ∀ k, x = some (.addNonvegan, .scan k) → 0 < k → 0 < t.occupied) : Fresh s' := by
  subst ht
  have hself : s'.running i = x := by rw [hrun, Function.update_self]
  have hrest {j : ι} (hj : j ≠ i) : s'.running j = s.running j := by rw [hrun, Function.update_of_ne hj]
  refine ⟨by rw [hfull]; exact h.full, fun j stage' hj => ?_, fun y hy => ?_, fun hne => absurd hent hne,
    fun _ => ⟨hn, ?_⟩, fun j k hj hk => ?_⟩
  · by_cases hji : j = i
    · rw [hji, hself] at hj; exact absurd hj (heat stage')
    · rw [hrest hji] at hj; exact h.noEat j stage' hj
  · rcases hr with hr | ⟨b, hr⟩ <;> rw [hr] at hy
    · exact h.noEaten y hy
    · rcases List.mem_cons.1 hy with rfl | hy
      · simp
      · exact h.noEaten y hy
  · rcases hused with hu | ⟨stage', hx, hearly⟩ | ⟨hlate, hne⟩
    · exact .inl hu
    · exact .inr ⟨i, stage', hself.trans hx, hearly⟩
    · -- the dish, or a process that still looks for a slot, was there before
      rcases (h.used (.inl ⟨i, stage, hold, hne⟩)).2 with hu | ⟨j, stage', hj, hearly⟩
      · exact .inl (by omega)
      · have hji : j ≠ i := by
          rintro rfl
          rw [hold] at hj; cases hj
          rw [hlate] at hearly; cases hearly
        exact .inr ⟨j, stage', (hrest hji).trans hj, hearly⟩
  · by_cases hji : j = i
    · rw [hji, hself] at hj; exact hlook k hj hk
    · rw [hrest hji] at hj
      have := h.looked j k hj hk
      omega

omit [Fintype ι] in
/-- A tray with a slot that is not `EMPTY` has a dish. -/
theorem Tray.occupied_pos {t : Tray n} {k : Fin n} (h : t.slots k ≠ .EMPTY) : 0 < t.occupied :=
  Finset.card_pos.2 ⟨k, Finset.mem_filter.2 ⟨Finset.mem_univ k, h⟩⟩

omit [Fintype ι] [DecidableEq ι] in
/-- Who gets past the first `sem_wait` found a token, so there is a slot. -/
theorem Fresh.slots (h : Fresh s) (hr : s.running i = some (.addNonvegan, stage))
    (hpos : stage = .waitToken → 0 < (s.data .nonvegan).empty) : 0 < n := by
  by_cases he : s.Entered
  · exact (h.used he).1
  · have hst : stage = .waitToken := by
      by_contra hne
      exact he (.inl ⟨i, stage, hr, hne⟩)
    have := hpos hst
    rw [h.fresh he] at this; exact this

omit [Fintype ι] [DecidableEq ι] in
/-- What a step of `add_nonvegan_dish_once` does to the tray. -/
theorem Fresh.act (h : Fresh s) (hr : s.running i = some (.addNonvegan, stage)) {t : Tray n} {r : Stage ⊕ Bool}
    (ha : addNonveganDishOnce.act (s.data .nonvegan) stage = some (t, r)) :
    0 < n ∧ t.full = (s.data .nonvegan).full ∧ (s.data .nonvegan).occupied ≤ t.occupied ∧ r ≠ .inl .waitToken ∧
      (0 < t.occupied ∨ (∃ stage', r = .inl stage' ∧ stage'.early) ∨ stage.early = false ∧ stage ≠ .waitToken) ∧
      ∀ k, r = .inl (.scan k) → 0 < k → 0 < t.occupied := by
  have hn (hpos : stage = .waitToken → 0 < (s.data .nonvegan).empty) := h.slots hr hpos
  cases stage with
  | waitToken =>
    simp only [Visit.act] at ha
    split at ha <;> simp only [Option.some.injEq, reduceCtorEq, Prod.mk.injEq] at ha
    rename_i hpos
    obtain ⟨rfl, rfl⟩ := ha
    refine ⟨hn fun _ => hpos, rfl, le_rfl, by simp, .inr (.inl ⟨_, rfl, rfl⟩), by simp⟩
  | waitMutex =>
    simp only [Visit.act] at ha
    split at ha <;> simp only [Option.some.injEq, reduceCtorEq, Prod.mk.injEq] at ha
    obtain ⟨rfl, rfl⟩ := ha
    refine ⟨hn (by simp), rfl, le_rfl, by simp, .inr (.inl ⟨_, rfl, rfl⟩), fun k hk hpos => ?_⟩
    cases hk; omega
  | scan k =>
    have hn := hn (by simp)
    simp only [Visit.act] at ha
    split at ha
    · rename_i hk
      split at ha <;> simp only [Option.some.injEq, Prod.mk.injEq] at ha <;> obtain ⟨rfl, rfl⟩ := ha
      · have hocc := (s.data .nonvegan).occupied_write ⟨k, hk⟩ addNonveganDishOnce.puts
        rename_i hhit
        rw [hhit] at hocc
        simp only [addNonveganDishOnce, dish, if_true, reduceCtorEq, if_false] at hocc ⊢
        exact ⟨hn, rfl, by omega, by simp, .inl (by omega), by simp⟩
      · have hocc : 0 < (s.data .nonvegan).occupied := Tray.occupied_pos (k := ⟨k, hk⟩) (by assumption)
        exact ⟨hn, rfl, le_rfl, by simp, .inl hocc, fun _ _ _ => hocc⟩
    · simp only [Option.some.injEq, Prod.mk.injEq] at ha
      obtain ⟨rfl, rfl⟩ := ha
      have hocc := h.looked i k hr (by omega)
      exact ⟨hn, rfl, le_rfl, by simp, .inl hocc, by simp⟩
  | postMutex b =>
    simp only [Visit.act, Option.some.injEq, Prod.mk.injEq] at ha
    obtain ⟨rfl, rfl⟩ := ha
    exact ⟨hn (by simp), rfl, le_rfl, by simp, .inr (.inr ⟨rfl, by simp⟩), by simp⟩
  | postToken b =>
    simp only [Visit.act, Option.some.injEq, Prod.mk.injEq] at ha
    obtain ⟨rfl, rfl⟩ := ha
    refine ⟨hn (by simp), rfl, le_rfl, by simp, .inr (.inr ⟨rfl, by simp⟩), by simp⟩

omit [Fintype ι] in
/-- **Every step of a process keeps the other tray right.** -/
theorem Fresh.step (h : Fresh s) (hs : Acts s i s') : Fresh s' := by
  cases hs with
  | call c hr =>
    refine h.bystander (i := i) (x := some (c, .waitToken)) rfl rfl ?_ ?_ ?_ (.inl rfl)
    · intro stage hs; rw [hr] at hs; cases hs
    · rintro stage ⟨⟩; rfl
    · rintro stage ⟨⟩; rfl
  | go c stage stage' t hr ha =>
    cases c with
    | addNonvegan =>
      obtain ⟨hn, hfull, hocc, hne, hused, hlook⟩ := h.act hr ha
      have htray : Function.update s.data .nonvegan t .nonvegan = t := Function.update_self _ _ _
      refine h.adder (x := some (.addNonvegan, stage')) (t := t) hr rfl htray hfull (by simp) (.inl rfl)
        (.inl ⟨i, stage', by simp, fun hs => hne (by rw [hs])⟩) hn hocc ?_ ?_
      · rcases hused with hu | ⟨stage'', hs, hearly⟩ | hu
        · exact .inl hu
        · cases hs; exact .inr (.inl ⟨_, rfl, hearly⟩)
        · exact .inr (.inr hu)
      · rintro k ⟨⟩ hk
        exact hlook k rfl hk
    | eatNonvegan =>
      -- nobody gets past the first `sem_wait`
      rw [h.noEat i stage hr] at ha
      simp [Visit.act, Call.visit, eatNonveganOnce, Tray.sem, h.full] at ha
    | _ =>
      refine h.bystander (i := i) (x := some (_, stage')) (by simp [Call.visit, addVeganDishOnce, eatVeganOnce]) rfl ?_ ?_ ?_ (.inl rfl)
      · intro stage hs; rw [hr] at hs; cases hs
      · rintro stage ⟨⟩
      · rintro stage ⟨⟩
  | ret c stage b t hr ha =>
    cases c with
    | addNonvegan =>
      obtain ⟨hn, hfull, hocc, -, hused, -⟩ := h.act hr ha
      have htray : Function.update s.data .nonvegan t .nonvegan = t := Function.update_self _ _ _
      refine h.adder (x := none) (t := t) hr rfl htray hfull (by simp) (.inr ⟨b, rfl⟩)
        (.inr ⟨_, List.mem_cons_self, rfl⟩) hn hocc ?_ (by simp)
      rcases hused with hu | ⟨stage'', hs, -⟩ | hu
      · exact .inl hu
      · cases hs
      · exact .inr (.inr hu)
    | eatNonvegan =>
      rw [h.noEat i stage hr] at ha
      simp [Visit.act, Call.visit, eatNonveganOnce, Tray.sem, h.full] at ha
    | _ =>
      refine h.bystander (i := i) (x := none) (by simp [Call.visit, addVeganDishOnce, eatVeganOnce]) rfl ?_ (by simp) (by simp)
        (.inr ⟨_, rfl, rfl⟩)
      intro stage hs; rw [hr] at hs; cases hs

omit [Fintype ι] in
theorem fresh_reachable (h : (oneShot ι n).Reachable s) : Fresh s := by
  refine h.inv ⟨rfl, by simp [oneShot], by simp [oneShot], fun _ => rfl, fun he => ?_, by simp [oneShot]⟩
    fun _ _ _ _ hi _ hs => ?_
  · rcases he with ⟨i, stage, hi, -⟩ | ⟨r, hr, -⟩
    · simp [oneShot] at hi
    · simp [oneShot] at hr
  · obtain ⟨i, hs⟩ := step_acts hs
    exact hi.step hs

/-- **Semaphore accounting of the one-shot functions**: while no call is past its first
`sem_wait`, the semaphores account for the slots and all calls have succeeded if and only if
no call of `add_nonvegan_dish_once` has returned. -/
theorem accounted_iff (h : (oneShot ι n).Reachable s) (hq : s.Quiet) :
    s.Accounted ↔ ∀ r ∈ s.returned, r.1 ≠ .addNonvegan := by
  have hf := fresh_reachable h
  have hent : s.Entered ↔ ∃ r ∈ s.returned, r.1 = .addNonvegan := by
    refine or_iff_right ?_
    rintro ⟨i, stage, hi, hne⟩
    exact hne (hq i _ stage hi)
  constructor
  · intro hacc r hr hc
    -- there is a dish that `non_full` does not count
    have hocc : 0 < (s.data .nonvegan).occupied := by
      refine (hf.used (hent.2 ⟨r, hr, hc⟩)).2.resolve_right ?_
      rintro ⟨i, stage, hi, hearly⟩
      rw [hq i _ stage hi] at hearly; cases hearly
    have := (hacc.1 .nonvegan).1
    rw [hf.full] at this; omega
  · intro hno
    have hfresh := hf.fresh fun he => by
      obtain ⟨r, hr, hc⟩ := hent.1 he
      exact hno r hr hc
    refine ⟨fun a => ?_, fun r hr => ?_⟩
    · cases a with
      | vegan => exact vegan_accounted h hq
      | nonvegan => rw [hfresh]; simp [initSharedMemory, Tray.occupied]
    · refine (vegan_reachable h).success r hr ?_
      cases hc : r.1 with
      | addNonvegan => exact absurd hc (hno r hr)
      | eatNonvegan => exact absurd hc (hf.noEaten r hr)
      | _ => rfl

/-- One process calls `add_vegan_dish_once`, the other `eat_vegan_once`. -/
def veganCalls : List (Turn (Fin 2)) :=
  [.call first .addVegan, .call second .eatVegan] ++ .replicate 5 (.go first) ++ .replicate 5 (.go second)

theorem accounted_iff_vegan :
    ((oneShot (Fin 2) 1).after Sync.Trans.Free veganCalls).Accounted ↔
      ∀ r ∈ ((oneShot (Fin 2) 1).after Sync.Trans.Free veganCalls).returned, r.1 ≠ .addNonvegan :=
  accounted_iff (Sync.Trans.reach_after veganCalls) (by
    have : ∀ i, ((oneShot (Fin 2) 1).after Sync.Trans.Free veganCalls).running i = none := by decide +kernel
    intro i c stage hi
    rw [this i] at hi; cases hi)

/-- One call of `add_nonvegan_dish_once` on a tray of ten slots. -/
def nonveganCall : List (Turn (Fin 1)) := .call 0 .addNonvegan :: .replicate 5 (.go 0)

/-- **A dish that `non_full` does not count.** -/
theorem add_nonvegan_posts_empty : ¬ ∀ (k n : ℕ) (s : Session (Fin k) n), (oneShot (Fin k) n).Reachable s →
    s.Quiet → s.Accounted := by
  intro h
  have hrun : ∀ i, ((oneShot (Fin 1) 10).after Sync.Trans.Free nonveganCall).running i = none := by decide +kernel
  have hacc := h 1 10 _ (Sync.Trans.reach_after nonveganCall) fun i c stage hi => by rw [hrun i] at hi; cases hi
  have hfull : (((oneShot (Fin 1) 10).after Sync.Trans.Free nonveganCall).data .nonvegan).full = 0 := by decide +kernel
  have hempty : (((oneShot (Fin 1) 10).after Sync.Trans.Free nonveganCall).data .nonvegan).empty = 10 := by
    decide +kernel
  have hslot : (((oneShot (Fin 1) 10).after Sync.Trans.Free nonveganCall).data .nonvegan).slots 0 ≠ .EMPTY := by
    decide +kernel
  have := Tray.occupied_pos hslot
  have := (hacc.1 .nonvegan).1
  omega

end Restaurant
