import LinuxExercises.Proof.OneShot

/-!
# What the one-shot functions come to

* `Ledger`: the dishes on the vegan tray are those of the calls that have exchanged their slot.
* `rests_waits`: where no call on the vegan tray can go on, all wait for a token.
* `vegan_outcome`: how many calls have returned then depends on how many have been made, and on
  nothing else.
* `Session.Fills`, `nonvegan_outcome`: the other tray fills up, and no call of
  `add_nonvegan_dish_once` waits for ever.
-/

namespace Restaurant

open Sync

variable {ι : Type*} [DecidableEq ι] [Fintype ι] {n : ℕ} {s s' : Session ι n} {i : ι} {c : Call} {stage : Stage}

/-- The process is in a call of `c`. -/
def calling (c : Call) : Option (Call × Stage) → ℕ
  | some (c', _) => if c' = c then 1 else 0
  | none => 0

/-- The process is in a call of `c` that has exchanged its slot. -/
def served (c : Call) : Option (Call × Stage) → ℕ
  | some (c', .postMutex _) | some (c', .postToken _) => if c' = c then 1 else 0
  | _ => 0

/-- The calls of `c` that have returned. -/
def Session.back (s : Session ι n) (c : Call) : ℕ := s.returned.countP fun r => r.1 = c

/-- The calls of `c` that have been made. -/
def Session.made (s : Session ι n) (c : Call) : ℕ := s.back c + total (calling c) s.running

/-- The calls of `c` that have exchanged their slot. -/
def Session.moved (s : Session ι n) (c : Call) : ℕ := s.back c + total (served c) s.running

/-! ## The dishes on the tray -/

/-- **The dishes on the vegan tray.** -/
def Session.Ledger (s : Session ι n) : Prop := s.moved .addVegan = (s.data .vegan).occupied + s.moved .eatVegan

/-- **What a step of a call does to the tray**: it exchanges a slot, or leaves all slots. -/
theorem act_occupied (hc : c = .addVegan ∨ c = .eatVegan) {t t' : Tray n} {r : Stage ⊕ Bool}
    (ha : c.visit.act t stage = some (t', r)) (hk : ∀ k, stage = .scan k → k < n) :
    (∀ stage', r = .inl stage' →
      t'.occupied + served .eatVegan (some (c, stage')) + served .addVegan (some (c, stage)) =
        t.occupied + served .addVegan (some (c, stage')) + served .eatVegan (some (c, stage))) ∧
    ∀ b, r = .inr b → t'.occupied = t.occupied ∧ ∃ b', stage = .postToken b' := by
  cases stage with
  | waitToken =>
    simp only [Visit.act] at ha
    split at ha
    · obtain ⟨rfl, rfl⟩ := Prod.mk.inj (Option.some.inj ha)
      refine ⟨?_, by simp⟩
      rintro _ ⟨⟩
      simp [served]
    · cases ha
  | waitMutex =>
    simp only [Visit.act] at ha
    split at ha
    · obtain ⟨rfl, rfl⟩ := Prod.mk.inj (Option.some.inj ha)
      refine ⟨?_, by simp⟩
      rintro _ ⟨⟩
      simp [served, Tray.occupied]
    · cases ha
  | scan k =>
    have hk := hk k rfl
    simp only [Visit.act, dif_pos hk] at ha
    split at ha
    · -- the slot that is found is exchanged
      rename_i hhit
      obtain ⟨rfl, rfl⟩ := Prod.mk.inj (Option.some.inj ha)
      have hwrite := t.occupied_write ⟨k, hk⟩ c.visit.puts
      rw [hhit] at hwrite
      refine ⟨?_, by simp⟩
      rintro _ ⟨⟩
      rcases hc with rfl | rfl
      · simp [Call.visit, addVeganDishOnce, dish] at hwrite
        simp [served, Call.visit, addVeganDishOnce, hwrite]
      · simp [Call.visit, eatVeganOnce, dish] at hwrite
        simp [served, Call.visit, eatVeganOnce]
        omega
    · obtain ⟨rfl, rfl⟩ := Prod.mk.inj (Option.some.inj ha)
      refine ⟨?_, by simp⟩
      rintro _ ⟨⟩
      simp [served]
  | postMutex b =>
    obtain ⟨rfl, rfl⟩ := Prod.mk.inj (Option.some.inj ha)
    refine ⟨?_, by simp⟩
    rintro _ ⟨⟩
    simp only [served, Tray.occupied]
    omega
  | postToken b =>
    obtain ⟨rfl, rfl⟩ := Prod.mk.inj (Option.some.inj ha)
    exact ⟨by simp, fun _ _ => ⟨by simp, b, rfl⟩⟩

omit [DecidableEq ι] [Fintype ι] in
/-- The process in a call on the vegan tray, as a process of the restaurant. -/
theorem Vegan.proc_eq (hr : s.running i = some (c, stage)) (hc : c.visit.side = .vegan) :
    s.veganPart.proc i = ⟨c.visit, [], stage⟩ := by
  simp only [Session.veganPart, hr, veganProc, hc, if_true]

/-- A call that scans the tray has not come to its end. -/
theorem Vegan.scan_lt (h : Vegan s) {k : ℕ} (hr : s.running i = some (c, .scan k)) (hc : c.visit.side = .vegan) :
    k < n := by
  have hstage : (s.veganPart.proc i).stage = .scan k := by rw [Vegan.proc_eq hr hc]
  obtain ⟨j, hj, -⟩ := h.inv.ahead hstage
  exact lt_of_le_of_lt hj j.2

theorem Call.vegan (hc : c.visit.side = .vegan) : c = .addVegan ∨ c = .eatVegan := by
  cases c
  · exact .inl rfl
  · cases hc
  · exact .inr rfl
  · cases hc

/-- A call on the other tray is another call. -/
theorem Call.ne_vegan (hc : c.visit.side = .nonvegan) {c' : Call} (hc' : c' = .addVegan ∨ c' = .eatVegan) : c ≠ c' := by
  rintro rfl
  rcases hc' with rfl | rfl <;> cases hc

/-- It does not count. -/
theorem served_nonvegan (hc : c.visit.side = .nonvegan) {c' : Call} (hc' : c' = .addVegan ∨ c' = .eatVegan) :
    served c' (some (c, stage)) = 0 := by
  have hne := Call.ne_vegan hc hc'
  cases stage <;> simp [served, hne]

/-- **Every step keeps the ledger.** -/
theorem Session.Ledger.step (h : s.Ledger) (hV : Vegan s) (hs : Acts s i s') : s'.Ledger := by
  unfold Session.Ledger Session.moved at h ⊢
  cases hs with
  | call c hr =>
    have hadd := total_update (w := served .addVegan) (f := s.running) i (some (c, .waitToken))
    have heat := total_update (w := served .eatVegan) (f := s.running) i (some (c, .waitToken))
    rw [hr] at hadd heat
    simp only [served] at hadd heat
    simp only [Session.back] at h ⊢
    omega
  | go c stage stage' t hr ha =>
    have hadd := total_update (w := served .addVegan) (f := s.running) i (some (c, stage'))
    have heat := total_update (w := served .eatVegan) (f := s.running) i (some (c, stage'))
    rw [hr] at hadd heat
    simp only [Session.back] at h ⊢
    cases hc : c.visit.side with
    | vegan =>
      rw [hc] at ha
      have hact := (act_occupied (Call.vegan hc) ha fun k hk => hV.scan_lt (hk ▸ hr) hc).1 stage' rfl
      rw [Function.update_self]
      omega
    | nonvegan =>
      rw [Function.update_of_ne (by simp : Side.vegan ≠ .nonvegan)]
      rw [served_nonvegan hc (.inl rfl), served_nonvegan hc (.inl rfl)] at hadd
      rw [served_nonvegan hc (.inr rfl), served_nonvegan hc (.inr rfl)] at heat
      omega
  | ret c stage b t hr ha =>
    have hadd := total_update (w := served .addVegan) (f := s.running) i none
    have heat := total_update (w := served .eatVegan) (f := s.running) i none
    rw [hr] at hadd heat
    simp only [Session.back, List.countP_cons] at h ⊢
    cases hc : c.visit.side with
    | vegan =>
      rw [hc] at ha
      obtain ⟨hocc, b', rfl⟩ := (act_occupied (Call.vegan hc) ha fun k hk => hV.scan_lt (hk ▸ hr) hc).2 b rfl
      rw [Function.update_self, hocc]
      rcases Call.vegan hc with rfl | rfl <;> simp [served] at hadd heat ⊢ <;> omega
    | nonvegan =>
      rw [Function.update_of_ne (by simp : Side.vegan ≠ .nonvegan)]
      rw [served_nonvegan hc (.inl rfl)] at hadd
      rw [served_nonvegan hc (.inr rfl)] at heat
      simp only [Call.ne_vegan hc (.inl rfl), Call.ne_vegan hc (.inr rfl), decide_false, served] at hadd heat ⊢
      simp
      omega

theorem ledger_reachable (h : (oneShot ι n).Reachable s) : s.Ledger := by
  refine h.inv (I := Session.Ledger) ?_ fun x l x' hx hi _ hs => ?_
  · simp [Session.Ledger, Session.moved, Session.back, oneShot, initSharedMemory, Tray.occupied, total, served]
  · obtain ⟨i, hs⟩ := step_acts hs
    exact hi.step (vegan_reachable hx) hs

/-! ## Where no call can go on -/

/-- No call on the tray can go on. -/
def Session.Rests (s : Session ι n) (a : Side) : Prop :=
  ∀ i c stage, s.running i = some (c, stage) → c.visit.side = a → s.step (.go i) = none

omit [Fintype ι] in
/-- A call is only ever stopped by a semaphore. -/
theorem stopped_at (hr : s.running i = some (c, stage)) (h : s.step (.go i) = none) :
    (stage = .waitToken ∧ (s.data c.visit.side).sem c.visit.takes = 0) ∨
      (stage = .waitMutex ∧ (s.data c.visit.side).mutex = 0) := by
  have hact : c.visit.act (s.data c.visit.side) stage = none := by
    cases ha : c.visit.act (s.data c.visit.side) stage with
    | none => rfl
    | some x =>
      obtain ⟨t, r⟩ := x
      cases r <;> simp [Session.step, hr, ha] at h
  cases stage with
  | waitToken =>
    simp only [Visit.act] at hact
    split at hact
    · cases hact
    · exact .inl ⟨rfl, by omega⟩
  | waitMutex =>
    simp only [Visit.act] at hact
    split at hact
    · cases hact
    · exact .inr ⟨rfl, by omega⟩
  | scan k =>
    simp only [Visit.act] at hact
    split at hact
    · split at hact <;> cases hact
    · cases hact
  | postMutex b => cases hact
  | postToken b => cases hact

/-- **At rest every call on the tray waits for a token**, and the semaphores account for the slots. -/
theorem rests_waits (hV : Vegan s) (h : s.Rests .vegan) :
    (∀ i c stage, s.running i = some (c, stage) → c.visit.side = .vegan →
      stage = .waitToken ∧ (s.data .vegan).sem c.visit.takes = 0) ∧
    (s.data .vegan).full = (s.data .vegan).occupied ∧ (s.data .vegan).empty + (s.data .vegan).occupied = n := by
  have hstop (i : ι) (c : Call) (stage : Stage) (hr : s.running i = some (c, stage)) (hc : c.visit.side = .vegan) :=
    stopped_at hr (h i c stage hr hc)
  -- nobody scans, so the mutex is free
  have hscan (i : ι) : scanning .vegan (s.veganPart.proc i) = 0 := by
    cases hr : s.running i with
    | none => simp [Session.veganPart, hr, veganProc, idle, scanning]
    | some x =>
      by_cases hc : x.1.visit.side = .vegan
      · have hproc : s.veganPart.proc i = ⟨x.1.visit, [], x.2⟩ := Vegan.proc_eq hr hc
        rw [hproc]
        rcases hstop i x.1 x.2 hr hc with ⟨hst, -⟩ | ⟨hst, -⟩ <;> simp [scanning, hst]
      · simp [Session.veganPart, hr, veganProc, hc, idle, scanning]
  have hmutex := hV.inv.mutex .vegan
  rw [total_zero hscan] at hmutex
  have hmutex : (s.data .vegan).mutex = 1 := hmutex
  have hwait (i : ι) (c : Call) (stage : Stage) (hr : s.running i = some (c, stage)) (hc : c.visit.side = .vegan) :
      stage = .waitToken ∧ (s.data .vegan).sem c.visit.takes = 0 := by
    rcases hstop i c stage hr hc with hw | ⟨-, hm⟩
    · rw [hc] at hw
      exact hw
    · rw [hc, hmutex] at hm
      cases hm
  have hz (i : ι) := weights_zero (a := .vegan) (p := s.veganPart.proc i) fun _ => by
    show (veganProc (s.running i)).stage = _
    unfold veganProc
    cases hr : s.running i with
    | none => rfl
    | some x =>
      by_cases hx : x.1.visit.side = .vegan
      · simp [hx, (hwait i x.1 x.2 hr hx).1]
      · simp [hx, idle]
  have htokens := hV.inv.tokens .vegan
  have hdishes := hV.inv.dishes .vegan
  rw [total_zero fun i => (hz i).2.1] at htokens
  rw [total_zero fun i => (hz i).2.2] at hdishes
  simp only [Session.veganPart] at htokens hdishes
  exact ⟨hwait, by omega, by omega⟩

omit [DecidableEq ι] in
/-- Some process is in a call of `c`, or none is. -/
theorem calling_cases (s : Session ι n) (c : Call) :
    total (calling c) s.running = 0 ∨ ∃ i stage, s.running i = some (c, stage) := by
  by_cases h : ∃ i stage, s.running i = some (c, stage)
  · exact .inr h
  · refine .inl (total_zero fun i => ?_)
    cases hr : s.running i with
    | none => rfl
    | some x =>
      have hne : x.1 ≠ c := by
        rintro rfl
        exact h ⟨i, x.2, hr⟩
      simp [calling, hne]

/-- **The outcome**: whatever the schedule, where no call on the vegan tray can go on, as many calls
of `eat_vegan_once` have returned as there are dishes and callers, and as many calls of
`add_vegan_dish_once` as there are callers and slots; the others are at their first `sem_wait`, and
its semaphore is 0. -/
theorem vegan_outcome (hn : 1 ≤ n) (h : (oneShot ι n).Reachable s) (hrest : s.Rests .vegan) :
    s.back .eatVegan = min (s.made .eatVegan) (s.made .addVegan) ∧
    s.back .addVegan = min (s.made .addVegan) (s.made .eatVegan + n) ∧
    s.back .addVegan = (s.data .vegan).occupied + s.back .eatVegan ∧
    ∀ i c stage, s.running i = some (c, stage) → c.visit.side = .vegan →
      stage = .waitToken ∧ (s.data .vegan).sem c.visit.takes = 0 := by
  have hV := vegan_reachable h
  obtain ⟨hwait, hfull, hempty⟩ := rests_waits hV hrest
  suffices hcount : s.back .eatVegan = min (s.made .eatVegan) (s.made .addVegan) ∧
      s.back .addVegan = min (s.made .addVegan) (s.made .eatVegan + n) ∧
      s.back .addVegan = (s.data .vegan).occupied + s.back .eatVegan from
    ⟨hcount.1, hcount.2.1, hcount.2.2, hwait⟩
  -- nobody is between its exchange and its return
  have hserved (c : Call) (hc : c.visit.side = .vegan) : total (served c) s.running = 0 := by
    refine total_zero fun i => ?_
    cases hr : s.running i with
    | none => rfl
    | some x =>
      obtain ⟨c', stage⟩ := x
      by_cases hcc : c' = c
      · subst hcc
        rw [(hwait i c' stage hr hc).1]
        rfl
      · cases stage <;> simp [served, hcc]
  have hledger := ledger_reachable h
  unfold Session.Ledger Session.moved at hledger
  rw [hserved .addVegan rfl, hserved .eatVegan rfl] at hledger
  -- who waits finds the tray full, or empty
  have hadd : total (calling .addVegan) s.running = 0 ∨ (s.data .vegan).empty = 0 := by
    rcases calling_cases s .addVegan with hz | ⟨i, stage, hr⟩
    · exact .inl hz
    · exact .inr (hwait i _ stage hr rfl).2
  have heat : total (calling .eatVegan) s.running = 0 ∨ (s.data .vegan).full = 0 := by
    rcases calling_cases s .eatVegan with hz | ⟨i, stage, hr⟩
    · exact .inl hz
    · exact .inr (hwait i _ stage hr rfl).2
  have hle := (s.data .vegan).occupied_le
  unfold Session.made
  omega

/-- Two calls of `add_vegan_dish_once` for one slot: one returns, the other waits. -/
def oneSlot : List (Turn (Fin 2)) :=
  [.call first .addVegan, .call second .addVegan] ++ .replicate 5 (.go first)

theorem vegan_outcome_two :
    ((oneShot (Fin 2) 1).after Sync.Trans.Free oneSlot).made .addVegan = 2 ∧
    ((oneShot (Fin 2) 1).after Sync.Trans.Free oneSlot).back .addVegan =
      min (((oneShot (Fin 2) 1).after Sync.Trans.Free oneSlot).made .addVegan)
        (((oneShot (Fin 2) 1).after Sync.Trans.Free oneSlot).made .eatVegan + 1) ∧
    (((oneShot (Fin 2) 1).after Sync.Trans.Free oneSlot).data .vegan).empty = 0 := by
  have hrest : ((oneShot (Fin 2) 1).after Sync.Trans.Free oneSlot).Rests .vegan := by
    have hnone : ∀ i, (((oneShot (Fin 2) 1).after Sync.Trans.Free oneSlot).step (.go i)).isNone = true := by
      decide +kernel
    exact fun i _ _ _ _ => Option.isNone_iff_eq_none.1 (hnone i)
  obtain ⟨-, hadd, -, hwait⟩ := vegan_outcome (by decide) (Sync.Trans.reach_after oneSlot) hrest
  exact ⟨by decide +kernel, hadd, (hwait second .addVegan .waitToken (by decide +kernel) rfl).2⟩

/-! ## The other tray -/

/-- A call of `add_nonvegan_dish_once` holds the mutex. -/
def locks : Option (Call × Stage) → ℕ
  | some (.addNonvegan, .scan _) | some (.addNonvegan, .postMutex _) => 1
  | _ => 0

/-- It has taken a token. -/
def tokens : Option (Call × Stage) → ℕ
  | some (.addNonvegan, .waitToken) => 0
  | some (.addNonvegan, _) => 1
  | _ => 0

/-- It has put a dish on the tray. -/
def puts : Option (Call × Stage) → ℕ
  | some (.addNonvegan, .postMutex true) | some (.addNonvegan, .postToken true) => 1
  | _ => 0

/-- It has found no slot. -/
def misses : Option (Call × Stage) → ℕ
  | some (.addNonvegan, .postMutex false) | some (.addNonvegan, .postToken false) => 1
  | _ => 0

/-- The calls of `add_nonvegan_dish_once` that have returned 1. -/
def Session.filled (s : Session ι n) : ℕ := s.returned.countP fun r => r = (.addNonvegan, true)

/-- Those that have returned 0. -/
def Session.refused (s : Session ι n) : ℕ := s.returned.countP fun r => r = (.addNonvegan, false)

/-- **The other tray fills up**, its tokens come back, and a call finds no slot only on a full tray. -/
structure Session.Fills (s : Session ι n) : Prop where
  mutex : (s.data .nonvegan).mutex + total locks s.running = 1
  empty : (s.data .nonvegan).empty + total tokens s.running = n
  slots : (s.data .nonvegan).occupied = s.filled + total puts s.running
  looked : ∀ i k, s.running i = some (.addNonvegan, .scan k) → ∀ j : Fin n, j.1 < k → (s.data .nonvegan).slots j ≠ .EMPTY
  missed : 0 < s.refused + total misses s.running → (s.data .nonvegan).occupied = n

/-- Where a call of `add_nonvegan_dish_once` goes on: nowhere once it has returned. -/
def goesOn : Stage ⊕ Bool → Option (Call × Stage)
  | .inl stage => some (.addNonvegan, stage)
  | .inr _ => none

/-- It has returned 1. -/
def succeeds : Stage ⊕ Bool → ℕ
  | .inr true => 1
  | _ => 0

/-- It has returned 0. -/
def fails : Stage ⊕ Bool → ℕ
  | .inr false => 1
  | _ => 0

/-- A tray without an `EMPTY` slot is full. -/
theorem Tray.occupied_full {t : Tray n} (h : ∀ j, t.slots j ≠ .EMPTY) : t.occupied = n := by
  by_contra hne
  obtain ⟨k, hk⟩ := t.exists_empty (lt_of_le_of_ne t.occupied_le hne)
  exact h k hk

/-- **What a step of `add_nonvegan_dish_once` does to the tray.** -/
theorem add_act {t t' : Tray n} {r : Stage ⊕ Bool} (ha : addNonveganDishOnce.act t stage = some (t', r))
    (hlook : ∀ k, stage = .scan k → ∀ j : Fin n, j.1 < k → t.slots j ≠ .EMPTY) :
    t'.mutex + locks (goesOn r) = t.mutex + locks (some (.addNonvegan, stage)) ∧
    t'.empty + tokens (goesOn r) = t.empty + tokens (some (.addNonvegan, stage)) ∧
    t'.occupied + puts (some (.addNonvegan, stage)) = t.occupied + puts (goesOn r) + succeeds r ∧
    (fails r + misses (goesOn r) = misses (some (.addNonvegan, stage)) ∨ t.occupied = n) ∧
    (∀ j, t.slots j ≠ .EMPTY → t'.slots j ≠ .EMPTY) ∧
    ∀ k, r = .inl (.scan k) → ∀ j : Fin n, j.1 < k → t'.slots j ≠ .EMPTY := by
  cases stage with
  | waitToken =>
    simp only [Visit.act] at ha
    split at ha
    · rename_i hpos
      obtain ⟨rfl, rfl⟩ := Prod.mk.inj (Option.some.inj ha)
      have hpos : 0 < t.empty := hpos
      have hempty : t.empty - 1 + 1 = t.empty := by omega
      exact ⟨rfl, hempty, rfl, .inl rfl, fun _ h => h, by simp⟩
    · cases ha
  | waitMutex =>
    simp only [Visit.act] at ha
    split at ha
    · rename_i hpos
      obtain ⟨rfl, rfl⟩ := Prod.mk.inj (Option.some.inj ha)
      have hmutex : t.mutex - 1 + 1 = t.mutex := by omega
      refine ⟨hmutex, rfl, rfl, .inl rfl, fun _ h => h, ?_⟩
      rintro k ⟨⟩ j hj
      omega
    · cases ha
  | scan k =>
    simp only [Visit.act] at ha
    split at ha
    · rename_i hk
      split at ha
      · -- the slot that is found is filled
        rename_i hhit
        obtain ⟨rfl, rfl⟩ := Prod.mk.inj (Option.some.inj ha)
        have hwrite := t.occupied_write ⟨k, hk⟩ addNonveganDishOnce.puts
        rw [hhit] at hwrite
        refine ⟨rfl, rfl, hwrite, .inl rfl, fun j hj => ?_, by simp⟩
        by_cases hjk : j = ⟨k, hk⟩
        · subst hjk
          simp [Tray.write, addNonveganDishOnce]
        · show Function.update t.slots ⟨k, hk⟩ _ j ≠ .EMPTY
          rwa [Function.update_of_ne hjk]
      · rename_i hmiss
        obtain ⟨rfl, rfl⟩ := Prod.mk.inj (Option.some.inj ha)
        refine ⟨rfl, rfl, rfl, .inl rfl, fun _ h => h, ?_⟩
        rintro _ ⟨⟩ j hj
        rcases Nat.lt_succ_iff_lt_or_eq.1 hj with hj | rfl
        · exact hlook k rfl j hj
        · exact hmiss
    · -- every slot has been looked at
      rename_i hk
      obtain ⟨rfl, rfl⟩ := Prod.mk.inj (Option.some.inj ha)
      have hfull : t.occupied = n := t.occupied_full fun j => hlook k rfl j (by omega)
      exact ⟨rfl, rfl, rfl, .inr hfull, fun _ h => h, by simp⟩
  | postMutex b =>
    obtain ⟨rfl, rfl⟩ := Prod.mk.inj (Option.some.inj ha)
    cases b
    · exact ⟨rfl, rfl, rfl, .inl rfl, fun _ h => h, by simp⟩
    · exact ⟨rfl, rfl, rfl, .inl rfl, fun _ h => h, by simp⟩
  | postToken b =>
    obtain ⟨rfl, rfl⟩ := Prod.mk.inj (Option.some.inj ha)
    cases b
    · exact ⟨rfl, rfl, rfl, .inl rfl, fun _ h => h, by simp⟩
    · exact ⟨rfl, rfl, rfl, .inl rfl, fun _ h => h, by simp⟩

/-- A step of `add_nonvegan_dish_once`. -/
theorem Session.Fills.adder (h : s.Fills) {t : Tray n} {r : Stage ⊕ Bool}
    (hr : s.running i = some (.addNonvegan, stage)) (ha : addNonveganDishOnce.act (s.data .nonvegan) stage = some (t, r))
    (hd : s'.data .nonvegan = t) (hrun : s'.running = Function.update s.running i (goesOn r))
    (hfilled : s'.filled = s.filled + succeeds r) (hrefused : s'.refused = s.refused + fails r) : s'.Fills := by
  obtain ⟨hmutex, hempty, hocc, hmiss, hkeep, hlook⟩ := add_act ha fun k hk => h.looked i k (hk ▸ hr)
  have hl := total_update (w := locks) (f := s.running) i (goesOn r)
  have ht := total_update (w := tokens) (f := s.running) i (goesOn r)
  have hp := total_update (w := puts) (f := s.running) i (goesOn r)
  have hm := total_update (w := misses) (f := s.running) i (goesOn r)
  rw [hr, ← hrun] at hl ht hp hm
  have hm0 := h.mutex
  have he0 := h.empty
  have hs0 := h.slots
  refine ⟨by rw [hd]; omega, by rw [hd]; omega, by rw [hd]; omega, fun j k hj => ?_, fun hpos => ?_⟩
  · rw [hd]
    rw [hrun] at hj
    by_cases hji : j = i
    · rw [hji, Function.update_self] at hj
      refine hlook k ?_
      cases r with
      | inl stage' => cases hj; rfl
      | inr b => cases hj
    · rw [Function.update_of_ne hji] at hj
      exact fun m hm => hkeep m (h.looked j k hj m hm)
  · -- a full tray stays full
    have hfull : (s.data .nonvegan).occupied = n := by
      rcases hmiss with hmiss | hfull
      · exact h.missed (by omega)
      · exact hfull
    have hle := t.occupied_le
    rw [hd]
    have hgrow : (s.data .nonvegan).occupied ≤ t.occupied := Finset.card_le_card fun j hj => by
      simp only [Finset.mem_filter, Finset.mem_univ, true_and] at hj ⊢
      exact hkeep j hj
    omega

/-- The call is not one of `add_nonvegan_dish_once` past its first `sem_wait`. -/
def Apart (x : Option (Call × Stage)) : Prop := ∀ stage, x = some (.addNonvegan, stage) → stage = .waitToken

/-- Such a call has no weight. -/
theorem Apart.weights {x : Option (Call × Stage)} (h : Apart x) : locks x = 0 ∧ tokens x = 0 ∧ puts x = 0 ∧ misses x = 0 := by
  rcases x with _ | ⟨c, stage⟩
  · exact ⟨rfl, rfl, rfl, rfl⟩
  · cases c with
    | addNonvegan =>
      rw [h stage rfl]
      exact ⟨rfl, rfl, rfl, rfl⟩
    | _ => exact ⟨rfl, rfl, rfl, rfl⟩

/-- A step of another call. -/
theorem Session.Fills.bystander (h : s.Fills) {x : Option (Call × Stage)} (hd : s'.data .nonvegan = s.data .nonvegan)
    (hrun : s'.running = Function.update s.running i x) (hold : Apart (s.running i)) (hx : Apart x)
    (hfilled : s'.filled = s.filled) (hrefused : s'.refused = s.refused) : s'.Fills := by
  obtain ⟨hl1, ht1, hp1, hm1⟩ := hold.weights
  obtain ⟨hl2, ht2, hp2, hm2⟩ := hx.weights
  have hl := total_update (w := locks) (f := s.running) i x
  have ht := total_update (w := tokens) (f := s.running) i x
  have hp := total_update (w := puts) (f := s.running) i x
  have hm := total_update (w := misses) (f := s.running) i x
  rw [← hrun] at hl ht hp hm
  have hm0 := h.mutex
  have he0 := h.empty
  have hs0 := h.slots
  refine ⟨by rw [hd]; omega, by rw [hd]; omega, by rw [hd]; omega, fun j k hj => ?_, fun hpos => ?_⟩
  · rw [hd]
    rw [hrun] at hj
    by_cases hji : j = i
    · rw [hji, Function.update_self] at hj
      cases hx _ hj
    · rw [Function.update_of_ne hji] at hj
      exact h.looked j k hj
  · rw [hd]
    exact h.missed (by omega)

/-- **Every step fills the tray further.** -/
theorem Session.Fills.step (h : s.Fills) (hf : Fresh s) (hs : Acts s i s') : s'.Fills := by
  cases hs with
  | call c hr =>
    refine h.bystander rfl rfl ?_ ?_ rfl rfl
    · intro stage hs
      rw [hr] at hs
      cases hs
    · rintro stage ⟨⟩
      rfl
  | go c stage stage' t hr ha =>
    cases c with
    | addNonvegan =>
      have htray : Function.update s.data .nonvegan t .nonvegan = t := Function.update_self _ _ _
      exact h.adder hr ha htray rfl rfl rfl
    | eatNonvegan =>
      -- nobody gets past the first `sem_wait`
      rw [hf.noEat i stage hr] at ha
      simp [Visit.act, Call.visit, eatNonveganOnce, Tray.sem, hf.full] at ha
    | _ =>
      refine h.bystander (i := i) (x := some (_, stage')) (by simp [Call.visit, addVeganDishOnce, eatVeganOnce]) rfl ?_ ?_
        rfl rfl
      · intro stage hs
        rw [hr] at hs
        cases hs
      · rintro stage ⟨⟩
  | ret c stage b t hr ha =>
    cases c with
    | addNonvegan =>
      have htray : Function.update s.data .nonvegan t .nonvegan = t := Function.update_self _ _ _
      refine h.adder hr ha htray rfl ?_ ?_
      · cases b <;> simp [Session.filled, succeeds]
      · cases b <;> simp [Session.refused, fails]
    | eatNonvegan =>
      rw [hf.noEat i stage hr] at ha
      simp [Visit.act, Call.visit, eatNonveganOnce, Tray.sem, hf.full] at ha
    | _ =>
      refine h.bystander (i := i) (x := none) (by simp [Call.visit, addVeganDishOnce, eatVeganOnce]) rfl ?_ (by rintro stage ⟨⟩)
        (by simp [Session.filled]) (by simp [Session.refused])
      intro stage hs
      rw [hr] at hs
      cases hs

theorem fills_reachable (h : (oneShot ι n).Reachable s) : s.Fills := by
  refine h.inv (I := Session.Fills) ⟨?_, ?_, ?_, fun _ _ h => (by cases h), ?_⟩ fun x l x' hx hi _ hs => ?_
  · simp [oneShot, initSharedMemory, total, locks]
  · simp [oneShot, initSharedMemory, total, tokens]
  · simp [oneShot, initSharedMemory, Session.filled, Tray.occupied, total, puts]
  · simp [oneShot, Session.refused, total, misses]
  · obtain ⟨i, hs⟩ := step_acts hs
    exact hi.step (fresh_reachable hx) hs

/-- **At rest no call of `add_nonvegan_dish_once` is left**: its tokens have all come back. -/
theorem rests_added (hn : 1 ≤ n) (h : s.Fills) (hrest : s.Rests .nonvegan) (stage : Stage) :
    s.running i ≠ some (.addNonvegan, stage) := by
  have hstop (i : ι) (stage : Stage) (hr : s.running i = some (.addNonvegan, stage)) :=
    stopped_at hr (hrest i _ stage hr rfl)
  -- nobody holds the mutex, so nobody waits for it
  have hlocks : total locks s.running = 0 := by
    refine total_zero fun i => ?_
    rcases hr : s.running i with _ | ⟨c, stage⟩
    · rfl
    · cases c with
      | addNonvegan => rcases hstop i stage hr with ⟨rfl, -⟩ | ⟨rfl, -⟩ <;> rfl
      | _ => rfl
  have hmutex := h.mutex
  have hwait (i : ι) (stage : Stage) (hr : s.running i = some (.addNonvegan, stage)) :
      stage = .waitToken ∧ (s.data .nonvegan).empty = 0 := by
    rcases hstop i stage hr with hw | ⟨-, hm⟩
    · exact hw
    · have hm : (s.data .nonvegan).mutex = 0 := hm
      omega
  have htokens : total tokens s.running = 0 :=
    total_zero fun i => (Apart.weights fun stage hr => (hwait i stage hr).1).2.1
  have hempty := h.empty
  intro hr
  have hzero := (hwait i stage hr).2
  omega

/-- **The outcome on the other tray**: whatever the schedule, where no call on it can go on, no call
of `eat_nonvegan_once` has returned, all calls of `add_nonvegan_dish_once` have, and as many of them
have returned 1 as there are slots for; the tray holds their dishes. -/
theorem nonvegan_outcome (hn : 1 ≤ n) (h : (oneShot ι n).Reachable s) (hrest : s.Rests .nonvegan) :
    s.back .eatNonvegan = 0 ∧ s.back .addNonvegan = s.made .addNonvegan ∧
    s.filled = min (s.made .addNonvegan) n ∧ (s.data .nonvegan).occupied = s.filled := by
  have hF := fills_reachable h
  have hnone (i : ι) (stage : Stage) := rests_added (i := i) hn hF hrest stage
  have heaten : s.back .eatNonvegan = 0 :=
    List.countP_eq_zero.2 fun r hr => by simpa using (fresh_reachable h).noEaten r hr
  have hcalls : total (calling .addNonvegan) s.running = 0 := by
    rcases calling_cases s .addNonvegan with hz | ⟨i, stage, hr⟩
    · exact hz
    · exact absurd hr (hnone i stage)
  have hw (i : ι) := Apart.weights (x := s.running i) fun stage hr => absurd hr (hnone i stage)
  have hslots := hF.slots
  rw [total_zero fun i => (hw i).2.2.1] at hslots
  have hmissed := hF.missed
  rw [total_zero fun i => (hw i).2.2.2] at hmissed
  -- a call returns 1 or 0
  have hback : s.back .addNonvegan = s.filled + s.refused := by
    unfold Session.back Session.filled Session.refused
    induction s.returned with
    | nil => rfl
    | cons r rs ih =>
      obtain ⟨c, b⟩ := r
      simp only [List.countP_cons]
      cases c <;> cases b <;> simp <;> omega
  have hle := (s.data .nonvegan).occupied_le
  refine ⟨heaten, ?_, ?_, by omega⟩
  · unfold Session.made
    omega
  · unfold Session.made
    by_cases hpos : 0 < s.refused
    · have hfull := hmissed (by omega)
      omega
    · omega

/-- Two calls of `add_nonvegan_dish_once` for one slot: both return, the second with 0. -/
def oneSlotNon : List (Turn (Fin 2)) :=
  [.call first .addNonvegan, .call second .addNonvegan] ++ .replicate 5 (.go first) ++ .replicate 6 (.go second)

theorem nonvegan_outcome_two :
    ((oneShot (Fin 2) 1).after Sync.Trans.Free oneSlotNon).made .addNonvegan = 2 ∧
    ((oneShot (Fin 2) 1).after Sync.Trans.Free oneSlotNon).filled =
      min (((oneShot (Fin 2) 1).after Sync.Trans.Free oneSlotNon).made .addNonvegan) 1 := by
  refine ⟨by decide +kernel, (nonvegan_outcome (by decide) (Sync.Trans.reach_after oneSlotNon) ?_).2.2.1⟩
  have hrun : ∀ i, ((oneShot (Fin 2) 1).after Sync.Trans.Free oneSlotNon).running i = none := by decide +kernel
  intro i c stage hr
  rw [hrun i] at hr
  cases hr

end Restaurant
