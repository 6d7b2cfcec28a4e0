import LinuxExercises.Spec.Pause

/-!
# The limit of the loops in `pause`

* `Inv`: what `g_count` can be at each place, while every run of the handler is in time.
* `stops_at_limit`: in the runs in which every handler run is in time the loops stop at their
  limit, and any other handler run makes the loop pass it.
* `limit_passed`: all three loops wait with the limit reached, if the handler runs once more
  behind the comparison; and the first one also passes a comparison beyond the limit.
-/

namespace Pause

open Sync

variable {L : Loop} {s s' t : State} {l : Label} {c : BitVec 32}

/-! ## Runs in which every handler run is in time -/

/-- **Counting up to the limit** does not pass it unseen. -/
theorem Loop.exits_succ (h : c.toInt < L.maxTime.toInt) (hm : L.maxTime.toInt ≤ (c + 1).toInt) :
    L.exits (c + 1) = true := by
  have hmax := L.maxTime.toInt_lt
  have hc := c.le_toInt
  have hone : (1 : BitVec 32).toInt = 1 := by decide
  have hsucc : (c + 1).toInt = c.toInt + 1 := by
    rw [BitVec.toInt_add, hone]
    exact Int.bmod_eq_of_le (by omega) (by omega)
  have heq : c + 1 = L.maxTime := BitVec.eq_of_toInt_eq (by omega)
  rw [heq]; exact L.exits_maxTime

/-- **`g_count` at each place** of a run whose handler runs are all in time. -/
def Loop.Inv (L : Loop) (s : State) : Prop :=
  match s.pc with
  | .install => s.count = 0
  | .greet | .arm | .pause | .blocked | .rearm => s.count.toInt < L.maxTime.toInt
  | .print | .check => L.maxTime.toInt ≤ s.count.toInt → L.exits s.count = true
  | .exiting | .ended => True

/-- The instructions do not count. -/
theorem inv_mainStep (h : L.Inv s) (hst : L.mainStep s = some s') : L.Inv s' := by
  obtain ⟨pc, c, b⟩ := s
  cases pc with
  | install =>
    obtain rfl : c = 0 := h
    have hpos : (0 : BitVec 32).toInt < L.maxTime.toInt := L.maxTime_pos
    simp only [Loop.mainStep, Loop.start, Option.some.injEq] at hst
    subst hst
    cases L.greets <;> cases L.alarm <;> exact hpos
  | greet =>
    simp only [Loop.mainStep, Loop.start, Option.some.injEq] at hst
    subst hst
    cases L.alarm <;> exact h
  | check =>
    have h : L.maxTime.toInt ≤ c.toInt → L.exits c = true := h
    simp only [Loop.mainStep] at hst
    by_cases he : L.exits c = true
    · rw [if_pos he] at hst; cases hst; trivial
    · -- the comparison would have found the limit
      have hlt : c.toInt < L.maxTime.toInt := Int.not_le.1 fun hm => he (h hm)
      rw [if_neg he, Option.some.injEq] at hst
      subst hst
      cases L.alarm <;> exact hlt
  | exiting => cases hst; trivial
  | blocked => cases hst
  | ended => cases hst
  | _ => cases hst; exact h

/-- A handler run in time. -/
theorem inv_signal (h : L.Inv s) (hc : L.Timely s .signal) (hst : L.signal s = some s') : L.Inv s' := by
  obtain ⟨pc, c, b⟩ := s
  unfold Loop.signal at hst
  split at hst
  · cases hst
  · cases pc with
    | ended => cases hst
    | install => cases hst; trivial
    | blocked =>
      -- below the limit, one more is at most the limit
      cases hst; exact L.exits_succ h
    | exiting => cases hst; trivial
    | _ => cases hst; exact hc

theorem inv_init : L.Inv .init := rfl

theorem inv_reach (h : L.program.Reach L.Timely s) : L.Inv s := by
  refine h.inv (I := L.Inv) inv_init fun s l s' _ hi hc hst => ?_
  cases l with
  | go => exact inv_mainStep hi hst
  | signal => exact inv_signal hi hc hst

theorem Loop.Inv.stops (h : L.Inv s) : L.Stops s := by
  obtain ⟨pc, c, b⟩ := s
  refine ⟨fun hpc => ?_, fun hpc hm => ?_⟩
  · cases hpc; exact h
  · cases hpc
    have he : L.exits c = true := h hm
    exact ⟨_, if_pos he, rfl⟩

/-! ## Handler runs that come too late -/

/-- The process goes on by itself to a state in which the loop has missed its limit. -/
def Loop.Misses (L : Loop) (s : State) : Prop := ∃ t, L.program.Leads (· = .go) s t ∧ ¬ L.Stops t

theorem Loop.Misses.go (h : L.Misses t) (hst : L.mainStep s = some t) : L.Misses s := by
  obtain ⟨u, hu, hmiss⟩ := h
  exact ⟨u, hu.head rfl hst, hmiss⟩

section late

variable {b : Bool} (hm : L.maxTime.toInt ≤ c.toInt)
include hm

theorem misses_blocked : L.Misses ⟨.blocked, c, b⟩ := by
  refine ⟨_, .refl _ _, fun hstops => ?_⟩
  have hlt : c.toInt < L.maxTime.toInt := hstops.1 rfl
  omega

theorem misses_pause : L.Misses ⟨.pause, c, b⟩ := (misses_blocked hm).go rfl

theorem misses_arm : L.Misses ⟨.arm, c, b⟩ := (misses_pause hm).go rfl

theorem misses_rearm : L.Misses ⟨.rearm, c, b⟩ := (misses_pause hm).go rfl

theorem misses_greet : L.Misses ⟨.greet, c, b⟩ := by
  have hstart : L.Misses ⟨L.start, c, b⟩ := by
    unfold Loop.start
    cases L.alarm
    · exact misses_pause hm
    · exact misses_arm hm
  exact hstart.go rfl

theorem misses_check (he : L.exits c ≠ true) : L.Misses ⟨.check, c, b⟩ := by
  refine ⟨_, .refl _ _, fun hstops => ?_⟩
  obtain ⟨t, ht, hpc⟩ := hstops.2 rfl hm
  have ht' : L.program.step ⟨.check, c, b⟩ .go = some ⟨if L.alarm then .rearm else .pause, c, b⟩ := if_neg he
  obtain rfl := Option.some.inj (ht'.symm.trans ht)
  cases ha : L.alarm <;> simp [ha] at hpc

theorem misses_print (he : L.exits c ≠ true) : L.Misses ⟨.print, c, b⟩ := (misses_check hm he).go rfl

end late

/-- **A handler run that is not in time** makes the loop miss its limit. -/
theorem late_misses (hc : ¬ L.Timely s .signal) (hst : L.signal s = some s') : L.Misses s' := by
  obtain ⟨pc, c, b⟩ := s
  unfold Loop.signal at hst
  split at hst
  · cases hst
  · cases pc with
    | install | blocked | exiting | ended => exact absurd trivial hc
    | greet => cases hst; exact misses_greet (Int.not_lt.1 hc)
    | arm => cases hst; exact misses_arm (Int.not_lt.1 hc)
    | pause => cases hst; exact misses_pause (Int.not_lt.1 hc)
    | rearm => cases hst; exact misses_rearm (Int.not_lt.1 hc)
    | print =>
      obtain ⟨hm, he⟩ := Classical.not_imp.1 hc
      cases hst; exact misses_print hm he
    | check =>
      obtain ⟨hm, he⟩ := Classical.not_imp.1 hc
      cases hst; exact misses_check hm he

/-- **The counting loops**: in every run in which each handler run is in time, a loop of this
kind, so each of the three, stops at its limit; any other handler run makes it miss the limit. -/
theorem stops_at_limit (h : L.program.Reach L.Timely s) :
    L.Stops s ∧
    ∀ s', ¬ L.Timely s .signal → L.program.step s .signal = some s' →
      ∃ t, L.program.Leads (· = .go) s' t ∧ ¬ L.Stops t :=
  ⟨(inv_reach h).stops, fun _ hc hst => late_misses hc hst⟩

/-- The instructions up to the first `pause`. -/
def Loop.prologue (L : Loop) : List Label := .replicate (1 + L.greets.toNat + L.alarm.toNat) .go

/-- One round of the loop, from `pause` to `pause`. -/
def Loop.round (L : Loop) : List Label := [.go, .signal] ++ .replicate (2 + L.alarm.toNat) .go

/-- As many rounds as the limit says, up to the last comparison. -/
def Loop.allRounds (L : Loop) : List Label :=
  L.prologue ++ (List.replicate (L.maxTime.toNat - 1) L.round).flatten ++ [.go, .signal, .go]

theorem stops_at_limit_alarm :
    (ex2SigalrmTimer.program.after ex2SigalrmTimer.Timely ex2SigalrmTimer.allRounds).count = 10 ∧
    ∃ t, ex2SigalrmTimer.program.step
      (ex2SigalrmTimer.program.after ex2SigalrmTimer.Timely ex2SigalrmTimer.allRounds) .go = some t ∧
      t.pc = .exiting :=
  ⟨by decide +kernel, (stops_at_limit (L := ex2SigalrmTimer)
    (Sync.Trans.reach_after ex2SigalrmTimer.allRounds)).1.2 (by decide +kernel) (by decide +kernel)⟩

/-- All rounds but the last; then the signal comes once more before `pause` is called. -/
def Loop.lastSignal (L : Loop) : List Label :=
  L.prologue ++ (List.replicate (L.maxTime.toNat - 1) L.round).flatten ++ [.signal, .go]

/-- The signal comes four times before the first comparison. -/
def fourSignals : List Label := ex1CreatRunSignal.prologue ++ [.go, .signal, .signal, .signal, .signal, .go]

theorem lastSignal_blocked : ∀ L ∈ programs,
    (L.program.after Sync.Trans.Free L.lastSignal).pc = .blocked ∧
    L.maxTime.toInt ≤ (L.program.after Sync.Trans.Free L.lastSignal).count.toInt := by
  decide +kernel

/-- **All three loops wait with the limit reached**; and the first one goes on at a comparison
with more than the limit. -/
theorem limit_passed :
    (∀ L ∈ programs, ¬ ∀ s, L.program.Reachable s → L.Stops s) ∧
    ∃ s, ex1CreatRunSignal.program.Reachable s ∧ s.pc = .check ∧ ¬ ex1CreatRunSignal.Stops s := by
  refine ⟨fun L hL h => ?_, _, Sync.Trans.reach_after fourSignals, by decide +kernel, fun hstops => ?_⟩
  · obtain ⟨hpc, hm⟩ := lastSignal_blocked L hL
    have hlt := (h _ (Sync.Trans.reach_after L.lastSignal)).1 hpc
    omega
  · obtain ⟨t, ht, hpc⟩ := hstops.2 (by decide +kernel) (by decide +kernel)
    have hnext : ex1CreatRunSignal.program.step
        (ex1CreatRunSignal.program.after Sync.Trans.Free fourSignals) .go = some ⟨.pause, 4, false⟩ := by
      decide +kernel
    obtain rfl := Option.some.inj (hnext.symm.trans ht)
    cases hpc

end Pause
