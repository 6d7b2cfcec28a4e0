import LinuxExercises.Spec.Sigusr1
import Mathlib.Tactic.ByContra

/-!
# What a parent and its counting child can come to

* `Inv`: the child has counted no signal twice, and what it has printed grows.
* `parent_returns`: **the parent always gets out of `wait`**, and the child leaves its loop only
  when all signals came one by one.
* `can_count`, `can_print`: a signal that is delivered before the next one is sent is counted.
* `outcome_iff`: **the runs come to exactly these counts and exit states**.
-/

namespace Sigusr1

open Sync

variable {M : BitVec 32} {hM : 0 < M.toInt} {s s' : State} {l : Label} {c c' : Pause.State} {n : ℕ}

/-- The signals that the parent has sent. -/
def ParentPc.sent (M : BitVec 32) : ParentPc → ℕ
  | .fork => 0
  | .send i => i
  | _ => M.toNat

/-- **What holds with the child `c`**, whose handler has run `n` times. -/
structure With (M : BitVec 32) (n : ℕ) (s : State) (c : Pause.State) : Prop where
  count : c.count = BitVec.ofNat 32 n
  sent : n + s.usr1.toNat ≤ s.parent.sent M
  bound : s.parent.sent M ≤ M.toNat
  ended : c.pc = .ended ↔ s.status ≠ none
  grow : s.counts.Pairwise (· < ·)
  range : ∀ x ∈ s.counts, 1 ≤ x ∧ x ≤ n ∧ (c.pc = .print → x < n)
  print : c.pc = .print → 1 ≤ n
  check : c.pc = .check ∨ c.pc = .exiting ∨ s.status = some .exited → s.counts ≠ []
  exiting : c.pc = .exiting → n = M.toNat
  fresh : c.pc = .install ∨ s.status = some .usr1 → s.counts = []
  pc : c.pc ≠ .greet ∧ c.pc ≠ .arm ∧ c.pc ≠ .rearm
  parent : s.parent = .print ∨ s.parent = .ended → s.status ≠ none
  term : s.parent = .wait → s.status = none → s.term = true

/-- **The state, before and after `fork`.** -/
def Inv (M : BitVec 32) (s : State) : Prop :=
  match s.child with
  | none => s.parent = .fork ∧ s = .init ∨ s.parent = .ended ∧ s.status = none
  | some c => s.parent ≠ .fork ∧ ∃ n, With M n s c

theorem inv_init : Inv M .init := .inl ⟨rfl, rfl⟩

theorem toInt_eq (hM : 0 < M.toInt) : M.toInt = M.toNat := by
  have := M.isLt
  rw [BitVec.toInt_eq_toNat_cond] at hM ⊢
  split at hM <;> split <;> omega

/-- The count is a number that `int` holds. -/
theorem toInt_ofNat (hM : 0 < M.toInt) (hn : n ≤ M.toNat) : (BitVec.ofNat 32 n).toInt = n := by
  have hlt : M.toNat < 2 ^ 31 := by
    have hmax := M.toInt_lt
    rw [toInt_eq hM] at hmax
    omega
  rw [BitVec.toInt_eq_toNat_cond, BitVec.toNat_ofNat]
  split <;> omega

theorem inv_of (hc : s.child = some c) (hf : s.parent ≠ .fork) (h : With M n s c) : Inv M s := by
  unfold Inv
  rw [hc]
  exact ⟨hf, n, h⟩

/-- The parent moves, and with it what it has sent. -/
theorem With.send {p : ParentPc} {usr1 term : Bool} (h : With M n s c) (hsent : n + usr1.toNat ≤ p.sent M)
    (hbound : p.sent M ≤ M.toNat) (hparent : p = .print ∨ p = .ended → s.status ≠ none)
    (hterm : p = .wait → s.status = none → term = true) :
    With M n { s with parent := p, usr1 := usr1, term := term } c :=
  ⟨h.count, hsent, hbound, h.ended, h.grow, h.range, h.print, h.check, h.exiting, h.fresh, h.pc, hparent, hterm⟩

theorem inv_parent {ok : Bool} (h : Inv M s) (hs : s.parentStep M ok = some s') : Inv M s' := by
  unfold Inv at h
  unfold State.parentStep at hs
  cases hc : s.child with
  | none =>
    simp only [hc] at h
    rcases h with ⟨-, rfl⟩ | ⟨hp, -⟩
    · simp only [State.init, Option.some.injEq] at hs
      subst hs
      cases ok
      · exact .inr ⟨rfl, rfl⟩
      · refine ⟨by simp, 0, rfl, Nat.zero_le _, Nat.zero_le _, ?_, .nil, nofun, ?_, ?_, ?_, fun _ => rfl, ?_, ?_, ?_⟩
        all_goals simp [Pause.State.init]
    · simp [hp] at hs
  | some c =>
    simp only [hc] at h
    obtain ⟨hf, n, h⟩ := h
    have hsent := h.sent
    have hbound := h.bound
    cases hp : s.parent with
    | fork => exact absurd hp hf
    | send i =>
      simp only [hp, ParentPc.sent] at hs hsent hbound
      split at hs <;> obtain rfl := Option.some.inj hs
      · rename_i hi
        refine inv_of hc (by simp) (h.send ?_ hi (by simp) (by simp))
        have := Bool.toNat_le (s.usr1 || decide (s.status = none))
        show n + _ ≤ i + 1
        omega
      · exact inv_of hc (by simp) (h.send (Nat.le_trans hsent hbound) (Nat.le_refl _) (by simp) (by simp))
    | terminate =>
      simp only [hp, Option.some.injEq] at hs
      subst hs
      exact inv_of hc (by simp) (h.send (Nat.le_trans hsent hbound) (Nat.le_refl _) (by simp) fun _ hst => by simpa using hst)
    | wait =>
      simp only [hp] at hs
      split at hs
      · cases hs
      rename_i hst
      obtain rfl := Option.some.inj hs
      exact inv_of hc (by simp) (h.send (Nat.le_trans hsent hbound) (Nat.le_refl _) (fun _ => hst) (by simp))
    | print =>
      simp only [hp, Option.some.injEq] at hs
      subst hs
      exact inv_of hc (by simp) (h.send (Nat.le_trans hsent hbound) (Nat.le_refl _) (fun _ => h.parent (.inl hp)) (by simp))
    | ended => simp [hp] at hs

theorem inv_child (hM : 0 < M.toInt) (h : Inv M s) (hs : s.childStep (childLoop M hM) = some s') : Inv M s' := by
  unfold Inv at h
  unfold State.childStep at hs
  cases hc : s.child with
  | none => simp [hc] at hs
  | some c =>
    simp only [hc] at h hs
    obtain ⟨hf, n, h⟩ := h
    obtain ⟨c', hc', rfl⟩ := Option.map_eq_some_iff.1 hs
    have hn : n ≤ M.toNat := by
      have := h.sent
      have := h.bound
      omega
    have hcount : c.count.toInt = n := by
      rw [h.count]
      exact toInt_ofNat hM hn
    obtain ⟨pc, count, armed⟩ := c
    obtain ⟨hcnt, hsent, hbound, hended, hgrow, hrange, hprint, hcheck, hexiting, hfresh, hpc, hparent, hterm⟩ := h
    refine ⟨hf, n, ?_⟩
    cases pc with
    | greet | arm | rearm => simp at hpc
    | blocked | ended => cases hc'
    | install =>
      obtain rfl := Option.some.inj hc'
      refine ⟨hcnt, hsent, hbound, ?_, hgrow, ?_, ?_, ?_, ?_, ?_, ?_, ?_, hterm⟩
      all_goals simp_all [childLoop, Pause.Loop.start]
    | pause =>
      obtain rfl := Option.some.inj hc'
      refine ⟨hcnt, hsent, hbound, ?_, hgrow, ?_, ?_, ?_, ?_, ?_, ?_, ?_, hterm⟩
      all_goals simp_all
    | print =>
      obtain rfl := Option.some.inj hc'
      have hst : s.status = none := by simpa using hended
      simp only [reduceCtorEq, if_false, if_true] at hcount ⊢
      rw [hcount]
      refine ⟨hcnt, hsent, hbound, by simp [hst], ?_, ?_, by simp, by simp, by simp, by simp [hst], by simp, hparent, hterm⟩
      · -- the handler has run since the last line
        refine List.pairwise_append.2 ⟨hgrow, List.pairwise_singleton .., fun x hx y hy => ?_⟩
        obtain rfl := List.mem_singleton.1 hy
        exact (hrange x hx).2.2 rfl
      · intro x hx
        rcases List.mem_append.1 hx with hx | hx
        · exact ⟨(hrange x hx).1, (hrange x hx).2.1, by simp⟩
        · obtain rfl := List.mem_singleton.1 hx
          have := hprint rfl
          exact ⟨by omega, Int.le_refl _, by simp⟩
    | check =>
      have hst : s.status = none := by simpa using hended
      have hne : s.counts ≠ [] := hcheck (.inl rfl)
      simp only [Pause.Loop.mainStep, childLoop, hcount] at hc'
      split at hc'
      · rename_i hle
        obtain rfl := Option.some.inj hc'
        have heq : n = M.toNat := by
          have := toInt_eq hM
          have := of_decide_eq_true hle
          omega
        exact ⟨hcnt, hsent, hbound, by simp [hst], hgrow, fun x hx => ⟨(hrange x hx).1, (hrange x hx).2.1, by simp⟩,
          by simp, fun _ => hne, fun _ => heq, by simp [hst], by simp, hparent, hterm⟩
      · obtain rfl := Option.some.inj hc'
        exact ⟨hcnt, hsent, hbound, by simp [hst], hgrow, fun x hx => ⟨(hrange x hx).1, (hrange x hx).2.1, by simp⟩,
          by simp, fun _ => hne, by simp, by simp [hst], by simp, hparent, hterm⟩
    | exiting =>
      obtain rfl := Option.some.inj hc'
      have hne : s.counts ≠ [] := hcheck (.inr (.inl rfl))
      exact ⟨hcnt, hsent, hbound, by simp, hgrow, fun x hx => ⟨(hrange x hx).1, (hrange x hx).2.1, by simp⟩,
        by simp, fun _ => hne, by simp, by simp, by simp, fun _ => by simp, by simp⟩

@[simp] theorem handle_pc (c : Pause.State) : c.handle.pc = c.pc := rfl

/-- A signal that comes to the child. -/
theorem signal_cases (h : (childLoop M hM).signal c = some c') :
    c.pc = .install ∧ c' = { c with pc := .ended } ∨ c.pc = .blocked ∧ c' = { c.handle with pc := .print } ∨
      c.pc ≠ .install ∧ c.pc ≠ .blocked ∧ c.pc ≠ .ended ∧ c' = c.handle := by
  unfold Pause.Loop.signal childLoop at h
  simp only [Bool.false_eq_true, false_and, if_false] at h
  cases hpc : c.pc <;> simp only [hpc, Option.some.injEq] at h
  case ended => cases h
  case install => exact .inl ⟨rfl, h.symm⟩
  case blocked => exact .inr (.inl ⟨rfl, h.symm⟩)
  all_goals exact .inr (.inr ⟨nofun, nofun, nofun, h.symm⟩)

/-- **The handler counts a signal that was pending.** -/
theorem inv_usr1 (h : Inv M s) (hs : s.deliverUsr1 (childLoop M hM) = some s') : Inv M s' := by
  unfold Inv at h
  unfold State.deliverUsr1 at hs
  cases hc : s.child with
  | none => simp [hc] at hs
  | some c =>
    simp only [hc] at h hs
    obtain ⟨hf, n, h⟩ := h
    split at hs
    · rename_i hu
      obtain ⟨c', hc', rfl⟩ := Option.map_eq_some_iff.1 hs
      have hsent : n + 1 ≤ s.parent.sent M := by
        have := h.sent
        rwa [hu] at this
      have hnext : c.count + 1 = BitVec.ofNat 32 (n + 1) := by
        rw [h.count, BitVec.ofNat_add]
        rfl
      have hst : c.pc ≠ .ended → s.status = none := fun hpc => Classical.not_not.1 fun hne => hpc (h.ended.2 hne)
      have hrange (x : ℤ) (hx : x ∈ s.counts) : 1 ≤ x ∧ x ≤ (n + 1 : ℕ) ∧ x < (n + 1 : ℕ) := by
        have := h.range x hx
        omega
      refine ⟨hf, ?_⟩
      rcases signal_cases hc' with ⟨hpc, rfl⟩ | ⟨hpc, rfl⟩ | ⟨hi, hb, he, rfl⟩
      · have hst := hst (by simp [hpc])
        have hempty := h.fresh (.inl hpc)
        refine ⟨n, h.count, Nat.le_of_succ_le hsent, h.bound, by simp [hpc], h.grow, ?_, by simp, ?_, by simp, fun _ => hempty,
          by simp, ?_, ?_⟩
        · simp [hempty]
        · simp [hpc]
        · simp [hpc]
        · simp [hpc]
      · have hst := hst (by simp [hpc])
        refine ⟨n + 1, hnext, hsent, h.bound, by simp [hpc, hst], h.grow,
          fun x hx => ⟨(hrange x hx).1, (hrange x hx).2.1, fun _ => (hrange x hx).2.2⟩, fun _ => Nat.succ_pos _, ?_, by simp, ?_, by simp, ?_, ?_⟩
        · simp [hpc, hst]
        · simp [hpc, hst]
        · simpa [hpc] using h.parent
        · simpa [hpc] using h.term
      · have hst := hst he
        refine ⟨n + 1, hnext, hsent, h.bound, ?_, h.grow,
          fun x hx => ⟨(hrange x hx).1, (hrange x hx).2.1, fun _ => (hrange x hx).2.2⟩, fun _ => Nat.succ_pos _, ?_, ?_, ?_, h.pc, ?_, ?_⟩
        · simpa [hi] using h.ended
        · simpa [hi] using h.check
        · intro hx
          have := h.exiting hx
          have := h.bound
          omega
        · simp [hi, hst]
        · simpa [hi] using h.parent
        · simpa [hi] using h.term
    · cases hs

theorem inv_term (h : Inv M s) (hs : s.deliverTerm = some s') : Inv M s' := by
  unfold Inv at h
  unfold State.deliverTerm at hs
  cases hc : s.child with
  | none => simp [hc] at hs
  | some c =>
    simp only [hc] at h hs
    obtain ⟨hf, n, h⟩ := h
    split at hs
    · obtain rfl := Option.some.inj hs
      exact ⟨hf, n, h.count, h.sent, h.bound, by simp, h.grow, fun x hx => ⟨(h.range x hx).1, (h.range x hx).2.1, by simp⟩,
        by simp, by simp, by simp, by simp, by simp, by simp, by simp⟩
    · cases hs

theorem inv_step (h : Inv M s) (hs : (ipcSigusr1 M hM).step s l = some s') : Inv M s' := by
  cases l with
  | parent ok => exact inv_parent h hs
  | child => exact inv_child hM h hs
  | usr1 => exact inv_usr1 h hs
  | term => exact inv_term h hs

theorem inv_reach (h : (ipcSigusr1 M hM).Reachable s) : Inv M s :=
  h.inv inv_init fun _ _ _ _ hi _ hs => inv_step hi hs

/-! ## The parent gets out of `wait` -/

/-- The steps that the parent has left, with those that its signals cause. -/
def ParentPc.left (M : BitVec 32) : ParentPc → ℕ
  | .fork => 5 * M.toNat + 8
  | .send i => 5 * (M.toNat - i) + 5
  | .terminate => 4
  | .wait => 2
  | .print => 1
  | .ended => 0

/-- The steps that the child has left, up to the next signal. -/
def pcLeft : Pause.Pc → ℕ
  | .print => 3
  | .install | .greet | .arm | .rearm | .check => 2
  | .pause | .exiting => 1
  | .blocked | .ended => 0

/-- The steps that are left. -/
def measure (M : BitVec 32) (s : State) : ℕ :=
  s.parent.left M + (s.child.elim 0 fun c => pcLeft c.pc) + 4 * s.usr1.toNat + s.term.toNat

theorem measure_parent {ok : Bool} (h : s.parentStep M ok = some s') : measure M s' < measure M s := by
  unfold State.parentStep at h
  cases hp : s.parent with
  | fork =>
    simp only [hp, Option.some.injEq] at h
    subst h
    cases ok
    · simp [measure, hp, ParentPc.left, pcLeft]
    · simp [measure, hp, ParentPc.left, pcLeft, Pause.State.init]
      omega
  | send i =>
    simp only [hp] at h
    split at h <;> obtain rfl := Option.some.inj h
    · have := Bool.toNat_le (s.usr1 || decide (s.status = none))
      simp only [measure, hp, ParentPc.left]
      omega
    · simp only [measure, hp, ParentPc.left]
      omega
  | terminate =>
    simp only [hp, Option.some.injEq] at h
    subst h
    have := Bool.toNat_le (decide (s.status = none))
    simp only [measure, hp, ParentPc.left]
    omega
  | wait =>
    simp only [hp] at h
    split at h
    · cases h
    · obtain rfl := Option.some.inj h
      simp only [measure, hp, ParentPc.left]
      omega
  | print =>
    simp only [hp, Option.some.injEq] at h
    subst h
    simp only [measure, hp, ParentPc.left]
    omega
  | ended => simp [hp] at h

theorem pcLeft_mainStep (h : (childLoop M hM).mainStep c = some c') : pcLeft c'.pc < pcLeft c.pc := by
  unfold Pause.Loop.mainStep Pause.Loop.start childLoop at h
  cases hpc : c.pc with
  | check =>
    simp only [hpc] at h
    split at h <;> obtain rfl := Option.some.inj h <;> simp [pcLeft]
  | blocked | ended => simp [hpc] at h
  | _ =>
    simp only [hpc, Bool.false_eq_true, if_false, Option.some.injEq] at h
    subst h
    simp [pcLeft]

theorem measure_step (s : State) (l : Label) (s' : State) (h : (ipcSigusr1 M hM).step s l = some s') :
    measure M s' < measure M s := by
  cases l with
  | parent ok => exact measure_parent h
  | child =>
    replace h : s.childStep (childLoop M hM) = some s' := h
    unfold State.childStep at h
    cases hc : s.child with
    | none => simp [hc] at h
    | some c =>
      simp only [hc] at h
      obtain ⟨c', hc', rfl⟩ := Option.map_eq_some_iff.1 h
      have := pcLeft_mainStep hc'
      simp only [measure, hc, Option.elim_some]
      omega
  | usr1 =>
    replace h : s.deliverUsr1 (childLoop M hM) = some s' := h
    unfold State.deliverUsr1 at h
    cases hc : s.child with
    | none => simp [hc] at h
    | some c =>
      simp only [hc] at h
      split at h
      · rename_i hu
        obtain ⟨c', hc', rfl⟩ := Option.map_eq_some_iff.1 h
        have hle : pcLeft c'.pc ≤ pcLeft c.pc + 3 := by
          rcases signal_cases hc' with ⟨-, rfl⟩ | ⟨-, rfl⟩ | ⟨-, -, -, rfl⟩
          · exact Nat.zero_le _
          · exact Nat.le_add_left ..
          · exact Nat.le_add_right ..
        simp only [measure, hc, hu, Option.elim_some, Bool.toNat_false, Bool.toNat_true]
        omega
      · cases h
  | term =>
    replace h : s.deliverTerm = some s' := h
    unfold State.deliverTerm at h
    cases hc : s.child with
    | none => simp [hc] at h
    | some c =>
      simp only [hc] at h
      split at h
      · rename_i ht
        obtain rfl := Option.some.inj h
        simp only [measure, hc, ht.1, Option.elim_some, pcLeft, Bool.toNat_false, Bool.toNat_true]
        omega
      · cases h

theorem progress (h : Inv M s) (hp : s.parent ≠ .ended) : ¬ (ipcSigusr1 M hM).Stuck s := by
  intro hstuck
  have hparent : s.parentStep M true = none := hstuck (.parent true)
  have hterm : s.deliverTerm = none := hstuck .term
  unfold State.parentStep at hparent
  cases hpc : s.parent with
  | fork => simp [hpc] at hparent
  | send i =>
    simp only [hpc] at hparent
    split at hparent <;> cases hparent
  | terminate => simp [hpc] at hparent
  | wait =>
    -- the signal that ends the child is pending
    have hst : s.status = none := by simpa [hpc] using hparent
    unfold Inv at h
    cases hc : s.child with
    | none => simp [hc, hpc] at h
    | some c =>
      simp only [hc] at h
      obtain ⟨-, n, h⟩ := h
      simp [State.deliverTerm, hc, hst, h.term hpc hst] at hterm
  | print => simp [hpc] at hparent
  | ended => exact hp hpc

/-- **The parent always ends**, after at most `5 * MAX_TIME + 8` steps of the two, with the child
ended before it; the child counts no more signals than were sent, and it leaves its loop only when
each of the `MAX_TIME` signals has been counted. -/
theorem parent_returns (M : BitVec 32) (hM : 0 < M.toInt) :
    (∀ s, (ipcSigusr1 M hM).Reachable s →
      (s.parent ≠ .ended → ¬ (ipcSigusr1 M hM).Stuck s) ∧
      (s.parent = .ended → ∀ c, s.child = some c → c.pc = .ended) ∧
      ∀ c, s.child = some c → c.count.toNat ≤ s.parent.sent M ∧ (c.pc = .exiting → c.count = M)) ∧
    ∀ ls s, (ipcSigusr1 M hM).run Trans.Free .init ls = some s → ls.length ≤ 5 * M.toNat + 8 := by
  refine ⟨fun s hr => ?_, fun ls s hrun => ?_⟩
  · have hI := inv_reach hr
    refine ⟨progress hI, fun hp c hc => ?_, fun c hc => ?_⟩
    · unfold Inv at hI
      simp only [hc] at hI
      obtain ⟨-, n, h⟩ := hI
      exact h.ended.2 (h.parent (.inr hp))
    · unfold Inv at hI
      simp only [hc] at hI
      obtain ⟨-, n, h⟩ := hI
      have hn : n ≤ s.parent.sent M := Nat.le_of_add_right_le h.sent
      have hlt : n < 2 ^ 32 := Nat.lt_of_le_of_lt (Nat.le_trans hn h.bound) M.isLt
      rw [h.count, BitVec.toNat_ofNat, Nat.mod_eq_of_lt hlt]
      refine ⟨hn, fun he => ?_⟩
      rw [h.exiting he, BitVec.ofNat_toNat, BitVec.setWidth_eq]
  · exact Trans.run_length_le (measure M) measure_step hrun

/-- The child has installed its handler, and the parent has sent its signals and waits. -/
def fiveSent : List Label := [.parent true, .child] ++ .replicate 7 (.parent true)

theorem parent_returns_five :
    ((ipcSigusr1 5 (by decide)).after Trans.Free fiveSent).parent = .wait ∧
    ¬ (ipcSigusr1 5 (by decide)).Stuck ((ipcSigusr1 5 (by decide)).after Trans.Free fiveSent) ∧
    fiveSent.length ≤ 5 * (5 : BitVec 32).toNat + 8 :=
  ⟨by decide +kernel, ((parent_returns 5 (by decide)).1 _ (Trans.reach_after fiveSent)).1 (by decide +kernel),
    (parent_returns 5 (by decide)).2 fiveSent _ (Trans.run_eq_after (by decide +kernel))⟩

/-! ## Every outcome can happen -/

variable {pc : Pause.Pc} {counts : List ℤ} {status : Status}

/-- With no signal pending, the program can get to this place and number of signals, all of
them counted. -/
def Can (M : BitVec 32) (hM : 0 < M.toInt) (pc : Pause.Pc) (n : ℕ) (counts : List ℤ) : Prop :=
  (ipcSigusr1 M hM).Reachable ⟨.send n, some ⟨pc, BitVec.ofNat 32 n, false⟩, false, false, none, counts⟩

theorem can_install : Can M hM .install 0 [] := Trans.Reach.init.step (l := .parent true) trivial rfl

/-- An instruction of the child. -/
theorem Can.go {pc' : Pause.Pc} (h : Can M hM pc n counts) (hpc : pc ≠ .exiting)
    (hgo : (childLoop M hM).mainStep ⟨pc, BitVec.ofNat 32 n, false⟩ = some ⟨pc', BitVec.ofNat 32 n, false⟩) :
    Can M hM pc' n (if pc = .print then counts ++ [(BitVec.ofNat 32 n).toInt] else counts) := by
  refine h.step (l := .child) trivial ?_
  simp [ipcSigusr1, State.childStep, hgo, hpc]

/-- A signal is sent and delivered. -/
theorem Can.signal {pc' : Pause.Pc} (h : Can M hM pc n counts) (hn : n < M.toNat) (hpc : pc ≠ .install)
    (hsig : (childLoop M hM).signal ⟨pc, BitVec.ofNat 32 n, false⟩ = some ⟨pc', BitVec.ofNat 32 n + 1, false⟩) :
    Can M hM pc' (n + 1) counts := by
  have hsend : (ipcSigusr1 M hM).Reachable
      ⟨.send (n + 1), some ⟨pc, BitVec.ofNat 32 n, false⟩, true, false, none, counts⟩ := by
    refine h.step (l := .parent true) trivial ?_
    simp [ipcSigusr1, State.parentStep, hn]
  refine hsend.step (l := .usr1) trivial ?_
  have hnext : BitVec.ofNat 32 (n + 1) = BitVec.ofNat 32 n + 1 := BitVec.ofNat_add ..
  simp [ipcSigusr1, State.deliverUsr1, hsig, hpc, hnext]

/-- Outside the call of `pause`, a signal is counted and nothing else happens. -/
theorem Can.count (h : Can M hM pc n counts) (hpc : pc = .pause ∨ pc = .check) {m : ℕ} (hm : n + m ≤ M.toNat) :
    Can M hM pc (n + m) counts := by
  induction m with
  | zero => exact h
  | succ m ih =>
    refine (ih (by omega)).signal (by omega) ?_ ?_
    · rcases hpc with rfl | rfl <;> simp
    · rcases hpc with rfl | rfl <;> rfl

/-- The child prints the number it has come to. -/
theorem Can.print (h : Can M hM .pause n counts) {m : ℕ} (hnm : n < m) (hm : m ≤ M.toNat) :
    Can M hM .check m (counts ++ [(m : ℤ)]) := by
  obtain ⟨k, rfl⟩ : ∃ k, m = n + k + 1 := ⟨m - n - 1, by omega⟩
  have hcount : Can M hM .pause (n + k) counts := h.count (.inl rfl) (by omega)
  have hwait : Can M hM .blocked (n + k) counts := hcount.go (by simp) rfl
  have hwake : Can M hM .print (n + k + 1) counts := hwait.signal (by omega) (by simp) rfl
  have hprint := hwake.go (by simp) rfl
  rwa [if_pos rfl, toInt_ofNat hM hm] at hprint

/-- **Any growing counts** up to the limit can be printed. -/
theorem Can.prints (h : Can M hM .pause n counts) {more : List ℤ} (hgrow : more.Pairwise (· < ·))
    (hrange : ∀ x ∈ more, (n : ℤ) < x ∧ x ≤ M.toNat) :
    ∃ m, m ≤ M.toNat ∧ (more = [] ∧ Can M hM .pause m counts ∨ more ≠ [] ∧ Can M hM .check m (counts ++ more)) := by
  induction more generalizing n counts with
  | nil =>
    have hn : n ≤ M.toNat := by
      obtain ⟨-, m, hw⟩ : Inv M _ := inv_reach h
      have hcount := hw.sent
      have hbound := hw.bound
      simp only [ParentPc.sent] at hbound
      exact hbound
    exact ⟨n, hn, .inl ⟨rfl, h⟩⟩
  | cons x more ih =>
    obtain ⟨hlt, hle⟩ := hrange x (List.mem_cons_self ..)
    obtain ⟨m, rfl⟩ : ∃ m : ℕ, x = m := ⟨x.toNat, by omega⟩
    have hprint := h.print (m := m) (by omega) (by omega)
    by_cases hmore : more = []
    · subst hmore
      exact ⟨m, by omega, .inr ⟨by simp, hprint⟩⟩
    · have hgrow := List.pairwise_cons.1 hgrow
      obtain ⟨y, hy⟩ := List.exists_mem_of_ne_nil more hmore
      have hm : m < M.toNat := by
        have := hgrow.1 y hy
        have := (hrange y (List.mem_cons_of_mem _ hy)).2
        omega
      have hback : Can M hM .pause m (counts ++ [(m : ℤ)]) := by
        refine hprint.go (by simp) ?_
        have hlim : ¬ M.toInt ≤ (BitVec.ofNat 32 m).toInt := by
          rw [toInt_ofNat hM (by omega), toInt_eq hM]
          omega
        simp [Pause.Loop.mainStep, childLoop, hlim]
      obtain ⟨k, hk, hcan⟩ := ih hback hgrow.2 fun z hz => ⟨hgrow.1 z hz, (hrange z (List.mem_cons_of_mem _ hz)).2⟩
      refine ⟨k, hk, .inr ⟨by simp, ?_⟩⟩
      rcases hcan with ⟨hnil, -⟩ | ⟨-, hcan⟩
      · exact absurd hnil hmore
      · simpa using hcan

/-- Once the child has ended, the parent ends too. -/
theorem ends {count : BitVec 32} {b : Bool} (h : (ipcSigusr1 M hM).Reachable s) (hc : s.child = some ⟨.ended, count, b⟩)
    (hst : s.status = some status) :
    ∃ s', (ipcSigusr1 M hM).Reachable s' ∧ s'.parent = .ended ∧ s'.status = some status ∧ s'.counts = s.counts := by
  let I (t : State) : Prop :=
    t.child = some ⟨.ended, count, b⟩ ∧ t.status = some status ∧ t.counts = s.counts ∧ t.parent ≠ .fork
  have hkeep (t : State) (l : Label) (t' : State) (hI : I t) (hs : (ipcSigusr1 M hM).step t l = some t') : I t' := by
    obtain ⟨htc, hts, htn, hf⟩ := hI
    cases l with
    | parent ok =>
      replace hs : t.parentStep M ok = some t' := hs
      unfold State.parentStep at hs
      cases hp : t.parent with
      | fork => exact absurd hp hf
      | send i =>
        simp only [hp] at hs
        split at hs <;> obtain rfl := Option.some.inj hs <;> exact ⟨htc, hts, htn, by simp⟩
      | wait =>
        simp only [hp, hts, reduceCtorEq, if_false, Option.some.injEq] at hs
        exact hs ▸ ⟨htc, rfl, htn, by simp⟩
      | ended => simp [hp] at hs
      | _ =>
        simp only [hp, Option.some.injEq] at hs
        exact hs ▸ ⟨htc, hts, htn, by simp⟩
    | child => simp [ipcSigusr1, State.childStep, htc, Pause.Loop.mainStep] at hs
    | usr1 => simp [ipcSigusr1, State.deliverUsr1, htc, Pause.Loop.signal] at hs
    | term => simp [ipcSigusr1, State.deliverTerm, htc, hts] at hs
  have hf : s.parent ≠ .fork := by
    have hI := inv_reach h
    unfold Inv at hI
    simp only [hc] at hI
    exact hI.1
  obtain ⟨s', hr, ⟨-, hst', hcounts, -⟩, hstuck⟩ :=
    Trans.exists_stuck_keep (I := I) (measure M) measure_step hkeep h ⟨hc, hst, rfl, hf⟩
  refine ⟨s', hr, ?_, hst', hcounts⟩
  by_contra hp
  exact progress (inv_reach hr) hp hstuck

/-- `SIGTERM` reaches the child wherever it is. -/
theorem Can.term (h : Can M hM pc n counts) (hn : n ≤ M.toNat) :
    ∃ s, (ipcSigusr1 M hM).Reachable s ∧ s.parent = .ended ∧ s.status = some .term ∧ s.counts = counts := by
  have hsend (m : ℕ) (hm : n + m ≤ M.toNat) : ∃ u, (ipcSigusr1 M hM).Reachable
      ⟨.send (n + m), some ⟨pc, BitVec.ofNat 32 n, false⟩, u, false, none, counts⟩ := by
    induction m with
    | zero => exact ⟨false, h⟩
    | succ m ih =>
      obtain ⟨u, hu⟩ := ih (by omega)
      refine ⟨true, hu.step (l := .parent true) trivial ?_⟩
      have hlt : n + m < M.toNat := hm
      simp [ipcSigusr1, State.parentStep, hlt, Nat.add_assoc]
  obtain ⟨u, hu⟩ := hsend (M.toNat - n) (by omega)
  rw [Nat.add_sub_cancel' hn] at hu
  have hterminate : (ipcSigusr1 M hM).Reachable
      ⟨.terminate, some ⟨pc, BitVec.ofNat 32 n, false⟩, u, false, none, counts⟩ :=
    hu.step (l := .parent true) trivial (by simp [ipcSigusr1, State.parentStep])
  have hwait : (ipcSigusr1 M hM).Reachable
      ⟨.wait, some ⟨pc, BitVec.ofNat 32 n, false⟩, u, true, none, counts⟩ :=
    hterminate.step (l := .parent true) trivial (by simp [ipcSigusr1, State.parentStep])
  have hkilled : (ipcSigusr1 M hM).Reachable
      ⟨.wait, some ⟨.ended, BitVec.ofNat 32 n, false⟩, u, false, some .term, counts⟩ :=
    hwait.step (l := .term) trivial (by simp [ipcSigusr1, State.deliverTerm])
  exact ends hkilled rfl rfl

/-- A child that is going to compare its count can count up to the limit and exit. -/
theorem Can.exits (h : Can M hM .check n counts) (hn : n ≤ M.toNat) :
    ∃ s, (ipcSigusr1 M hM).Reachable s ∧ s.parent = .ended ∧ s.status = some .exited ∧ s.counts = counts := by
  have hcount := h.count (.inr rfl) (m := M.toNat - n) (by omega)
  rw [Nat.add_sub_cancel' hn] at hcount
  have hexit : Can M hM .exiting M.toNat counts := by
    refine hcount.go (by simp) ?_
    simp [Pause.Loop.mainStep, childLoop]
  have hended : (ipcSigusr1 M hM).Reachable
      ⟨.send M.toNat, some ⟨.ended, BitVec.ofNat 32 M.toNat, false⟩, false, false, some .exited, counts⟩ :=
    hexit.step (l := .child) trivial (by simp [ipcSigusr1, State.childStep, Pause.Loop.mainStep])
  exact ends hended rfl rfl

/-- `SIGUSR1` kills a child that has not installed its handler yet. -/
theorem can_usr1 (hM : 0 < M.toInt) :
    ∃ s, (ipcSigusr1 M hM).Reachable s ∧ s.parent = .ended ∧ s.status = some .usr1 ∧ s.counts = [] := by
  have hpos : 0 < M.toNat := by
    have := toInt_eq hM
    omega
  have hsend : (ipcSigusr1 M hM).Reachable ⟨.send 1, some ⟨.install, 0, false⟩, true, false, none, []⟩ :=
    can_install.step (l := .parent true) trivial (by simp [ipcSigusr1, State.parentStep, hpos])
  have hkilled : (ipcSigusr1 M hM).Reachable ⟨.send 1, some ⟨.ended, 0, false⟩, false, false, some .usr1, []⟩ :=
    hsend.step (l := .usr1) trivial (by simp [ipcSigusr1, State.deliverUsr1, Pause.Loop.signal, childLoop])
  exact ends hkilled rfl rfl

/-- **What the two processes come to**: once the parent has ended, the child has printed counts
that grow from one line to the next within the limit; whether it exited or was killed, each
outcome of this kind can happen. -/
theorem outcome_iff (M : BitVec 32) (hM : 0 < M.toInt) (counts : List ℤ) (status : Status) :
    (∃ s, (ipcSigusr1 M hM).Reachable s ∧ s.parent = .ended ∧ s.status = some status ∧ s.counts = counts) ↔
      Outcome M counts status := by
  constructor
  · rintro ⟨s, hr, hp, hst, rfl⟩
    have hI := inv_reach hr
    unfold Inv at hI
    cases hc : s.child with
    | none => simp [hc, hp, hst] at hI
    | some c =>
      simp only [hc] at hI
      obtain ⟨-, n, h⟩ := hI
      refine ⟨h.grow, fun x hx => ?_, ?_⟩
      · have hn : n ≤ M.toNat := Nat.le_trans (Nat.le_of_add_right_le h.sent) h.bound
        have := h.range x hx
        rw [toInt_eq hM]
        omega
      · cases status with
        | exited => exact h.check (.inr (.inr hst))
        | usr1 => exact h.fresh (.inr hst)
        | term => trivial
  · rintro ⟨hgrow, hrange, hstatus⟩
    have hpause : Can M hM .pause 0 [] := can_install.go (by simp) rfl
    obtain ⟨m, hm, hcan⟩ := hpause.prints hgrow fun x hx => by
      have := hrange x hx
      rw [toInt_eq hM] at this
      omega
    cases status with
    | usr1 =>
      obtain rfl : counts = [] := hstatus
      exact can_usr1 hM
    | exited =>
      rcases hcan with ⟨hnil, -⟩ | ⟨-, hcan⟩
      · exact absurd hnil hstatus
      · exact hcan.exits hm
    | term =>
      rcases hcan with ⟨rfl, hcan⟩ | ⟨-, hcan⟩
      · exact hcan.term hm
      · exact hcan.term hm

/-- The child of the shipped program may print two lines only, and exit. -/
theorem outcome_iff_five : ∃ s, (ipcSigusr1 5 (by decide)).Reachable s ∧ s.parent = .ended ∧
    s.status = some .exited ∧ s.counts = [2, 4] :=
  (outcome_iff 5 (by decide) [2, 4] .exited).2 ⟨by decide, by decide, by decide⟩

end Sigusr1
