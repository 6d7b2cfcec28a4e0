import LinuxExercises.Spec.Cleanup
import Mathlib.Data.List.Nodup
import Mathlib.Tactic.Common

/-!
# The restaurant's `main`: children and cleanup

* `Inv`: between two assignments the table lists the pids of the children, in order; and
  `cleanup_all` has signalled a first part of them, or waited for a first part.
* `inv_child`, `inv_cleanup`, `inv_main`: the steps of a child, of `cleanup_all` and of
  `main` keep this.
* `cleanup_exact`: **`cleanup_all` targets exactly the children**, when every fork succeeds
  and `SIGINT` comes neither to a child before it ignores the signal, nor in the middle of
  an assignment, nor after a child has been waited for; `fork_failure_kills_all` is one of
  the other runs.
-/

namespace Cleanup

variable {s s' : State} {kids : List Child} {c : Child} {i j k : ℕ} {a : Assign} {q : CleanPc}

/-- The pids of the children, in the order of their forks. -/
def State.pids (s : State) : List ℤ := s.kids.map (·.pid)

/-- The table lists the children. -/
def State.Settled (s : State) : Prop :=
  s.table.childCount = s.pids.length ∧ ∀ i p, s.pids[i]? = some p → s.table.entry i = p

/-- What an assignment has done so far. -/
structure CallOk (s : State) (k : ℕ) (a : Assign) : Prop where
  lt : k < numChildren
  forked : a.stored = true → a.result.isSome = true
  count : s.table.childCount = k + a.counted.toNat
  kids : s.pids.length = k + a.result.isSome.toNat
  before : ∀ i p, i < k → s.pids[i]? = some p → s.table.entry i = p
  result : ∀ p, a.result = some p → s.pids[k]? = some p
  stored : a.stored = true → ∀ p, s.pids[k]? = some p → s.table.entry k = p

/-- Where `main` is, and what the table holds there. -/
def MainOk (s : State) : Prop :=
  match s.main with
  | .start => s.handler = none ∧ s.kids = [] ∧ s.table = .init
  | .call k a => CallOk s k a
  | .loop => s.Settled
  | .cleanup _ => s.Settled
  | .ended => s.handler = none

/-- How far `cleanup_all` is. -/
def CleanOk (kids : List Child) : CleanPc → Prop
  | .kill i => ∀ (j : ℕ) (c : Child), kids[j]? = some c → c.pc ≠ .reaped ∧ (j < i → c.signalled = true)
  | .wait i => ∀ (j : ℕ) (c : Child), kids[j]? = some c → c.signalled = true ∧ (j < i → c.pc = .reaped)
  | .returned => ∀ (j : ℕ) (c : Child), kids[j]? = some c → c.signalled = true ∧ c.pc = .reaped

structure Inv (s : State) : Prop where
  size : s.table.children.length = numChildren
  pos : ∀ p ∈ s.pids, 0 < p
  nodup : s.pids.Nodup
  only : ∀ c ∈ s.kids, ∀ q, c.pc ≠ .cleanup q
  main : MainOk s
  handled : s.handler ≠ none → s.Settled
  clean : ∀ q, s.cleaning = some q → CleanOk s.kids q
  whole : s.main ≠ .ended → s.cleaning = none → ∀ c ∈ s.kids, c.pc ≠ .reaped

/-- While `cleanup_all` runs the table lists the children. -/
theorem Inv.settled (h : Inv s) (hq : s.cleaning = some q) : s.Settled := by
  unfold State.cleaning at hq
  by_cases hh : s.handler = none
  · have hm := h.main
    unfold MainOk at hm
    cases hmain : s.main <;> simp [hh, hmain] at hq hm
    exact hm
  · exact h.handled hh

/-! ## The children -/

/-- Child `c` after a step that is not a `waitpid` for it: it has kept its pid, has not lost
the signal, has not come back from being waited for, and is not in `cleanup_all`. -/
structure Child.Follows (c c' : Child) : Prop where
  pid : c'.pid = c.pid
  signalled : c.signalled = true → c'.signalled = true
  reaped : c'.pc = .reaped ↔ c.pc = .reaped
  only : (∀ q, c.pc ≠ .cleanup q) → ∀ q, c'.pc ≠ .cleanup q

theorem Child.Follows.refl (c : Child) : c.Follows c := ⟨rfl, id, Iff.rfl, id⟩

theorem CallOk.keep (h : CallOk s k a) (hp : s'.pids = s.pids) (ht : s'.table = s.table) : CallOk s' k a where
  lt := h.lt
  forked := h.forked
  count := ht ▸ h.count
  kids := hp ▸ h.kids
  before := by rw [hp, ht]; exact h.before
  result := by rw [hp]; exact h.result
  stored := by rw [hp, ht]; exact h.stored

theorem State.Settled.keep (h : s.Settled) (hp : s'.pids = s.pids) (ht : s'.table = s.table) : s'.Settled := by
  unfold State.Settled
  rw [hp, ht]
  exact h

/-- Steps of the children and of `cleanup_all` do not change the pids. -/
theorem MainOk.keep (h : MainOk s) (hp : s'.pids = s.pids) (ht : s'.table = s.table) (hm : s'.main = s.main)
    (hh : s.handler = none → s'.handler = none) : MainOk s' := by
  unfold MainOk at *
  rw [hm]
  cases hmain : s.main with
  | start =>
    simp only [hmain] at h ⊢
    obtain ⟨hnone, hkids, htab⟩ := h
    refine ⟨hh hnone, ?_, ht.trans htab⟩
    have : s'.pids = [] := by rw [hp, State.pids, hkids]; rfl
    exact List.map_eq_nil_iff.1 this
  | call k a =>
    simp only [hmain] at h ⊢
    exact h.keep hp ht
  | loop =>
    simp only [hmain] at h ⊢
    exact h.keep hp ht
  | cleanup q =>
    simp only [hmain] at h ⊢
    exact h.keep hp ht
  | ended =>
    simp only [hmain] at h ⊢
    exact hh h

theorem pids_eq {g : ℕ → Child → Child} {kids' : List Child} (hget : ∀ i, kids'[i]? = (kids[i]?).map (g i))
    (hpid : ∀ (i : ℕ) (c : Child), kids[i]? = some c → (g i c).pid = c.pid) : kids'.map (·.pid) = kids.map (·.pid) := by
  refine List.ext_getElem? fun i => ?_
  rw [List.getElem?_map, List.getElem?_map, hget]
  cases hi : kids[i]? with
  | none => rfl
  | some c => simp [hpid i c hi]

/-- **A step in which all children follow themselves.** -/
theorem Inv.follow (h : Inv s) {g : ℕ → Child → Child} {kids' : List Child}
    (hget : ∀ i, kids'[i]? = (s.kids[i]?).map (g i))
    (hf : ∀ (i : ℕ) (c : Child), s.kids[i]? = some c → c.Follows (g i c)) : Inv { s with kids := kids' } := by
  have hp : kids'.map (·.pid) = s.pids := pids_eq hget fun i c hi => (hf i c hi).pid
  have hold : ∀ (i : ℕ) (c' : Child), kids'[i]? = some c' → ∃ c, s.kids[i]? = some c ∧ c.Follows c' := by
    intro i c' hi
    rw [hget, Option.map_eq_some_iff] at hi
    obtain ⟨c, hc, rfl⟩ := hi
    exact ⟨c, hc, hf i c hc⟩
  have hmem : ∀ c' ∈ kids', ∃ c ∈ s.kids, c.Follows c' := by
    intro c' hc'
    obtain ⟨i, hi⟩ := List.getElem?_of_mem hc'
    obtain ⟨c, hc, hcc⟩ := hold i c' hi
    exact ⟨c, List.mem_of_getElem? hc, hcc⟩
  have hsame : State.pids { s with kids := kids' } = s.pids := hp
  refine ⟨h.size, ?_, ?_, ?_, h.main.keep hsame rfl rfl id, fun hh => (h.handled hh).keep hsame rfl, ?_, ?_⟩
  · rw [hsame]
    exact h.pos
  · rw [hsame]
    exact h.nodup
  · intro c' hc'
    obtain ⟨c, hc, hcc⟩ := hmem c' hc'
    exact hcc.only (h.only c hc)
  · intro q hq
    have hclean := h.clean q hq
    cases q with
    | kill i =>
      intro j c' hj
      obtain ⟨c, hc, hcc⟩ := hold j c' hj
      obtain ⟨hr, hs⟩ := hclean j c hc
      exact ⟨fun hr' => hr (hcc.reaped.1 hr'), fun hji => hcc.signalled (hs hji)⟩
    | wait i =>
      intro j c' hj
      obtain ⟨c, hc, hcc⟩ := hold j c' hj
      obtain ⟨hs, hr⟩ := hclean j c hc
      exact ⟨hcc.signalled hs, fun hji => hcc.reaped.2 (hr hji)⟩
    | returned =>
      intro j c' hj
      obtain ⟨c, hc, hcc⟩ := hold j c' hj
      obtain ⟨hs, hr⟩ := hclean j c hc
      exact ⟨hcc.signalled hs, hcc.reaped.2 hr⟩
  · intro hne hq c' hc' hr'
    obtain ⟨c, hc, hcc⟩ := hmem c' hc'
    exact h.whole hne hq c hc (hcc.reaped.1 hr')

/-- A step of one child. -/
theorem Inv.modify (h : Inv s) {f : Child → Child} (hf : ∀ c : Child, s.kids[j]? = some c → c.Follows (f c)) :
    Inv { s with kids := s.kids.modify j f } := by
  refine h.follow (g := fun i => if j = i then f else id) (fun i => ?_) fun i c hi => ?_
  · rw [List.getElem?_modify]
    by_cases hij : j = i
    · simp [hij]
    · simp [hij]
  · by_cases hij : j = i
    · subst hij
      simpa using hf c hi
    · simpa [hij] using Child.Follows.refl c

/-- **A step of a child**, to which `SIGINT` comes only when it ignores the signal. -/
theorem inv_child {x : ChildAct} (h : Inv s) (hO : Orderly s (.child j x)) (hs : s.childStep j x = some s') :
    Inv s' := by
  unfold State.childStep at hs
  cases hj : s.kids[j]? with
  | none => simp [hj] at hs
  | some c =>
    simp only [hj] at hs
    have honly := h.only c (List.mem_of_getElem? hj)
    have hmod : ∀ f : Child → Child, c.Follows (f c) → Inv { s with kids := s.kids.modify j f } := by
      intro f hf
      refine h.modify fun c' hc' => ?_
      rw [hj, Option.some.injEq] at hc'
      exact hc' ▸ hf
    have hmove : ∀ pc : ChildPc, c.pc ≠ .reaped → pc ≠ .reaped → (∀ q, pc ≠ .cleanup q) → Inv (s.setPc j pc) :=
      fun pc hc hpc hq => hmod _ ⟨rfl, id, iff_of_false hpc hc, fun _ => hq⟩
    split at hs
    · rename_i stored hpc
      simp only [Option.some.injEq] at hs
      subst hs
      exact hmod _ ⟨rfl, id, by simp [hpc], fun _ => by simp⟩
    · rename_i counted hpc
      simp only [Option.some.injEq] at hs
      subst hs
      exact hmod _ ⟨rfl, id, by simp [hpc], fun _ => by simp⟩
    · rename_i hpc
      simp only [Option.some.injEq] at hs
      subst hs
      exact hmove _ (by simp [hpc]) (by simp) (by simp)
    · -- `SIGINT` before `signal(SIGINT, SIG_IGN)`
      rename_i hpc
      simp [Orderly, hj, hpc] at hO
    · simp only [Option.some.injEq] at hs
      exact hs ▸ h
    · rename_i q hpc
      exact absurd hpc (honly q)
    · simp at hs
    · simp at hs
    · rename_i hz hr
      simp only [Option.some.injEq] at hs
      subst hs
      exact hmove _ hr (by simp) (by simp)
    · simp at hs

/-! ## `cleanup_all` in the parent -/

theorem Inv.setClean {q' : CleanPc} (h : Inv s) (hq : s.cleaning = some q) (hc : CleanOk s.kids q') :
    Inv (s.setClean q') := by
  have hset := h.settled hq
  unfold State.setClean
  by_cases hh : s.handler.isSome = true
  · have hne : s.handler ≠ none := fun he => by simp [he] at hh
    rw [if_pos hh]
    refine ⟨h.size, h.pos, h.nodup, h.only, h.main.keep rfl rfl rfl fun he => absurd he hne, fun _ => hset, ?_, ?_⟩
    · intro q hq
      simp only [State.cleaning, Option.some.injEq] at hq
      exact hq ▸ hc
    · intro _ hq
      simp [State.cleaning] at hq
  · have hnone : s.handler = none := by simpa using hh
    rw [if_neg hh]
    refine ⟨h.size, h.pos, h.nodup, h.only, hset, fun he => absurd hnone he, ?_, ?_⟩
    · intro q hq
      simp only [State.cleaning, hnone, Option.some.injEq] at hq
      exact hq ▸ hc
    · intro _ hq
      simp [State.cleaning, hnone] at hq

theorem Inv.finish (h : Inv s) : Inv s.finish :=
  ⟨h.size, h.pos, h.nodup, h.only, rfl, fun he => absurd rfl he, fun q hq => by simp [State.finish, State.cleaning] at hq,
    fun hne => absurd rfl hne⟩

/-- Child `i` has the pid in entry `i`. -/
theorem State.Settled.child (h : s.Settled) (hi : i < s.table.childCount) :
    ∃ c, s.kids[i]? = some c ∧ c.pid = s.table.entry i := by
  obtain ⟨hcount, hentry⟩ := h
  have hlt : i < s.kids.length := by
    rw [hcount, State.pids, List.length_map] at hi
    exact hi
  refine ⟨s.kids[i], List.getElem?_eq_getElem hlt, ?_⟩
  refine (hentry i _ ?_).symm
  rw [State.pids, List.getElem?_map, List.getElem?_eq_getElem hlt]
  rfl

theorem Inv.entry_pos (h : Inv s) (hset : s.Settled) (hi : i < s.table.childCount) : 0 < s.table.entry i := by
  obtain ⟨c, hc, hpid⟩ := hset.child hi
  rw [← hpid]
  exact h.pos _ (List.mem_map_of_mem (List.mem_of_getElem? hc))

/-- Two children have two pids. -/
theorem Inv.kid_inj {c' : Child} (h : Inv s) (hi : s.kids[i]? = some c) (hj : s.kids[j]? = some c')
    (hp : c.pid = c'.pid) : i = j := by
  have hi' : s.pids[i]? = some c.pid := by rw [State.pids, List.getElem?_map, hi]; rfl
  have hj' : s.pids[j]? = some c'.pid := by rw [State.pids, List.getElem?_map, hj]; rfl
  rw [← hp] at hj'
  obtain ⟨hli, hpi⟩ := List.getElem?_eq_some_iff.1 hi'
  obtain ⟨hlj, hpj⟩ := List.getElem?_eq_some_iff.1 hj'
  exact (List.Nodup.getElem_inj_iff h.nodup).1 (hpi.trans hpj.symm)

theorem lt_of_kid (h : s.Settled) (hj : s.kids[j]? = some c) : j < s.table.childCount := by
  rw [h.1, State.pids, List.length_map]
  exact (List.getElem?_eq_some_iff.1 hj).1

/-- A child has been waited for. -/
theorem Inv.reap (h : Inv s) (hq : s.cleaning = some (.wait i)) : Inv (s.setPc j .reaped) := by
  have hget : ∀ k, (s.setPc j .reaped).kids[k]? =
      (s.kids[k]?).map fun c => if j = k then { c with pc := .reaped } else c := by
    intro k
    unfold State.setPc
    rw [List.getElem?_modify]
    by_cases hjk : j = k
    · simp [hjk]
    · simp [hjk]
  have hp : (s.setPc j .reaped).pids = s.pids :=
    pids_eq (g := fun k c => if j = k then { c with pc := .reaped } else c) hget fun k c _ => by
      by_cases hjk : j = k
      · simp [hjk]
      · simp [hjk]
  have hset := h.settled hq
  refine ⟨h.size, hp ▸ h.pos, hp ▸ h.nodup, ?_, h.main.keep hp rfl rfl id, fun hh => (h.handled hh).keep hp rfl, ?_, ?_⟩
  · intro c' hc' q hpc
    obtain ⟨k, hk⟩ := List.getElem?_of_mem hc'
    rw [hget, Option.map_eq_some_iff] at hk
    obtain ⟨c, hc, rfl⟩ := hk
    by_cases hjk : j = k
    · simp [hjk] at hpc
    · simp only [hjk, if_false] at hpc
      exact h.only c (List.mem_of_getElem? hc) q hpc
  · intro q hq'
    have hqe : q = .wait i := Option.some.inj (hq'.symm.trans hq)
    subst hqe
    intro k c' hk
    rw [hget, Option.map_eq_some_iff] at hk
    obtain ⟨c, hc, rfl⟩ := hk
    obtain ⟨hs, hr⟩ := h.clean _ hq k c hc
    by_cases hjk : j = k
    · simpa [hjk] using hs
    · simpa [hjk] using And.intro hs hr
  · intro _ hq'
    have : s.cleaning = none := hq'
    rw [hq] at this
    simp at this

/-- A `kill`: it signals child `i`, and the earlier ones were signalled. -/
theorem inv_kill (h : Inv s) (hq : s.cleaning = some (.kill i)) (hs : s.cleanupAll j (.kill i) = some s') : Inv s' := by
  have hset := h.settled hq
  have hclean := h.clean _ hq
  simp only [State.cleanupAll] at hs
  by_cases hi : i < s.table.childCount
  · have hpos := h.entry_pos hset hi
    have hne : s.table.entry i ≠ 0 := by omega
    rw [if_pos hi, if_neg hne, Option.some.injEq] at hs
    subst hs
    have hget : ∀ k : ℕ, (signalKids s.kids (s.table.entry i))[k]? = (s.kids[k]?).map fun c : Child =>
        if s.table.entry i ≤ 0 ∨ c.pid = s.table.entry i then { c with signalled := true } else c := by
      intro k
      unfold signalKids
      rw [List.getElem?_map]
    have hI : Inv { s with kids := signalKids s.kids (s.table.entry i) } := by
      refine h.follow hget fun k c _ => ?_
      split
      · exact ⟨rfl, fun _ => rfl, Iff.rfl, id⟩
      · exact .refl c
    refine hI.setClean (q := .kill i) hq fun k c' hk => ?_
    rw [hget, Option.map_eq_some_iff] at hk
    obtain ⟨c, hc, rfl⟩ := hk
    obtain ⟨hr, hsig⟩ := hclean k c hc
    refine ⟨by split <;> exact hr, fun hki => ?_⟩
    by_cases hpid : c.pid = s.table.entry i
    · simp [hpid]
    · -- it is not the one signalled now, so an earlier one
      have hne : k ≠ i := by
        intro he
        subst he
        obtain ⟨c', hc', hp⟩ := hset.child hi
        rw [hc, Option.some.injEq] at hc'
        exact hpid (hc' ▸ hp)
      have hneg : ¬ (s.table.entry i ≤ 0 ∨ c.pid = s.table.entry i) := by
        rintro (hle | he)
        · omega
        · exact hpid he
      rw [if_neg hneg]
      exact hsig (by omega)
  · -- on to the `waitpid` calls
    rw [if_neg hi, Option.some.injEq] at hs
    subst hs
    refine h.setClean hq fun k c hk => ?_
    have hlt := lt_of_kid hset hk
    exact ⟨(hclean k c hk).2 (by omega), fun hk0 => absurd hk0 (Nat.not_lt_zero _)⟩

/-- What `waitpid` on entry `i` comes to: child `i` is waited for, or was before. -/
theorem waitpid_cases (h : Inv s) (hset : s.Settled) (hi : i < s.table.childCount)
    (hw : s.waitpid (s.table.entry i) j = some s') :
    s' = s.setPc i .reaped ∨ s' = s ∧ ∀ c, s.kids[i]? = some c → c.pc = .reaped := by
  have hpos := h.entry_pos hset hi
  obtain ⟨ci, hci, hpi⟩ := hset.child hi
  unfold State.waitpid at hw
  split at hw
  · rename_i hnone
    rw [Option.some.injEq] at hw
    refine .inr ⟨hw.symm, fun c hc => ?_⟩
    rw [hci, Option.some.injEq] at hc
    by_contra hne
    exact hnone ci (List.mem_of_getElem? hci) ⟨hc ▸ hne, Or.inr hpi⟩
  · split at hw
    · rename_i c hc
      split at hw
      · rename_i hwz
        obtain ⟨⟨-, hpid⟩, -⟩ := hwz
        rw [Option.some.injEq] at hw
        have hpid' : c.pid = ci.pid := by
          rcases hpid with hle | he
          · omega
          · exact he.trans hpi.symm
        rw [h.kid_inj hc hci hpid'] at hw
        exact .inl hw.symm
      · simp at hw
    · simp at hw

/-- A `waitpid`: child `i` is waited for, and the earlier ones were. -/
theorem inv_wait (h : Inv s) (hq : s.cleaning = some (.wait i)) (hs : s.cleanupAll j (.wait i) = some s') : Inv s' := by
  have hset := h.settled hq
  have hclean := h.clean _ hq
  simp only [State.cleanupAll] at hs
  by_cases hi : i < s.table.childCount
  · rw [if_pos hi, Option.map_eq_some_iff] at hs
    obtain ⟨s₁, hwait, rfl⟩ := hs
    rcases waitpid_cases h hset hi hwait with rfl | ⟨rfl, hdone⟩
    · have hI := h.reap (j := i) hq
      refine hI.setClean (q := .wait i) hq fun k c hk => ?_
      obtain ⟨hsig, hr⟩ := hI.clean _ hq k c hk
      refine ⟨hsig, fun hki => ?_⟩
      by_cases he : k = i
      · subst he
        unfold State.setPc at hk
        rw [List.getElem?_modify_eq, Option.map_eq_map, Option.map_eq_some_iff] at hk
        obtain ⟨c₀, -, rfl⟩ := hk
        rfl
      · exact hr (by omega)
    · refine h.setClean hq fun k c hk => ?_
      obtain ⟨hsig, hr⟩ := hclean k c hk
      refine ⟨hsig, fun hki => ?_⟩
      by_cases he : k = i
      · subst he
        exact hdone c hk
      · exact hr (by omega)
  · rw [if_neg hi, Option.some.injEq] at hs
    subst hs
    refine h.setClean hq fun k c hk => ?_
    have hlt := lt_of_kid hset hk
    obtain ⟨hsig, hr⟩ := hclean k c hk
    exact ⟨hsig, hr (by omega)⟩

/-- **A step of `cleanup_all`.** -/
theorem inv_cleanup (h : Inv s) (hq : s.cleaning = some q) (hs : s.cleanupAll j q = some s') : Inv s' := by
  cases q with
  | kill i => exact inv_kill h hq hs
  | wait i => exact inv_wait h hq hs
  | returned =>
    simp only [State.cleanupAll, Option.some.injEq] at hs
    exact hs ▸ h.finish

/-! ## `main` -/

theorem entry_store (t : Table) {p : ℤ} (hk : k < t.children.length) (i : ℕ) :
    (t.store k p).entry i = if k = i then p else t.entry i := by
  unfold Table.store Table.entry
  simp only [List.getD_eq_getElem?_getD]
  rw [List.getElem?_set]
  by_cases hki : k = i
  · subst hki
    simp [hk]
  · simp [hki]

/-- Before its first side effect the table lists the children. -/
theorem CallOk.settled (h : CallOk s k .fresh) : s.Settled := by
  have hkids : s.pids.length = k := h.kids
  refine ⟨h.count.trans hkids.symm, fun i p hi => h.before i p ?_ hi⟩
  have := (List.getElem?_eq_some_iff.1 hi).1
  omega

/-- After its last one too, so that the next statement begins well. -/
theorem CallOk.after (h : CallOk s k a) (hm : s.main = afterAssign k a) : MainOk s := by
  unfold MainOk
  rw [hm]
  unfold afterAssign
  by_cases hdone : a.counted = true ∧ a.stored = true
  · have hcount : s.table.childCount = k + 1 := by
      rw [h.count, hdone.1]
      rfl
    have hkids : s.pids.length = k + 1 := by
      rw [h.kids, h.forked hdone.2]
      rfl
    have hentry : ∀ i p, s.pids[i]? = some p → s.table.entry i = p := by
      intro i p hi
      have hlt := (List.getElem?_eq_some_iff.1 hi).1
      by_cases hik : i = k
      · subst hik
        exact h.stored hdone.2 p hi
      · exact h.before i p (by omega) hi
    rw [if_pos hdone]
    by_cases hlt : k + 1 < numChildren
    · rw [if_pos hlt]
      exact ⟨hlt, by simp [Assign.fresh], hcount, hkids, fun i p _ => hentry i p, by simp [Assign.fresh],
        by simp [Assign.fresh]⟩
    · rw [if_neg hlt]
      exact ⟨hcount.trans hkids.symm, hentry⟩
  · rw [if_neg hdone]
    exact h

/-- A step of `main` that leaves the children alone. -/
theorem Inv.main_move (h : Inv s) {t : Table} {m : MainPc} (hnone : s.handler = none) (hidle : s.cleaning = none)
    (hne : s.main ≠ .ended) (hsize : t.children.length = numChildren) (hm : ∀ q, m ≠ .cleanup q)
    (hok : MainOk { s with table := t, main := m }) : Inv { s with table := t, main := m } where
  size := hsize
  pos := h.pos
  nodup := h.nodup
  only := h.only
  main := hok
  handled := fun he => absurd hnone he
  clean := fun q hq => by
    cases m <;> simp [State.cleaning, hnone] at hq
    exact absurd rfl (hm _)
  whole := fun _ _ => h.whole hne hidle

theorem afterAssign_ne (k : ℕ) (a : Assign) (q : CleanPc) : afterAssign k a ≠ .cleanup q := by
  unfold afterAssign
  split
  · split <;> simp
  · simp

/-- `signal(SIGINT, handle_sigint)` and on to the first assignment. -/
theorem callOk_first (hkids : s.kids = []) (htab : s.table = .init) : CallOk s 0 .fresh := by
  have hp : s.pids = [] := by rw [State.pids, hkids]; rfl
  refine ⟨by decide, by simp [Assign.fresh], ?_, ?_, fun i p hi => absurd hi (Nat.not_lt_zero i),
    by simp [Assign.fresh], by simp [Assign.fresh]⟩
  · rw [htab]
    rfl
  · rw [hp]
    rfl

/-- `child_count++`. -/
theorem CallOk.counts {m : MainPc} (h : CallOk s k a) (hc : a.counted = false) :
    CallOk { s with table := s.table.count, main := m } k { a with counted := true } := by
  have hcnt := h.count
  rw [hc, Bool.toNat_false] at hcnt
  refine ⟨h.lt, h.forked, ?_, h.kids, h.before, h.result, h.stored⟩
  show s.table.childCount + 1 = k + 1
  omega

/-- `children[k] = p`. -/
theorem CallOk.stores {m : MainPc} {p : ℤ} (h : CallOk s k a) (hsize : s.table.children.length = numChildren)
    (hr : a.result = some p) : CallOk { s with table := s.table.store k p, main := m } k ⟨a.counted, some p, true⟩ := by
  have hk : k < s.table.children.length := hsize ▸ h.lt
  have hpk := h.result p hr
  refine ⟨h.lt, fun _ => rfl, h.count, hr ▸ h.kids, fun i x hi hx => ?_, hr ▸ h.result, fun _ x hx => ?_⟩
  · show (s.table.store k p).entry i = x
    rw [entry_store _ hk, if_neg (by omega)]
    exact h.before i x hi hx
  · show (s.table.store k p).entry k = x
    rw [entry_store _ hk, if_pos rfl]
    exact Option.some.inj (hpk.symm.trans hx)

/-- The fork has returned the pid of a new child, the last one. -/
theorem CallOk.forks {p : ℤ} (h : CallOk s k a) (hr : a.result = none) (hp : s'.pids = s.pids ++ [p])
    (htab : s'.table = s.table) : CallOk s' k { a with result := some p } := by
  have hst : ¬ a.stored = true := fun he => by simpa [hr] using h.forked he
  have hlen : s.pids.length = k := by simpa [hr] using h.kids
  refine ⟨h.lt, fun _ => rfl, htab ▸ h.count, ?_, fun i x hi hx => ?_, fun x hx => ?_, fun he => absurd he hst⟩
  · rw [hp, List.length_append, hlen]
    rfl
  · rw [htab]
    rw [hp, List.getElem?_append_left (by omega)] at hx
    exact h.before i x hi hx
  · simp only [Option.some.injEq] at hx
    subst hx
    rw [hp, List.getElem?_append_right (by omega), hlen]
    simp

/-- **A successful `fork`.** -/
theorem Inv.fork {p : ℤ} (h : Inv s) (hnone : s.handler = none) (hcall : s.main = .call k a) (hr : a.result = none)
    (hpos : 0 < p) (hnew : ∀ c ∈ s.kids, c.pid ≠ p) :
    Inv { s with
      main := .call k { a with result := some p }
      kids := s.kids ++ [⟨p, k, s.table, .assign a.counted false, false⟩] } := by
  have hm : CallOk s k a := by simpa only [MainOk, hcall] using h.main
  have hwhole := h.whole (by simp [hcall]) (by simp [State.cleaning, hnone, hcall])
  have hp : List.map Child.pid (s.kids ++ [⟨p, k, s.table, .assign a.counted false, false⟩]) = s.pids ++ [p] := by
    rw [List.map_append]
    rfl
  have hmem : ∀ c : Child, c ∈ s.kids ++ [⟨p, k, s.table, .assign a.counted false, false⟩] →
      c ∈ s.kids ∨ c.pc = .assign a.counted false := by
    intro c hc
    rcases List.mem_append.1 hc with hc | hc
    · exact Or.inl hc
    · rw [List.mem_singleton.1 hc]
      exact Or.inr rfl
  refine ⟨h.size, ?_, ?_, ?_, hm.forks hr hp rfl, fun he => absurd hnone he, ?_, fun _ _ c hc => ?_⟩
  · intro x hx
    rw [State.pids, hp] at hx
    rcases List.mem_append.1 hx with hx | hx
    · exact h.pos x hx
    · rw [List.mem_singleton.1 hx]
      exact hpos
  · rw [State.pids, hp]
    refine List.nodup_append.2 ⟨h.nodup, by simp, fun x hx y hy => ?_⟩
    obtain ⟨c, hc, rfl⟩ := List.mem_map.1 hx
    rw [List.mem_singleton.1 hy]
    exact hnew c hc
  · intro c hc q
    rcases hmem c hc with hc | hc
    · exact h.only c hc q
    · simp [hc]
  · intro q hq
    simp [State.cleaning, hnone] at hq
  · rcases hmem c hc with hc | hc
    · exact hwhole c hc
    · simp [hc]

/-- Sixty seconds are over: nobody has been waited for when `cleanup_all` begins. -/
theorem Inv.timeUp (h : Inv s) (hnone : s.handler = none) (hloop : s.main = .loop) :
    Inv { s with main := .cleanup (.kill 0) } := by
  have hset : s.Settled := by simpa only [MainOk, hloop] using h.main
  have hwhole := h.whole (by simp [hloop]) (by simp [State.cleaning, hnone, hloop])
  refine ⟨h.size, h.pos, h.nodup, h.only, hset, fun he => absurd hnone he, fun q hq => ?_, fun _ _ => hwhole⟩
  simp only [State.cleaning, hnone, Option.some.injEq] at hq
  subst hq
  exact fun j c hj => ⟨hwhole c (List.mem_of_getElem? hj), fun hj0 => absurd hj0 (Nat.not_lt_zero j)⟩

/-- **A step of `main`**, in which a `fork` does not fail. -/
theorem inv_main {l : Label} (h : Inv s) (hO : Orderly s l) (hnone : s.handler = none) (hs : s.mainStep l = some s') :
    Inv s' := by
  have hm := h.main
  unfold MainOk at hm
  have hidle {k : ℕ} {a : Assign} (hcall : s.main = .call k a) : s.cleaning = none := by
    simp [State.cleaning, hnone, hcall]
  cases l with
  | install =>
    simp only [State.mainStep] at hs
    by_cases hstart : s.main = .start
    · simp only [hstart, if_true, Option.some.injEq] at hs hm
      subst hs
      exact h.main_move hnone (by simp [State.cleaning, hnone, hstart]) (by simp [hstart]) h.size (by simp)
        (callOk_first (s := { s with main := .call 0 .fresh }) hm.2.1 hm.2.2)
    · simp [hstart] at hs
  | count =>
    simp only [State.mainStep] at hs
    cases hcall : s.main with
    | call k a =>
      simp only [hcall] at hs hm
      by_cases hc : a.counted = true
      · simp [hc] at hs
      · rw [if_neg hc, Option.some.injEq] at hs
        rw [Bool.not_eq_true] at hc
        subst hs
        exact h.main_move hnone (hidle hcall) (by simp [hcall]) h.size (afterAssign_ne k _) ((hm.counts hc).after rfl)
    | _ => simp [hcall] at hs
  | fork pid =>
    simp only [State.mainStep] at hs
    cases hcall : s.main with
    | call k a =>
      simp only [hcall] at hs hm
      cases hr : a.result with
      | some p => simp [hr] at hs
      | none =>
        simp only [hr, Option.isSome_none, Bool.false_eq_true, if_false] at hs
        cases pid with
        | none => simp [Orderly] at hO
        | some p =>
          simp only at hs
          split at hs
          · rename_i hfresh
            rw [Option.some.injEq] at hs
            exact hs ▸ h.fork hnone hcall hr hfresh.1 hfresh.2
          · simp at hs
    | _ => simp [hcall] at hs
  | store =>
    simp only [State.mainStep] at hs
    cases hcall : s.main with
    | call k a =>
      simp only [hcall] at hs hm
      cases hr : a.result with
      | none => simp [hr] at hs
      | some p =>
        simp only [hr] at hs
        by_cases hst : a.stored = true
        · simp [hst] at hs
        · rw [if_neg hst, Option.some.injEq] at hs
          subst hs
          have hsize : (s.table.children.set k p).length = numChildren := by
            rw [List.length_set]
            exact h.size
          exact h.main_move hnone (hidle hcall) (by simp [hcall]) hsize (afterAssign_ne k _)
            ((hm.stores h.size hr).after rfl)
    | _ => simp [hcall] at hs
  | poll timeUp =>
    simp only [State.mainStep] at hs
    by_cases hloop : s.main = .loop
    · simp only [hloop, if_true, Option.some.injEq] at hs
      cases timeUp with
      | false => exact hs ▸ h
      | true => exact hs ▸ h.timeUp hnone hloop
    · simp [hloop] at hs
  | _ => simp [State.mainStep] at hs

/-! ## Every run -/

theorem inv_sigint (h : Inv s) (hO : Orderly s .sigint) (hs : s.sigint = some s') : Inv s' := by
  unfold State.sigint at hs
  obtain ⟨hmid, hwhole⟩ := hO
  have hm := h.main
  unfold MainOk at hm
  by_cases hblock : s.main = .ended ∨ s.handler.isSome = true
  · simp [hblock] at hs
  · rw [if_neg hblock] at hs
    by_cases hstart : s.main = .start
    · rw [if_pos hstart, Option.some.injEq] at hs
      subst hs
      simp only [hstart] at hm
      refine ⟨h.size, h.pos, h.nodup, h.only, hm.1, fun he => absurd hm.1 he, fun q hq => ?_, fun he => absurd rfl he⟩
      simp [State.cleaning, hm.1] at hq
    · rw [if_neg hstart, Option.some.injEq] at hs
      subst hs
      have hset : s.Settled := by
        cases hcall : s.main with
        | start => exact absurd hcall hstart
        | call k a =>
          have ha : a = .fresh := by simpa [MainPc.midway, hcall] using hmid
          simp only [hcall, ha] at hm
          exact hm.settled
        | loop => simpa only [hcall] using hm
        | cleanup q => simpa only [hcall] using hm
        | ended => exact absurd (Or.inl hcall) hblock
      refine ⟨h.size, h.pos, h.nodup, h.only, ?_, fun _ => hset, fun q hq => ?_, fun _ _ => hwhole⟩
      · unfold MainOk
        cases hcall : s.main with
        | start => exact absurd hcall hstart
        | ended => exact absurd (Or.inl hcall) hblock
        | call k a =>
          simp only [hcall] at hm
          exact hm.keep rfl rfl
        | loop => exact hset
        | cleanup q => exact hset
      · simp only [State.cleaning, Option.some.injEq] at hq
        subst hq
        exact fun j c hj => ⟨hwhole c (List.mem_of_getElem? hj), fun hj0 => absurd hj0 (Nat.not_lt_zero j)⟩

theorem inv_init : Inv .init :=
  ⟨rfl, by simp [State.pids, State.init], by simp [State.pids, State.init], by simp [State.init], ⟨rfl, rfl, rfl⟩,
    fun he => absurd rfl he, fun q hq => by simp [State.cleaning, State.init] at hq, fun _ _ c hc => by simp [State.init] at hc⟩

theorem inv_reachable (h : restaurantMain.Reach Orderly s) : Inv s := by
  refine h.inv inv_init fun s l s' _ hI hO hs => ?_
  have hmain : ∀ l, (if s.handler = none then s.mainStep l else none) = some s' → Orderly s l → Inv s' := by
    intro l hs hO
    by_cases hnone : s.handler = none
    · rw [if_pos hnone] at hs
      exact inv_main hI hO hnone hs
    · simp [hnone] at hs
  cases l with
  | child j x => exact inv_child hI hO hs
  | sigint => exact inv_sigint hI hO hs
  | clean j =>
    obtain ⟨q, hq, hs⟩ := Option.bind_eq_some_iff.1 hs
    exact inv_cleanup hI hq hs
  | install => exact hmain _ hs hO
  | count => exact hmain _ hs hO
  | fork pid => exact hmain _ hs hO
  | store => exact hmain _ hs hO
  | poll timeUp => exact hmain _ hs hO

/-- **`cleanup_all` targets exactly the children**, in every run in which no `fork` fails and
`SIGINT` comes neither to a child before it ignores the signal, nor to the parent in the
middle of an assignment or after a child has been waited for. -/
theorem cleanup_exact (h : restaurantMain.Reach Orderly s) : s.Exact := by
  have hI := inv_reachable h
  refine ⟨fun i hq hi => ?_, hI.only, fun hq c hc => ?_⟩
  · have hset := hI.settled hq
    obtain ⟨c, hc, hpid⟩ := hset.child hi
    exact ⟨hI.entry_pos hset hi, c, List.mem_of_getElem? hc, hpid, (hI.clean _ hq i c hc).1⟩
  · obtain ⟨j, hj⟩ := List.getElem?_of_mem hc
    exact hI.clean _ hq j c hj

/-- An assignment in which `fork` returns `pid`. -/
def forks (pid : ℤ) : List Label := [.count, .fork (some pid), .store]

/-- Two children are forked, then `SIGINT` comes, and both are waited for. -/
def interrupted : List Label :=
  .install :: forks 10 ++ forks 11 ++ [.sigint, .clean 0, .clean 0, .clean 0, .child 0 .die, .clean 0, .child 1 .die,
    .clean 1, .clean 0]

theorem cleanup_exact_interrupted :
    (restaurantMain.after Orderly interrupted).cleaning = some .returned ∧
      (restaurantMain.after Orderly interrupted).Exact :=
  ⟨by decide +kernel, cleanup_exact (Sync.Trans.reach_after interrupted)⟩

/-- The first `fork` fails. -/
def failedFork : List Label := [.install, .count, .fork none, .store, .sigint]

/-- **A failed `fork` ends as `kill(-1, SIGTERM)`**, a signal to every process of the user. -/
theorem fork_failure_kills_all : ¬ ∀ s, restaurantMain.Reachable s → s.Exact := by
  intro h
  have hpos := ((h _ (Sync.Trans.reach_after failedFork)).target 0 (by decide +kernel) (by decide +kernel)).1
  exact absurd hpos (by decide +kernel)

end Cleanup
