import LinuxExercises.Spec.Restaurant
import LinuxExercises.Sync.Weight
import Mathlib.Tactic.SplitIfs
import Mathlib.Tactic.Set

/-!
# Tray safety of the restaurant

The invariant (`Inv`) links the two counting semaphores of a tray, its mutex, its
slots and the stages of all processes by three conservation laws:
* `mutex` plus the processes that scan the tray is 1;
* `empty` plus `full` plus the processes inside a visit is `TRAY_SIZE`;
* the occupied slots are `full` plus the dishes carried by processes inside a visit
  (`carries`: a chef after its write, a customer before it).

So a chef in its scan has an `EMPTY` slot in front of it, and a customer a dish
(`tray_safety`).
-/

namespace Restaurant

open Sync

variable {ι : Type*} {n : ℕ}

/-- A visit of a chef or of a customer: it gives the token the other kind takes, and
exchanges an `EMPTY` slot and a dish of the tray. -/
def Visit.Ok (v : Visit) : Prop :=
  (v.takes = .empty ∧ v.gives = .full ∧ v.finds = .EMPTY ∧ v.puts = v.side.food) ∨
    (v.takes = .full ∧ v.gives = .empty ∧ v.finds = v.side.food ∧ v.puts = .EMPTY)

theorem Kind.round_ok (κ : Kind) : κ.round.1.Ok ∧ ∀ v ∈ κ.round.2, v.Ok := by
  cases κ <;> simp [Kind.round, Visit.Ok, Restaurant.chefVegan, Restaurant.chefNonvegan,
    eatVeganOnce, eatNonveganOnce, Side.food]

theorem Side.food_ne (a : Side) : a.food ≠ .EMPTY := by cases a <;> simp [Side.food]

/-! ## What a process carries -/

/-- It holds the mutex of the tray. -/
def scanning (a : Side) (p : Proc) : ℕ :=
  if p.visit.side = a then
    match p.stage with
    | .scan _ | .postMutex _ => 1
    | _ => 0
  else 0

/-- It has taken a token of the tray and given none back yet. -/
def inside (a : Side) (p : Proc) : ℕ :=
  if p.visit.side = a then
    match p.stage with
    | .waitToken => 0
    | _ => 1
  else 0

/-- It answers for one dish of the tray: a chef that has put it there, a customer that
has its token but has not eaten yet. -/
def carries (a : Side) (p : Proc) : ℕ :=
  if p.visit.side = a then
    match p.visit.takes, p.stage with
    | .empty, .postMutex _ | .empty, .postToken _ => 1
    | .full, .waitMutex | .full, .scan _ => 1
    | _, _ => 0
  else 0

theorem carries_le_inside (a : Side) (p : Proc) : carries a p ≤ inside a p := by
  unfold carries inside
  split
  · cases p.visit.takes <;> cases p.stage <;> simp
  · exact le_rfl

/-- Away from its own tray, and before it takes a token, a process carries nothing. -/
theorem weights_zero {a : Side} {p : Proc} (h : p.visit.side = a → p.stage = .waitToken) :
    scanning a p = 0 ∧ inside a p = 0 ∧ carries a p = 0 := by
  unfold scanning inside carries
  by_cases ha : p.visit.side = a
  · rw [h ha]; cases p.visit.takes <;> simp
  · simp [ha]

/-! ## Slots -/

/-- A slot counts for the tray's dishes unless it is `EMPTY`. -/
def dish (f : Food) : ℕ := if f = .EMPTY then 0 else 1

theorem Tray.occupied_eq (t : Tray n) : t.occupied = total dish t.slots := by
  unfold Tray.occupied total dish
  rw [Finset.card_filter]
  exact Finset.sum_congr rfl fun k _ => by by_cases h : t.slots k = .EMPTY <;> simp [h]

/-- Writing one slot changes the number of occupied slots by the two dishes. -/
theorem Tray.occupied_write (t : Tray n) (k : Fin n) (f : Food) :
    (t.write k f).occupied + dish (t.slots k) = t.occupied + dish f := by
  rw [Tray.occupied_eq, Tray.occupied_eq]; exact total_update k f

theorem Tray.occupied_le (t : Tray n) : t.occupied ≤ n := by
  have := Finset.card_le_univ (Finset.univ.filter fun k => t.slots k ≠ .EMPTY)
  rwa [Fintype.card_fin] at this

/-- A tray that is not full has an `EMPTY` slot. -/
theorem Tray.exists_empty {t : Tray n} (h : t.occupied < n) : ∃ k, t.slots k = .EMPTY := by
  by_contra hne
  push Not at hne
  have : t.occupied = n := by
    unfold Tray.occupied; rw [Finset.filter_true_of_mem fun k _ => hne k]; simp
  omega

/-- A tray with a dish has a slot that is not `EMPTY`. -/
theorem Tray.exists_dish {t : Tray n} (h : 0 < t.occupied) : ∃ k, t.slots k ≠ .EMPTY := by
  obtain ⟨k, hk⟩ := Finset.card_pos.1 h
  exact ⟨k, (Finset.mem_filter.1 hk).2⟩

/-! ## The invariant -/

variable [Fintype ι]

/-- The invariant of the restaurant. -/
structure Inv (s : State ι n) : Prop where
  visit : ∀ i, (s.proc i).visit.Ok ∧ ∀ v ∈ (s.proc i).left, v.Ok
  mutex : ∀ a, (s.data a).mutex + total (scanning a) s.proc = 1
  tokens : ∀ a, (s.data a).empty + (s.data a).full + total (inside a) s.proc = n
  dishes : ∀ a, (s.data a).occupied = (s.data a).full + total (carries a) s.proc
  food : ∀ a k, (s.data a).slots k = .EMPTY ∨ (s.data a).slots k = a.food
  looked : ∀ i k, (s.proc i).stage = .scan k → ∀ j : Fin n, j.1 < k →
    (s.tray i).slots j ≠ (s.visit i).finds
  success : ∀ i, (s.proc i).stage ≠ .postMutex false ∧ (s.proc i).stage ≠ .postToken false

theorem inv_init (kind : ι → Kind) : Inv (State.init kind n) := by
  have hz (a : Side) (i : ι) := weights_zero (a := a) (p := (kind i).start) fun _ => rfl
  refine ⟨fun i => (kind i).round_ok, fun a => ?_, fun a => ?_, fun a => ?_, fun a k => Or.inl rfl,
    fun i k h => ?_, fun i => ⟨?_, ?_⟩⟩
  · simp only [State.init]
    rw [total_zero fun i => (hz a i).1]; rfl
  · simp only [State.init]
    rw [total_zero fun i => (hz a i).2.1]; rfl
  · simp only [State.init]
    rw [total_zero fun i => (hz a i).2.2]; simp [initSharedMemory, Tray.occupied]
  all_goals simp [State.init, Kind.start] at *

variable [DecidableEq ι]

/-- **What a scan looks for is ahead of it.** -/
theorem Inv.ahead {s : State ι n} (h : Inv s) {i : ι} {k : ℕ} (hi : (s.proc i).stage = .scan k) :
    ∃ j : Fin n, k ≤ j.1 ∧ (s.tray i).slots j = (s.visit i).finds := by
  set a := (s.visit i).side with ha
  have hside : (s.proc i).visit.side = a := rfl
  have hin : inside a (s.proc i) = 1 := by simp [inside, hside, hi]
  -- every other process carries at most what it is inside for
  have hcar := total_add_le (f := s.proc) (carries_le_inside a) i
  have htok := h.tokens a
  have hdish := h.dishes a
  have hex : ∃ j : Fin n, (s.tray i).slots j = (s.visit i).finds := by
    rcases (h.visit i).1 with ⟨h1, -, h3, -⟩ | ⟨h1, -, h3, -⟩
    · have hc : carries a (s.proc i) = 0 := by simp [carries, hside, hi, h1]
      rw [State.visit, h3]; exact Tray.exists_empty (by rw [State.tray, ← ha]; omega)
    · have hc : carries a (s.proc i) = 1 := by simp [carries, hside, hi, h1]
      have := le_total (w := carries a) (f := s.proc) i
      obtain ⟨j, hj⟩ := Tray.exists_dish (t := s.data a) (by omega)
      exact ⟨j, by rw [State.visit, h3]; exact (h.food a j).resolve_left hj⟩
  obtain ⟨j, hj⟩ := hex
  refine ⟨j, ?_, hj⟩
  by_contra hlt
  exact h.looked i k hi j (by omega) hj

/-- **A move of one process keeps the invariant** if it keeps the three conservation
laws of its tray, and changes slots only while the process scans. -/
theorem Inv.put {s : State ι n} (h : Inv s) {i : ι} {t : Tray n} {p : Proc}
    (hv : p.visit.Ok ∧ ∀ v ∈ p.left, v.Ok)
    (hp : p.visit.side = (s.visit i).side ∨ p.stage = .waitToken)
    (hm : t.mutex + scanning (s.visit i).side p = (s.tray i).mutex + scanning (s.visit i).side (s.proc i))
    (ht : t.empty + t.full + inside (s.visit i).side p =
      (s.tray i).empty + (s.tray i).full + inside (s.visit i).side (s.proc i))
    (hd : t.occupied + (s.tray i).full + carries (s.visit i).side (s.proc i) =
      (s.tray i).occupied + t.full + carries (s.visit i).side p)
    (hf : ∀ k, t.slots k = .EMPTY ∨ t.slots k = (s.visit i).side.food)
    (hs : t.slots = (s.tray i).slots ∨ scanning (s.visit i).side (s.proc i) = 1)
    (hl : ∀ k, p.stage = .scan k → p.visit = s.visit i ∧ ∀ j : Fin n, j.1 < k → t.slots j ≠ (s.visit i).finds)
    (hok : p.stage ≠ .postMutex false ∧ p.stage ≠ .postToken false) : Inv (s.put i t p) := by
  have hw (w : Side → Proc → ℕ) (b : Side) := total_update (w := w b) (f := s.proc) i p
  simp only [State.tray, State.visit] at *
  set a := (s.proc i).visit.side with ha
  -- on the other tray the process carries nothing, before and after
  have hz (b : Side) (hb : b ≠ a) := weights_zero (a := b) (p := s.proc i)
    fun h => absurd (ha.trans h).symm hb
  have hz' (b : Side) (hb : b ≠ a) := weights_zero (a := b) (p := p) fun h =>
    hp.resolve_left fun h' => hb (h.symm.trans h')
  refine ⟨fun j => ?_, fun b => ?_, fun b => ?_, fun b => ?_, fun b k => ?_, fun j k hj => ?_,
    fun j => ?_⟩
  · by_cases hj : j = i
    · subst hj; simpa [State.put] using hv
    · simpa [State.put, hj] using h.visit j
  · have := h.mutex b
    have hw := hw scanning b
    by_cases hb : b = a
    · subst hb; simp only [State.put, ← ha, Function.update_self]; omega
    · simp only [State.put, ← ha, Function.update_of_ne hb]
      have := (hz b hb).1; have := (hz' b hb).1; omega
  · have := h.tokens b
    have hw := hw inside b
    by_cases hb : b = a
    · subst hb; simp only [State.put, ← ha, Function.update_self]; omega
    · simp only [State.put, ← ha, Function.update_of_ne hb]
      have := (hz b hb).2.1; have := (hz' b hb).2.1; omega
  · have := h.dishes b
    have hw := hw carries b
    by_cases hb : b = a
    · subst hb; simp only [State.put, ← ha, Function.update_self]; omega
    · simp only [State.put, ← ha, Function.update_of_ne hb]
      have := (hz b hb).2.2; have := (hz' b hb).2.2; omega
  · by_cases hb : b = a
    · subst hb; simpa only [State.put, ← ha, Function.update_self] using hf k
    · simpa only [State.put, ← ha, Function.update_of_ne hb] using h.food b k
  · by_cases hji : j = i
    · subst hji
      simp only [State.put, State.tray, State.visit, Function.update_self] at hj ⊢
      obtain ⟨hpv, hpl⟩ := hl k hj
      rw [hpv, ← ha, Function.update_self]; exact hpl
    · simp only [State.put, State.tray, State.visit, Function.update_of_ne hji] at hj ⊢
      by_cases hb : (s.proc j).visit.side = a
      · rw [hb, ← ha, Function.update_self]
        rcases hs with hs | hs
        · rw [hs, ← hb]; exact h.looked j k hj
        · -- two processes would hold the mutex
          have hsj : scanning a (s.proc j) = 1 := by simp [scanning, hb, hj]
          have := h.mutex a
          exact absurd (eq_of_total_le_one (w := scanning a) (f := s.proc) (by omega) (i := j) (j := i)
            (by omega) (by omega)) hji
      · rw [← ha, Function.update_of_ne hb]; exact h.looked j k hj
  · by_cases hj : j = i
    · subst hj; simpa [State.put] using hok
    · simpa [State.put, hj] using h.success j

/-- Moving on after a visit: a visit of the kinds `main` forks, from its first stage. -/
theorem Proc.next_ok {κ : Kind} {p : Proc} (h : ∀ v ∈ p.left, v.Ok) :
    ((p.next κ).visit.Ok ∧ ∀ v ∈ (p.next κ).left, v.Ok) ∧ (p.next κ).stage = .waitToken := by
  unfold Proc.next
  cases hl : p.left with
  | nil => exact ⟨κ.round_ok, rfl⟩
  | cons v vs =>
    rw [hl] at h
    exact ⟨⟨h v List.mem_cons_self, fun u hu => h u (List.mem_cons_of_mem _ hu)⟩, rfl⟩

section Step

variable {s : State ι n} {i : ι}

/-- The slots of a tray after a semaphore operation. -/
@[simp] theorem Tray.setSem_slots (t : Tray n) (x : Tok) (v : ℕ) : (t.setSem x v).slots = t.slots := by
  cases x <;> rfl

@[simp] theorem Tray.setSem_mutex (t : Tray n) (x : Tok) (v : ℕ) : (t.setSem x v).mutex = t.mutex := by
  cases x <;> rfl

@[simp] theorem Tray.setSem_occupied (t : Tray n) (x : Tok) (v : ℕ) :
    (t.setSem x v).occupied = t.occupied := by cases x <;> rfl

/-- `sem_wait` on the counting semaphore of the tray. -/
theorem Inv.waitToken (h : Inv s) (hst : (s.proc i).stage = .waitToken)
    (hpos : 0 < (s.tray i).sem (s.visit i).takes) :
    Inv (s.put i ((s.tray i).setSem (s.visit i).takes ((s.tray i).sem (s.visit i).takes - 1))
      { s.proc i with stage := .waitMutex }) := by
  refine h.put (h.visit i) (Or.inl rfl) ?_ ?_ ?_ ?_ (Or.inl ?_) (fun k hk => by simp at hk) (by simp)
  · simp [scanning, hst]
  · cases htk : (s.visit i).takes <;> rw [htk] at hpos <;>
      simp only [Tray.sem, Tray.setSem, inside, hst, if_true] at hpos ⊢ <;> omega
  · rw [Tray.setSem_occupied]
    cases htk : (s.visit i).takes <;> rw [htk] at hpos <;>
      simp only [Tray.sem, Tray.setSem, carries, hst, htk, if_true] at hpos ⊢
    omega
  · simpa using h.food (s.visit i).side
  · simp

/-- `sem_wait` on the mutex of the tray. -/
theorem Inv.waitMutex (h : Inv s) (hst : (s.proc i).stage = .waitMutex) (hpos : 0 < (s.tray i).mutex) :
    Inv (s.put i { s.tray i with mutex := (s.tray i).mutex - 1 } { s.proc i with stage := .scan 0 }) := by
  refine h.put (h.visit i) (Or.inl rfl) ?_ ?_ ?_ (h.food _) (Or.inl rfl) (fun k hk => ?_) (by simp)
  · simp only [scanning, hst, if_true]; omega
  · simp [inside, hst]
  · simp only [carries, hst, if_true, Tray.occupied]; cases (s.proc i).visit.takes <;> rfl
  · simp only [Stage.scan.injEq] at hk; subst hk
    exact ⟨rfl, fun j hj => absurd hj (Nat.not_lt_zero _)⟩

/-- The scan finds its slot, and writes it. -/
theorem Inv.write (h : Inv s) {k : ℕ} (hk : k < n) (hst : (s.proc i).stage = .scan k)
    (hhit : (s.tray i).slots ⟨k, hk⟩ = (s.visit i).finds) :
    Inv (s.put i ((s.tray i).write ⟨k, hk⟩ (s.visit i).puts) { s.proc i with stage := .postMutex true }) := by
  have hocc := (s.tray i).occupied_write ⟨k, hk⟩ (s.visit i).puts
  have hne := Side.food_ne (s.visit i).side
  have hv := (h.visit i).1
  rw [hhit] at hocc
  refine h.put (h.visit i) (Or.inl rfl) ?_ ?_ ?_ (fun j => ?_) (Or.inr ?_) (fun k hk => by simp at hk) (by simp)
  · simp [scanning, hst, Tray.write]
  · simp [inside, hst, Tray.write]
  · rcases hv with ⟨h1, -, h3, h4⟩ | ⟨h1, -, h3, h4⟩ <;> rw [h3, h4] at hocc <;>
      simp only [dish, hne, if_true, if_false] at hocc <;>
      simp only [carries, hst, h1, h4, if_true] <;> simp only [Tray.write] at hocc ⊢ <;> omega
  · simp only [Tray.write]
    by_cases hj : j = ⟨k, hk⟩
    · rw [hj, Function.update_self]
      rcases hv with ⟨-, -, -, h4⟩ | ⟨-, -, -, h4⟩ <;> simp [h4]
    · rw [Function.update_of_ne hj]; exact h.food _ j
  · simp [scanning, hst]

/-- The scan passes a slot. -/
theorem Inv.pass (h : Inv s) {k : ℕ} (hk : k < n) (hst : (s.proc i).stage = .scan k)
    (hmiss : (s.tray i).slots ⟨k, hk⟩ ≠ (s.visit i).finds) :
    Inv (s.put i (s.tray i) { s.proc i with stage := .scan (k + 1) }) := by
  refine h.put (h.visit i) (Or.inl rfl) ?_ ?_ ?_ (h.food _) (Or.inl rfl) (fun j hj => ?_) (by simp)
  · simp [scanning, hst]
  · simp [inside, hst]
  · simp only [carries, hst, if_true]; cases (s.proc i).visit.takes <;> rfl
  · simp only [Stage.scan.injEq] at hj; subst hj
    refine ⟨rfl, fun j hj => ?_⟩
    rcases Nat.lt_succ_iff_lt_or_eq.1 hj with hlt | heq
    · exact h.looked i k hst j hlt
    · have : j = ⟨k, hk⟩ := Fin.ext heq
      rw [this]; exact hmiss

/-- `sem_post` on the mutex of the tray. -/
theorem Inv.postMutex (h : Inv s) {b : Bool} (hst : (s.proc i).stage = .postMutex b) :
    Inv (s.put i { s.tray i with mutex := (s.tray i).mutex + 1 }
      { s.proc i with stage := .postToken b }) := by
  have hb := (h.success i).1
  rw [hst] at hb
  refine h.put (h.visit i) (Or.inl rfl) ?_ ?_ ?_ (h.food _) (Or.inl rfl) (fun j hj => by simp at hj)
    (by simpa using hb)
  · simp only [scanning, hst, if_true]
  · simp [inside, hst]
  · simp only [carries, hst, if_true, Tray.occupied]; cases (s.proc i).visit.takes <;> rfl

/-- `sem_post` on the other counting semaphore, and on to the next visit. -/
theorem Inv.postToken (h : Inv s) {b : Bool} (κ : Kind) (hst : (s.proc i).stage = .postToken b) :
    Inv (s.put i ((s.tray i).setSem (s.visit i).gives ((s.tray i).sem (s.visit i).gives + 1))
      ((s.proc i).next κ)) := by
  obtain ⟨hv, hleft⟩ := h.visit i
  obtain ⟨hnext, hstage⟩ := Proc.next_ok (κ := κ) hleft
  obtain ⟨h1, h2, h3⟩ := weights_zero (a := (s.visit i).side) (p := (s.proc i).next κ) fun _ => hstage
  refine h.put hnext (Or.inr hstage) ?_ ?_ ?_ ?_ (Or.inl ?_) (fun k hk => by simp [hstage] at hk)
    (by simp [hstage])
  · rw [h1]; simp [scanning, hst]
  · rw [h2]
    cases hg : (s.visit i).gives <;>
      simp only [Tray.sem, Tray.setSem, inside, hst, if_true] <;> omega
  · rw [h3, Tray.setSem_occupied]
    rcases hv with ⟨ht, hg, -, -⟩ | ⟨ht, hg, -, -⟩
    · simp only [hg, Tray.sem, Tray.setSem, carries, hst, ht, if_true]; omega
    · simp only [hg, Tray.sem, Tray.setSem, carries, hst, ht, if_true]
  · simpa using h.food (s.visit i).side
  · simp

end Step

omit [DecidableEq ι] in
/-- Counting the dishes changes neither the trays nor the processes. -/
theorem Inv.tally {s : State ι n} (h : Inv s) (v : Visit) : Inv (s.tally v) := by
  unfold State.tally
  cases v.takes <;> exact ⟨h.visit, h.mutex, h.tokens, h.dishes, h.food, h.looked, h.success⟩

/-- **One step keeps the invariant.** -/
theorem inv_step {kind : ι → Kind} {s s' : State ι n} {i : ι} (h : Inv s)
    (hs : s.step kind i = some s') : Inv s' := by
  unfold State.step at hs
  cases hst : (s.proc i).stage <;> simp only [hst] at hs
  case waitToken =>
    split at hs <;> simp only [Option.some.injEq, reduceCtorEq] at hs
    subst hs; exact h.waitToken hst (by assumption)
  case waitMutex =>
    split at hs <;> simp only [Option.some.injEq, reduceCtorEq] at hs
    subst hs; exact h.waitMutex hst (by assumption)
  case scan k =>
    split at hs
    · rename_i hk
      split at hs <;> simp only [Option.some.injEq] at hs <;> subst hs
      · exact (h.write hk hst (by assumption)).tally _
      · exact h.pass hk hst (by assumption)
    · -- the scan cannot run past the last slot
      obtain ⟨j, hj, -⟩ := h.ahead hst
      omega
  case postMutex b => simp only [Option.some.injEq] at hs; subst hs; exact h.postMutex hst
  case postToken b => simp only [Option.some.injEq] at hs; subst hs; exact h.postToken _ hst

/-- The dishes on a tray are those added and not eaten. -/
def Balanced (s : State ι n) : Prop := ∀ a, s.added a = s.eaten a + (s.data a).occupied

omit [Fintype ι] in
/-- A step that leaves the number of occupied slots alone keeps the balance. -/
theorem Balanced.put {s : State ι n} (h : Balanced s) {i : ι} {t : Tray n} {p : Proc}
    (ht : t.occupied = (s.tray i).occupied) : Balanced (s.put i t p) := by
  intro a
  simp only [State.put]
  by_cases ha : a = (s.visit i).side
  · subst ha; rw [Function.update_self, ht]; exact h _
  · rw [Function.update_of_ne ha]; exact h a

/-- A write that exchanges an `EMPTY` slot and a dish is counted. -/
theorem Balanced.write {s : State ι n} (hi : Inv s) (h : Balanced s) {i : ι} {k : Fin n} {p : Proc}
    (hhit : (s.tray i).slots k = (s.visit i).finds) :
    Balanced ((s.put i ((s.tray i).write k (s.visit i).puts) p).tally (s.visit i)) := by
  have hocc := (s.tray i).occupied_write k (s.visit i).puts
  have hne := Side.food_ne (s.visit i).side
  have hbal := h (s.visit i).side
  rw [hhit] at hocc
  intro a
  rcases (hi.visit i).1 with ⟨h1, -, h3, h4⟩ | ⟨h1, -, h3, h4⟩ <;> rw [h3, h4] at hocc <;>
    simp only [dish, hne, if_true, if_false] at hocc <;> simp only [State.tally, h1, State.put, h4] <;>
    by_cases ha : a = (s.visit i).side
  · subst ha; rw [Function.update_self, Function.update_self]; simp only [State.tray] at hocc ⊢; omega
  · rw [Function.update_of_ne ha, Function.update_of_ne ha]; exact h a
  · subst ha; rw [Function.update_self, Function.update_self]; simp only [State.tray] at hocc ⊢; omega
  · rw [Function.update_of_ne ha, Function.update_of_ne ha]; exact h a

theorem balanced_step {kind : ι → Kind} {s s' : State ι n} {i : ι} (hi : Inv s) (h : Balanced s)
    (hs : s.step kind i = some s') : Balanced s' := by
  unfold State.step at hs
  cases hst : (s.proc i).stage <;> simp only [hst] at hs
  case waitToken =>
    split at hs <;> simp only [Option.some.injEq, reduceCtorEq] at hs
    subst hs; exact h.put (Tray.setSem_occupied _ _ _)
  case waitMutex =>
    split at hs <;> simp only [Option.some.injEq, reduceCtorEq] at hs
    subst hs; exact h.put rfl
  case scan k =>
    split at hs
    · split at hs <;> simp only [Option.some.injEq] at hs <;> subst hs
      · exact h.write hi (by assumption)
      · exact h.put rfl
    · simp only [Option.some.injEq] at hs; subst hs; exact h.put rfl
  case postMutex b => simp only [Option.some.injEq] at hs; subst hs; exact h.put rfl
  case postToken b =>
    simp only [Option.some.injEq] at hs; subst hs; exact h.put (Tray.setSem_occupied _ _ _)

/-- Every reachable state of the restaurant is balanced and meets the invariant. -/
theorem inv_reachable {kind : ι → Kind} {s : State ι n} (h : (restaurant kind n).Reachable s) :
    Inv s ∧ Balanced s := by
  refine h.inv (I := fun s => Inv s ∧ Balanced s) ⟨inv_init kind, fun a => ?_⟩
    fun s i s' _ hi _ hs => ⟨inv_step hi.1 hs, balanced_step hi.1 hi.2 hs⟩
  simp [restaurant, State.init, initSharedMemory, Tray.occupied]

/-- **Tray safety.** In every reachable state, for each tray: the dishes added minus
those eaten are the occupied slots, at most `TRAY_SIZE`; one process scans at a time;
a scan has a slot of the kind it looks for ahead of it; and no visit fails. -/
theorem tray_safety {kind : ι → Kind} {s : State ι n} (h : (restaurant kind n).Reachable s) (a : Side) :
    (s.added a = s.eaten a + (s.data a).occupied ∧ (s.data a).occupied ≤ n) ∧
      (∀ i j k l, (s.visit i).side = a → (s.visit j).side = a → (s.proc i).stage = .scan k →
        (s.proc j).stage = .scan l → i = j) ∧
      (∀ i k, (s.visit i).side = a → (s.proc i).stage = .scan k →
        ∃ m : Fin n, k ≤ m.1 ∧ (s.data a).slots m = (s.visit i).finds) ∧
      (∀ i, (s.proc i).stage ≠ .postMutex false ∧ (s.proc i).stage ≠ .postToken false) := by
  obtain ⟨hi, hb⟩ := inv_reachable h
  refine ⟨⟨hb a, Tray.occupied_le _⟩, fun i j k l hia hja hik hjl => ?_, fun i k hia hik => ?_, hi.success⟩
  · have hsi : scanning a (s.proc i) = 1 := by simp [scanning, hia, hik]
    have hsj : scanning a (s.proc j) = 1 := by simp [scanning, hja, hjl]
    have := hi.mutex a
    exact eq_of_total_le_one (w := scanning a) (f := s.proc) (by omega) (by omega) (by omega)
  · subst hia; exact hi.ahead hik

/-- A vegan chef and a vegan customer. -/
def chefAndCustomer (i : Fin 2) : Kind := if i = 0 then .chefVegan else .customerVegan

/-- The two processes of a small run. -/
def first : Fin 2 := 0

def second : Fin 2 := 1

/-- On a tray of one slot: the chef puts a dish, the customer takes it, the chef puts another. -/
def twoDishes : List (Fin 2) := [0, 0, 0, 0, 0, 1, 1, 1, 1, 1, 0, 0, 0]

theorem tray_safety_dish :
    ((restaurant chefAndCustomer 1).after Sync.Trans.Free twoDishes).added .vegan = 2 ∧
    ((restaurant chefAndCustomer 1).after Sync.Trans.Free twoDishes).added .vegan =
      ((restaurant chefAndCustomer 1).after Sync.Trans.Free twoDishes).eaten .vegan +
        (((restaurant chefAndCustomer 1).after Sync.Trans.Free twoDishes).data .vegan).occupied :=
  ⟨by decide +kernel, (tray_safety (Sync.Trans.reach_after twoDishes) .vegan).1.1⟩

end Restaurant
