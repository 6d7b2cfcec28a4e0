import LinuxExercises.Spec.RwLock
import Mathlib.Data.List.Count
import Mathlib.Tactic.Ring

/-!
# Readers and writers under the read-write lock

* `Inv`: the lock counts the threads inside, so a writer is alone; a value read inside stays
  the shared data; every line shows the data after the writers' lines before it.
* `progress`, `measure_step`: before the end some thread can move, and every move counts.
* `Can`: threads that take turns in any order can be run in that order.
* `output_iff`: **the program prints exactly the outputs in which readers and writers take
  turns and each thread has its lines**.
-/

namespace ReadWrite

open Sync RwLock

variable {R W N d : ℕ} {polite : Bool} {s s' : State R W} {k : Fin R ⊕ Fin W} {l : Label R W}

/-! ## What one step does -/

/-- The index of a thread among those of its role. -/
def index : Fin R ⊕ Fin W → ℕ
  | .inl k => k
  | .inr k => k

/-- The role of a thread. -/
def roleOf : Fin R ⊕ Fin W → Role
  | .inl _ => .read
  | .inr _ => .write

/-- The threads that `main` has created. -/
def MainPc.created : MainPc → Fin R ⊕ Fin W → Prop
  | .createRead n, .inl k => k < n
  | .createRead _, .inr _ => False
  | .createWrite _, .inl _ => True
  | .createWrite n, .inr k => k < n
  | .joinRead _, _ | .joinWrite _, _ | .destroy, _ | .ended, _ => True

/-- The threads that `main` has joined. -/
def MainPc.joined : MainPc → Fin R ⊕ Fin W → Prop
  | .createRead _, _ | .createWrite _, _ => False
  | .joinRead n, .inl k => k < n
  | .joinRead _, .inr _ => False
  | .joinWrite _, .inl _ => True
  | .joinWrite n, .inr k => k < n
  | .destroy, _ | .ended, _ => True

/-- What `main` can still do, with the steps of the threads that it still creates. -/
def MainPc.left (R W N : ℕ) : MainPc → ℕ
  | .createRead k => (R - k) * (7 * N + 2) + W * (7 * N + 2) + R + W + 5
  | .createWrite k => (W - k) * (7 * N + 2) + R + W + 4
  | .joinRead k => (R - k) + W + 3
  | .joinWrite k => (W - k) + 2
  | .destroy => 1
  | .ended => 0

inductive Move (N : ℕ) (s : State R W) : State R W → Prop where
  /-- `main` creates a thread. -/
  | create (k : Fin R ⊕ Fin W) (m : MainPc) : ¬ s.main.created k →
      (∀ j : Fin R ⊕ Fin W, m.created j ↔ s.main.created j ∨ j = k) → (∀ j : Fin R ⊕ Fin W, ¬ m.joined j) →
      m.left R W N + (7 * N + 2) ≤ s.main.left R W N → Move N s { s.set k ⟨.top, index k + 1, 0⟩ with main := m }
  /-- `main` leaves a loop, or joins a thread that has exited. -/
  | advance (m : MainPc) : (∀ j : Fin R ⊕ Fin W, m.created j ↔ s.main.created j) →
      (∀ j : Fin R ⊕ Fin W, m.joined j → s.main.joined j ∨ (s.thread j).pc = .exited) →
      m.left R W N < s.main.left R W N → Move N s { s with main := m }
  | enter (k : Fin R ⊕ Fin W) : (s.thread k).pc = .top → (s.thread k).i < N →
      Move N s (s.set k ⟨.lock, (s.thread k).id, (s.thread k).i⟩)
  | leave (k : Fin R ⊕ Fin W) : (s.thread k).pc = .top → ¬ (s.thread k).i < N →
      Move N s (s.set k ⟨.exited, (s.thread k).id, (s.thread k).i⟩)
  | rdlock (k : Fin R) (l : RwLock) : (s.thread (.inl k)).pc = .lock → s.rwlock.rdlock = some l →
      Move N s { s.set (.inl k) ⟨.load, (s.thread (.inl k)).id, (s.thread (.inl k)).i⟩ with rwlock := l }
  | wrlock (k : Fin W) (l : RwLock) : (s.thread (.inr k)).pc = .lock → s.rwlock.wrlock = some l →
      Move N s { s.set (.inr k) ⟨.fetch, (s.thread (.inr k)).id, (s.thread (.inr k)).i⟩ with rwlock := l }
  | fetch (k : Fin W) : (s.thread (.inr k)).pc = .fetch →
      Move N s (s.set (.inr k) ⟨.store s.sharedData, (s.thread (.inr k)).id, (s.thread (.inr k)).i⟩)
  | store (k : Fin W) (temp : ℕ) : (s.thread (.inr k)).pc = .store temp →
      Move N s { s.set (.inr k) ⟨.load, (s.thread (.inr k)).id, (s.thread (.inr k)).i⟩ with sharedData := temp + 1 }
  | load (k : Fin R ⊕ Fin W) : (s.thread k).pc = .load →
      Move N s (s.set k ⟨.print s.sharedData, (s.thread k).id, (s.thread k).i⟩)
  | print (k : Fin R ⊕ Fin W) (data : ℕ) : (s.thread k).pc = .print data →
      Move N s { s.set k ⟨.unlock, (s.thread k).id, (s.thread k).i⟩ with
        output := s.output ++ [⟨roleOf k, (s.thread k).id, data⟩] }
  | unlock (k : Fin R ⊕ Fin W) : (s.thread k).pc = .unlock →
      Move N s { s.set k ⟨.top, (s.thread k).id, (s.thread k).i + 1⟩ with rwlock := s.rwlock.unlock }

theorem common_move (h : s.common N (roleOf k) k = some s') : Move N s s' := by
  unfold State.common at h
  cases hpc : (s.thread k).pc with
  | top =>
    simp only [hpc, Option.some.injEq] at h
    subst h
    by_cases hi : (s.thread k).i < N
    · rw [if_pos hi]; exact .enter k hpc hi
    · rw [if_neg hi]; exact .leave k hpc hi
  | load =>
    simp only [hpc, Option.some.injEq] at h
    exact h ▸ .load k hpc
  | print data =>
    simp only [hpc, Option.some.injEq] at h
    exact h ▸ .print k data hpc
  | unlock =>
    simp only [hpc, Option.some.injEq] at h
    exact h ▸ .unlock k hpc
  | _ => simp [hpc] at h

theorem read_move {k : Fin R} (h : s.readFunction polite N k = some s') : Move N s s' := by
  unfold State.readFunction at h
  cases hpc : (s.thread (.inl k)).pc with
  | lock =>
    simp only [hpc] at h
    split at h
    · cases h
    · obtain ⟨l, hl, rfl⟩ := Option.map_eq_some_iff.1 h
      exact .rdlock k l hpc hl
  | _ =>
    simp only [hpc] at h
    exact common_move h

theorem write_move {k : Fin W} (h : s.writeFunction N k = some s') : Move N s s' := by
  unfold State.writeFunction at h
  cases hpc : (s.thread (.inr k)).pc with
  | lock =>
    simp only [hpc] at h
    obtain ⟨l, hl, rfl⟩ := Option.map_eq_some_iff.1 h
    exact .wrlock k l hpc hl
  | fetch =>
    simp only [hpc, Option.some.injEq] at h
    exact h ▸ .fetch k hpc
  | store temp =>
    simp only [hpc, Option.some.injEq] at h
    exact h ▸ .store k temp hpc
  | _ =>
    simp only [hpc] at h
    exact common_move h

theorem sub_mul_eq {n m c : ℕ} (h : n < m) : (m - n) * c = (m - (n + 1)) * c + c := by
  rw [← Nat.succ_mul]
  congr 1
  omega

theorem main_move (h : s.mainStep = some s') : Move N s s' := by
  unfold State.mainStep at h
  cases hpc : s.main with
  | createRead n =>
    simp only [hpc] at h
    split at h <;> obtain rfl := Option.some.inj h
    · rename_i hn
      refine .create (.inl ⟨n, hn⟩) (.createRead (n + 1)) ?_ (fun j => ?_) (fun _ => id) ?_
      · simp [hpc, MainPc.created]
      · rcases j with j | j
        · simp only [hpc, MainPc.created, Sum.inl.injEq, Fin.ext_iff]
          omega
        · simp [hpc, MainPc.created]
      · have := sub_mul_eq (c := 7 * N + 2) hn
        simp only [hpc, MainPc.left]
        omega
    · refine .advance _ (fun j => ?_) (fun j hj => hj.elim) ?_
      · rcases j with j | j
        · simp only [hpc, MainPc.created, true_iff]
          omega
        · simp [hpc, MainPc.created]
      · simp only [hpc, MainPc.left, Nat.sub_zero]
        omega
  | createWrite n =>
    simp only [hpc] at h
    split at h <;> obtain rfl := Option.some.inj h
    · rename_i hn
      refine .create (.inr ⟨n, hn⟩) (.createWrite (n + 1)) ?_ (fun j => ?_) (fun _ => id) ?_
      · simp [hpc, MainPc.created]
      · rcases j with j | j
        · simp [hpc, MainPc.created]
        · simp only [hpc, MainPc.created, Sum.inr.injEq, Fin.ext_iff]
          omega
      · have := sub_mul_eq (c := 7 * N + 2) hn
        simp only [hpc, MainPc.left]
        omega
    · refine .advance _ (fun j => ?_) (fun j hj => ?_) ?_
      · rcases j with j | j
        · simp [hpc, MainPc.created]
        · simp only [hpc, MainPc.created, true_iff]
          omega
      · rcases j with j | j
        · simp [MainPc.joined] at hj
        · exact hj.elim
      · simp only [hpc, MainPc.left, Nat.sub_zero]
        omega
  | joinRead n =>
    simp only [hpc] at h
    split at h
    · split at h <;> simp only [reduceCtorEq, Option.some.injEq] at h
      rename_i hn he
      subst h
      refine .advance _ (fun j => by simp [hpc, MainPc.created]) (fun j hj => ?_) ?_
      · rcases j with j | j
        · rcases Nat.lt_succ_iff_lt_or_eq.1 hj with hlt | heq
          · exact .inl (by simpa [hpc, MainPc.joined] using hlt)
          · obtain rfl : j = ⟨n, hn⟩ := Fin.ext heq
            exact .inr he
        · exact hj.elim
      · simp only [hpc, MainPc.left]
        omega
    · rename_i hn
      obtain rfl := Option.some.inj h
      refine .advance _ (fun j => by simp [hpc, MainPc.created]) (fun j hj => .inl ?_) ?_
      · rcases j with j | j
        · simp only [hpc, MainPc.joined]
          omega
        · simp [MainPc.joined] at hj
      · simp only [hpc, MainPc.left]
        omega
  | joinWrite n =>
    simp only [hpc] at h
    split at h
    · split at h <;> simp only [reduceCtorEq, Option.some.injEq] at h
      rename_i hn he
      subst h
      refine .advance _ (fun j => by simp [hpc, MainPc.created]) (fun j hj => ?_) ?_
      · rcases j with j | j
        · exact .inl (by simp [hpc, MainPc.joined])
        · rcases Nat.lt_succ_iff_lt_or_eq.1 hj with hlt | heq
          · exact .inl (by simpa [hpc, MainPc.joined] using hlt)
          · obtain rfl : j = ⟨n, hn⟩ := Fin.ext heq
            exact .inr he
      · simp only [hpc, MainPc.left]
        omega
    · rename_i hn
      obtain rfl := Option.some.inj h
      refine .advance _ (fun j => by simp [hpc, MainPc.created]) (fun j _ => .inl ?_) ?_
      · rcases j with j | j
        · simp [hpc, MainPc.joined]
        · simp only [hpc, MainPc.joined]
          omega
      · simp only [hpc, MainPc.left]
        omega
  | destroy =>
    simp only [hpc, Option.some.injEq] at h
    subst h
    refine .advance _ (fun j => by simp [hpc, MainPc.created]) (fun j _ => .inl ?_) ?_
    · simp [hpc, MainPc.joined]
    · simp [hpc, MainPc.left]
  | ended => simp [hpc] at h

theorem step_move (h : s.step polite N l = some s') : s.main ≠ .ended ∧ Move N s s' := by
  unfold State.step at h
  split at h
  · cases h
  rename_i hm
  refine ⟨hm, ?_⟩
  match l with
  | .main => exact main_move h
  | .thread (.inl _) => exact read_move h
  | .thread (.inr _) => exact write_move h

@[simp] theorem State.set_thread_self (s : State R W) (k : Fin R ⊕ Fin W) (θ : Thread) :
    (s.set k θ).thread k = θ := Function.update_self ..

@[simp] theorem State.set_thread_ne (s : State R W) {j k : Fin R ⊕ Fin W} (θ : Thread) (h : j ≠ k) :
    (s.set k θ).thread j = s.thread j := Function.update_of_ne h ..

/-! ## The invariant -/

/-- The thread waits for the lock or holds it. -/
def Pc.Busy (pc : Pc) : Prop := pc = .lock ∨ pc.Holds

/-- How a thread of this role holds the lock. -/
def Pc.mode (role : Role) : Pc → Mode
  | .fetch | .store _ | .load | .print _ | .unlock =>
    match role with
    | .read => .reading
    | .write => .writing
  | .unborn | .top | .lock | .exited => .out

/-- How each thread holds the lock. -/
def State.mode (s : State R W) : Fin R ⊕ Fin W → Mode := fun k => (s.thread k).pc.mode (roleOf k)

/-- The role and the place of each thread. -/
def State.places (s : State R W) : Fin R ⊕ Fin W → Role × Pc := fun k => (roleOf k, (s.thread k).pc)

/-- A writer has incremented the data and not printed it yet. -/
def ahead : Role × Pc → ℕ
  | (.write, .load) | (.write, .print _) => 1
  | _ => 0

/-- The writers' lines. -/
def writes (out : List Line) : ℕ := out.countP fun l => l.role = .write

/-- The lines of one thread. -/
def linesOf (k : Fin R ⊕ Fin W) (out : List Line) : ℕ := out.countP fun l => l.role = roleOf k ∧ l.id = index k + 1

/-- A value that the thread has read inside is the shared data `c`. -/
def Pc.Shows (c : ℕ) : Pc → Prop
  | .store temp => temp = c
  | .print data => data = c
  | _ => True

/-- What holds of thread `k` alone. -/
structure Thread.Ok (N : ℕ) (k : Fin R ⊕ Fin W) (θ : Thread) : Prop where
  bound : θ.i ≤ N
  busy : θ.pc.Busy → θ.i < N
  unborn : θ.pc = .unborn → θ.i = 0
  exited : θ.pc = .exited → θ.i = N
  id : θ.pc ≠ .unborn → θ.id = index k + 1
  read : roleOf k = .read → θ.pc ≠ .fetch ∧ ∀ temp, θ.pc ≠ .store temp

/-- The lines that a thread has printed. -/
def Thread.lines (θ : Thread) : ℕ := if θ.pc = .unlock then θ.i + 1 else θ.i

/-- **The lock counts the threads inside, and the output says what the data was.** -/
structure Inv (N d : ℕ) (s : State R W) : Prop where
  lock : Accounts s.mode s.rwlock
  threads : ∀ k, (s.thread k).Ok N k
  born : ∀ k, s.main.created k ↔ (s.thread k).pc ≠ .unborn
  joined : ∀ k, s.main.joined k → (s.thread k).pc = .exited
  values : ∀ k, (s.thread k).pc.Shows s.sharedData
  data : s.sharedData = d + writes s.output + total ahead s.places
  turns : TakeTurns d s.output
  lines : ∀ k, linesOf k s.output = (s.thread k).lines
  stray : ∀ l ∈ s.output, ∃ k : Fin R ⊕ Fin W, l.role = roleOf k ∧ l.id = index k + 1

theorem eq_of_owner {j k : Fin R ⊕ Fin W} (hr : roleOf j = roleOf k) (hi : index j = index k) : j = k := by
  rcases j with j | j <;> rcases k with k | k
  · exact congrArg Sum.inl (Fin.ext hi)
  · cases hr
  · cases hr
  · exact congrArg Sum.inr (Fin.ext hi)

theorem mode_set (s : State R W) (k : Fin R ⊕ Fin W) (θ : Thread) :
    (s.set k θ).mode = Function.update s.mode k (θ.pc.mode (roleOf k)) := by
  funext j
  by_cases hj : j = k
  · subst hj
    simp [State.mode]
  · simp [State.mode, hj]

theorem ahead_set (s : State R W) (k : Fin R ⊕ Fin W) (θ : Thread) :
    total ahead (s.set k θ).places + ahead (roleOf k, (s.thread k).pc) =
      total ahead s.places + ahead (roleOf k, θ.pc) := by
  have hplaces : (s.set k θ).places = Function.update s.places k (roleOf k, θ.pc) := by
    funext j
    by_cases hj : j = k
    · subst hj
      simp [State.places]
    · simp [State.places, hj]
  rw [hplaces]
  exact total_update k _

theorem mode_out {role : Role} {pc : Pc} : pc.mode role = .out ↔ ¬ pc.Holds := by
  cases role <;> cases pc <;> simp [Pc.mode, Pc.Holds]

theorem holds_of_shows {pc : Pc} (h : ¬ pc.Holds) (c : ℕ) : pc.Shows c := by
  cases pc <;> simp_all [Pc.Holds, Pc.Shows]

/-- Nobody is ahead unless a writer holds the lock. -/
theorem Inv.ahead_le (h : Inv N d s) : total ahead s.places ≤ s.rwlock.writer.toNat := by
  rw [← h.lock.writing]
  unfold total
  refine Finset.sum_le_sum fun k _ => ?_
  simp only [State.places, State.mode]
  cases roleOf k <;> cases (s.thread k).pc <;> simp [ahead, Pc.mode, Mode.writes]

theorem takeTurns_snoc {out : List Line} {l : Line} : TakeTurns d (out ++ [l]) ↔
    TakeTurns d out ∧ l.data = d + writes (out ++ [l]) := by
  induction out generalizing d with
  | nil => obtain ⟨role, id, data⟩ := l; cases role <;> simp [TakeTurns, writes]
  | cons m out ih =>
    obtain ⟨role, id, data⟩ := m
    cases role with
    | read =>
      simp only [List.cons_append, TakeTurns, ih, and_assoc]
      simp [writes]
    | write =>
      simp only [List.cons_append, TakeTurns, ih, and_assoc]
      have : writes (⟨.write, id, data⟩ :: (out ++ [l])) = writes (out ++ [l]) + 1 := by simp [writes]
      rw [this, Nat.add_assoc, Nat.add_comm 1]

/-- **A running thread moves.** -/
theorem Inv.turn {θ : Thread} {c : ℕ} {lock : RwLock} {out : List Line} (h : Inv N d s)
    (hu : (s.thread k).pc ≠ .unborn) (he : (s.thread k).pc ≠ .exited) (hθ : θ.Ok N k) (hu' : θ.pc ≠ .unborn)
    (hlock : Accounts (Function.update s.mode k (θ.pc.mode (roleOf k))) lock)
    (hshows : θ.pc.Shows c) (hothers : ∀ j ≠ k, (s.thread j).pc.Shows c)
    (hdata : c = d + writes out + total ahead (s.set k θ).places) (hturns : TakeTurns d out)
    (hlines : linesOf k out = θ.lines) (hlines' : ∀ j ≠ k, linesOf j out = linesOf j s.output)
    (hstray : ∀ l ∈ out, l ∈ s.output ∨ l.role = roleOf k ∧ l.id = index k + 1) :
    Inv N d { s.set k θ with sharedData := c, rwlock := lock, output := out } := by
  refine ⟨?_, fun j => ?_, fun j => ?_, fun j hj => ?_, fun j => ?_, hdata, hturns, fun j => ?_, fun l hl => ?_⟩
  · show Accounts (s.set k θ).mode lock
    rwa [mode_set]
  · show ((s.set k θ).thread j).Ok N j
    by_cases hjk : j = k
    · subst hjk
      rwa [State.set_thread_self]
    · rw [State.set_thread_ne s θ hjk]
      exact h.threads j
  · show s.main.created j ↔ ((s.set k θ).thread j).pc ≠ .unborn
    rw [h.born j]
    by_cases hjk : j = k
    · subst hjk
      rw [State.set_thread_self]
      exact iff_of_true hu hu'
    · rw [State.set_thread_ne s θ hjk]
  · show ((s.set k θ).thread j).pc = .exited
    have hne : j ≠ k := fun e => he (e ▸ h.joined j hj)
    rw [State.set_thread_ne s θ hne]
    exact h.joined j hj
  · show ((s.set k θ).thread j).pc.Shows c
    by_cases hjk : j = k
    · subst hjk
      rwa [State.set_thread_self]
    · rw [State.set_thread_ne s θ hjk]
      exact hothers j hjk
  · show linesOf j out = ((s.set k θ).thread j).lines
    by_cases hjk : j = k
    · subst hjk
      rwa [State.set_thread_self]
    · rw [State.set_thread_ne s θ hjk, hlines' j hjk]
      exact h.lines j
  · rcases hstray l hl with hold | hnew
    · exact h.stray l hold
    · exact ⟨k, hnew⟩

/-- A thread that keeps the lock as it has it, and prints nothing. -/
theorem Inv.goto {pc : Pc} (h : Inv N d s) (hu : (s.thread k).pc ≠ .unborn) (he : (s.thread k).pc ≠ .exited)
    (hmode : pc.mode (roleOf k) = (s.thread k).pc.mode (roleOf k))
    (hθ : Thread.Ok N k ⟨pc, (s.thread k).id, (s.thread k).i⟩) (hu' : pc ≠ .unborn) (hpc : pc ≠ .unlock)
    (hpc' : (s.thread k).pc ≠ .unlock) (hshows : pc.Shows s.sharedData)
    (hahead : ahead (roleOf k, pc) = ahead (roleOf k, (s.thread k).pc)) :
    Inv N d (s.set k ⟨pc, (s.thread k).id, (s.thread k).i⟩) := by
  refine h.turn hu he hθ hu' ?_ hshows (fun j _ => h.values j) ?_ h.turns ?_ (fun _ _ => rfl) fun l hl => .inl hl
  · have hkeep : Function.update s.mode k (pc.mode (roleOf k)) = s.mode := by
      rw [hmode]
      exact Function.update_eq_self ..
    rw [hkeep]
    exact h.lock
  · have := ahead_set s k ⟨pc, (s.thread k).id, (s.thread k).i⟩
    have := h.data
    simp only at *
    omega
  · rw [h.lines k]
    unfold Thread.lines
    rw [if_neg hpc, if_neg hpc']

/-- A thread that goes on with its iteration. -/
theorem Thread.Ok.go {θ : Thread} (pc : Pc) (h : θ.Ok N k) (hθ : θ.pc.Busy) (hpc : pc.Busy)
    (hread : roleOf k = .read → pc ≠ .fetch ∧ ∀ temp, pc ≠ .store temp) : Thread.Ok N k ⟨pc, θ.id, θ.i⟩ := by
  have hu : θ.pc ≠ .unborn := by
    rintro hu
    simp [hu, Pc.Busy, Pc.Holds] at hθ
  refine ⟨h.bound, fun _ => h.busy hθ, ?_, ?_, fun _ => h.id hu, hread⟩
  · rintro rfl
    simp [Pc.Busy, Pc.Holds] at hpc
  · rintro rfl
    simp [Pc.Busy, Pc.Holds] at hpc

/-- A thread takes the lock. -/
theorem Inv.take {pc : Pc} {lock : RwLock} (h : Inv N d s) (hk : (s.thread k).pc = .lock) (hpc : pc.Holds)
    (hread : roleOf k = .read → pc ≠ .fetch ∧ ∀ temp, pc ≠ .store temp) (hun : pc ≠ .unlock)
    (hlock : Accounts (Function.update s.mode k (pc.mode (roleOf k))) lock) (hshows : pc.Shows s.sharedData)
    (hzero : ahead (roleOf k, pc) = 0) :
    Inv N d { s.set k ⟨pc, (s.thread k).id, (s.thread k).i⟩ with rwlock := lock } := by
  have hbusy : (s.thread k).pc.Busy := .inl hk
  have hu : pc ≠ .unborn := by
    rintro rfl
    exact hpc
  refine h.turn (by simp [hk]) (by simp [hk]) ((h.threads k).go _ hbusy (.inr hpc) hread) hu hlock hshows
    (fun j _ => h.values j) ?_ h.turns ?_ (fun _ _ => rfl) fun l hl => .inl hl
  · have hahead := ahead_set s k ⟨pc, (s.thread k).id, (s.thread k).i⟩
    have hlocked : ahead (roleOf k, .lock) = 0 := by cases roleOf k <;> rfl
    have := h.data
    rw [hk] at hahead
    simp only [hzero, hlocked] at hahead
    show s.sharedData = d + writes s.output + _
    omega
  · show linesOf k s.output = _
    rw [h.lines k]
    unfold Thread.lines
    rw [if_neg hun, if_neg (by simp [hk])]

/-- Beside a writer inside nobody has read a value. -/
theorem Inv.alone {k : Fin W} (h : Inv N d s) (hk : (s.thread (.inr k)).pc.Holds) {j : Fin R ⊕ Fin W}
    (hj : j ≠ .inr k) : ¬ (s.thread j).pc.Holds := by
  have hw : s.mode (.inr k) = .writing := by
    show (s.thread (.inr k)).pc.mode .write = .writing
    cases hpc : (s.thread (.inr k)).pc <;> simp [hpc, Pc.Holds] at hk <;> rfl
  intro hin
  refine hj (h.lock.alone hw ?_)
  show (s.thread j).pc.mode (roleOf j) ≠ .out
  exact fun hout => mode_out.1 hout hin

theorem inv_init : Inv N d (State.init d : State R W) := by
  have hplaces : total ahead (State.init d : State R W).places = 0 := by
    refine total_zero fun k => ?_
    cases k <;> rfl
  refine ⟨accounts_free fun k => ?_, fun k => ?_, fun k => ?_, fun k hk => hk.elim, fun _ => trivial, ?_, trivial,
    fun k => rfl, nofun⟩
  · cases k <;> rfl
  · refine ⟨Nat.zero_le _, ?_, fun _ => rfl, nofun, fun h => absurd rfl h, fun _ => ⟨nofun, nofun⟩⟩
    rintro (h | h)
    · cases h
    · exact h.elim
  · refine iff_of_false ?_ fun h => h rfl
    cases k <;> simp [State.init, MainPc.created]
  · rw [hplaces]
    rfl

theorem linesOf_cons (j k : Fin R ⊕ Fin W) (out : List Line) (data : ℕ) :
    linesOf j (⟨roleOf k, index k + 1, data⟩ :: out) = linesOf j out + if j = k then 1 else 0 := by
  have hiff : (roleOf k = roleOf j ∧ index k + 1 = index j + 1) ↔ j = k := by
    constructor
    · intro h
      exact eq_of_owner h.1.symm (by omega)
    · rintro rfl
      exact ⟨rfl, rfl⟩
  simp only [linesOf, List.countP_cons, hiff, decide_eq_true_eq]

theorem linesOf_snoc (j k : Fin R ⊕ Fin W) (out : List Line) (data : ℕ) :
    linesOf j (out ++ [⟨roleOf k, index k + 1, data⟩]) = linesOf j out + if j = k then 1 else 0 := by
  have := linesOf_cons j k [] data
  simp only [linesOf, List.countP_append, List.countP_nil, Nat.zero_add] at this ⊢
  rw [this]

theorem inv_step (h : Inv N d s) (hs : s.step polite N l = some s') : Inv N d s' := by
  cases (step_move hs).2 with
  | create k m hnot hcreated hjoined _ =>
    have hborn : (s.thread k).pc = .unborn := by
      by_contra hne
      exact hnot ((h.born k).2 hne)
    have hi := (h.threads k).unborn hborn
    have hmode : Function.update s.mode k .out = s.mode := by
      have : s.mode k = .out := mode_out.2 (by rw [hborn]; exact not_false)
      rw [← this]
      exact Function.update_eq_self ..
    have hahead := ahead_set s k ⟨.top, index k + 1, 0⟩
    refine ⟨?_, fun j => ?_, fun j => ?_, fun j hj => absurd hj (hjoined j), fun j => ?_, ?_, h.turns, fun j => ?_,
      h.stray⟩
    · show Accounts (s.set k ⟨.top, index k + 1, 0⟩).mode s.rwlock
      rw [mode_set]
      exact hmode.symm ▸ h.lock
    · show ((s.set k ⟨.top, index k + 1, 0⟩).thread j).Ok N j
      by_cases hjk : j = k
      · subst hjk
        rw [State.set_thread_self]
        exact ⟨Nat.zero_le _, by simp [Pc.Busy, Pc.Holds], by simp, by simp, fun _ => rfl, by simp⟩
      · rw [State.set_thread_ne s _ hjk]
        exact h.threads j
    · rw [hcreated j, h.born j]
      by_cases hjk : j = k
      · subst hjk
        simp
      · simp [hjk]
    · show ((s.set k ⟨.top, index k + 1, 0⟩).thread j).pc.Shows s.sharedData
      by_cases hjk : j = k
      · subst hjk
        rw [State.set_thread_self]
        trivial
      · rw [State.set_thread_ne s _ hjk]
        exact h.values j
    · show s.sharedData = d + writes s.output + total ahead (s.set k ⟨.top, index k + 1, 0⟩).places
      rw [hborn] at hahead
      have hzero : ahead (roleOf k, .unborn) = 0 ∧ ahead (roleOf k, .top) = 0 := by
        cases roleOf k <;> exact ⟨rfl, rfl⟩
      have := h.data
      simp only [hzero.1, hzero.2] at hahead
      omega
    · show linesOf j s.output = ((s.set k ⟨.top, index k + 1, 0⟩).thread j).lines
      by_cases hjk : j = k
      · subst hjk
        rw [State.set_thread_self, h.lines j]
        simp [Thread.lines, hborn, hi]
      · rw [State.set_thread_ne s _ hjk]
        exact h.lines j
  | advance m hcreated hjoined _ =>
    refine ⟨h.lock, h.threads, fun j => (hcreated j).trans (h.born j), fun j hj => ?_, h.values, h.data, h.turns,
      h.lines, h.stray⟩
    rcases hjoined j hj with hold | he
    · exact h.joined j hold
    · exact he
  | enter k hpc hi =>
    refine h.goto (by simp [hpc]) (by simp [hpc]) (by simp [hpc, Pc.mode]) ?_ (by simp) (by simp) (by simp [hpc]) trivial ?_
    · exact ⟨hi.le, fun _ => hi, by simp, by simp, fun _ => (h.threads k).id (by simp [hpc]), by simp⟩
    · rw [hpc]
      cases roleOf k <;> rfl
  | leave k hpc hi =>
    have hb := (h.threads k).bound
    refine h.goto (by simp [hpc]) (by simp [hpc]) (by simp [hpc, Pc.mode]) ?_ (by simp) (by simp) (by simp [hpc]) trivial ?_
    · exact ⟨hb, by simp [Pc.Busy, Pc.Holds], by simp, fun _ => le_antisymm hb (not_lt.1 hi),
        fun _ => (h.threads k).id (by simp [hpc]), by simp⟩
    · rw [hpc]
      cases roleOf k <;> rfl
  | rdlock k l hpc hl =>
    have hout : s.mode (.inl k) = .out := mode_out.2 (by simp [hpc, Pc.Holds])
    exact h.take hpc trivial (by simp) (by simp) (h.lock.rdlock hout hl) trivial rfl
  | wrlock k l hpc hl =>
    have hout : s.mode (.inr k) = .out := mode_out.2 (by simp [hpc, Pc.Holds])
    exact h.take hpc trivial (by simp [roleOf]) (by simp) (h.lock.wrlock hout hl) trivial rfl
  | fetch k hpc =>
    have hok := (h.threads (.inr k)).go (.store s.sharedData) (.inr (by rw [hpc]; trivial)) (.inr trivial)
      (by simp [roleOf])
    exact h.goto (by simp [hpc]) (by simp [hpc]) (by simp [hpc, Pc.mode]) hok (by simp) (by simp) (by simp [hpc]) rfl
      (by simp [hpc, ahead])
  | store k temp hpc =>
    have hin : (s.thread (.inr k)).pc.Holds := by
      rw [hpc]
      trivial
    have htemp : temp = s.sharedData := by
      have := h.values (.inr k)
      rwa [hpc] at this
    have hok := (h.threads (.inr k)).go .load (.inr hin) (.inr trivial) (by simp)
    refine h.turn (by simp [hpc]) (by simp [hpc]) hok (by simp) ?_ trivial (fun j hj => ?_) ?_ h.turns ?_
      (fun _ _ => rfl) fun l hl => .inl hl
    · have hkeep : Function.update s.mode (.inr k) (Pc.mode (roleOf (.inr k : Fin R ⊕ Fin W)) .load) = s.mode := by
        have : s.mode (.inr k) = Pc.mode (roleOf (.inr k : Fin R ⊕ Fin W)) .load := by simp [State.mode, hpc, Pc.mode]
        rw [← this]
        exact Function.update_eq_self ..
      rw [hkeep]
      exact h.lock
    · exact holds_of_shows (h.alone hin hj) _
    · -- the writer is ahead of the output now
      have hahead := ahead_set s (.inr k) ⟨.load, (s.thread (.inr k)).id, (s.thread (.inr k)).i⟩
      have := h.data
      simp only [hpc, roleOf, ahead] at hahead
      show temp + 1 = d + writes s.output + _
      omega
    · show linesOf _ s.output = _
      rw [h.lines]
      simp [Thread.lines, hpc]
  | load k hpc =>
    have hok := (h.threads k).go (.print s.sharedData) (.inr (by rw [hpc]; trivial)) (.inr trivial) (by simp)
    refine h.goto (by simp [hpc]) (by simp [hpc]) (by simp [hpc, Pc.mode]) hok (by simp) (by simp) (by simp [hpc]) rfl ?_
    rw [hpc]
    cases roleOf k <;> rfl
  | print k data hpc =>
    have hid := (h.threads k).id (by simp [hpc])
    have hdata : data = s.sharedData := by
      have := h.values k
      rwa [hpc] at this
    have hok := (h.threads k).go .unlock (.inr (by rw [hpc]; trivial)) (.inr trivial) (by simp)
    have hahead := ahead_set s k ⟨.unlock, (s.thread k).id, (s.thread k).i⟩
    have hle := h.ahead_le
    have hnow := h.data
    -- the line is one of a writer exactly if the thread was ahead
    have hwrites : s.sharedData = d + writes (s.output ++ [⟨roleOf k, index k + 1, data⟩]) ∧
        total ahead (s.set k ⟨.unlock, (s.thread k).id, (s.thread k).i⟩).places = 0 := by
      rcases k with k | k
      · have hreading : s.mode (.inl k) = .reading := by simp [State.mode, hpc, Pc.mode, roleOf]
        rw [h.lock.writer_eq hreading] at hle
        simp only [hpc, roleOf, ahead, Bool.toNat_false] at hahead hle
        simp only [writes, roleOf, List.countP_append, List.countP_singleton] at hnow ⊢
        simp only [reduceCtorEq, decide_false, Bool.false_eq_true, if_false]
        omega
      · have hone := s.rwlock.writer.toNat_le
        simp only [hpc, roleOf, ahead] at hahead
        simp only [writes, roleOf, List.countP_append, List.countP_singleton] at hnow ⊢
        simp only [decide_true, if_true]
        omega
    rw [hid]
    rw [hid] at hwrites hok
    refine h.turn (by simp [hpc]) (by simp [hpc]) hok (by simp) ?_ trivial (fun j _ => h.values j) ?_
      (takeTurns_snoc.2 ⟨h.turns, hdata.trans hwrites.1⟩) ?_ (fun j hj => ?_) fun l hl => ?_
    · have hkeep : Function.update s.mode k (Pc.mode (roleOf k) .unlock) = s.mode := by
        have : s.mode k = Pc.mode (roleOf k) .unlock := by simp [State.mode, hpc, Pc.mode]
        rw [← this]
        exact Function.update_eq_self ..
      rw [hkeep]
      exact h.lock
    · rw [hwrites.2]
      exact hwrites.1
    · rw [linesOf_snoc, h.lines k]
      simp [Thread.lines, hpc]
    · rw [linesOf_snoc, if_neg hj, Nat.add_zero]
    · rcases List.mem_append.1 hl with hold | hnew
      · exact .inl hold
      · obtain rfl := List.mem_singleton.1 hnew
        exact .inr ⟨rfl, rfl⟩
  | unlock k hpc =>
    have hin : (s.thread k).pc.Holds := by
      rw [hpc]
      trivial
    have hi := (h.threads k).busy (.inr hin)
    refine h.turn (by simp [hpc]) (by simp [hpc]) ?_ (by simp) ?_ trivial (fun j _ => h.values j) ?_ h.turns ?_
      (fun _ _ => rfl) fun l hl => .inl hl
    · exact ⟨hi, by simp [Pc.Busy, Pc.Holds], by simp, by simp, fun _ => (h.threads k).id (by simp [hpc]), by simp⟩
    · exact h.lock.unlock fun hout => mode_out.1 hout hin
    · have hahead := ahead_set s k ⟨.top, (s.thread k).id, (s.thread k).i + 1⟩
      have hzero : ahead (roleOf k, .unlock) = 0 ∧ ahead (roleOf k, .top) = 0 := by
        cases roleOf k <;> exact ⟨rfl, rfl⟩
      have := h.data
      simp only [hpc, hzero.1, hzero.2] at hahead
      show s.sharedData = d + writes s.output + _
      omega
    · show linesOf k s.output = _
      rw [h.lines k]
      simp [Thread.lines, hpc]

theorem inv_reach (h : (rwLock polite R W N d).Reachable s) : Inv N d s :=
  h.inv inv_init fun _ _ _ _ hi _ hs => inv_step hi hs

/-! ## The program ends -/

/-- The steps that a thread has left. -/
def Thread.left (N : ℕ) (θ : Thread) : ℕ :=
  match θ.pc with
  | .unborn | .exited => 0
  | .top => 7 * (N - θ.i) + 1
  | .lock => 7 * (N - (θ.i + 1)) + 7
  | .fetch => 7 * (N - (θ.i + 1)) + 6
  | .store _ => 7 * (N - (θ.i + 1)) + 5
  | .load => 7 * (N - (θ.i + 1)) + 4
  | .print _ => 7 * (N - (θ.i + 1)) + 3
  | .unlock => 7 * (N - (θ.i + 1)) + 2

/-- The steps that are left. -/
def measure (N : ℕ) (s : State R W) : ℕ := s.main.left R W N + total (Thread.left N) s.thread

theorem left_set (s : State R W) (k : Fin R ⊕ Fin W) (θ : Thread) :
    total (Thread.left N) (s.set k θ).thread + (s.thread k).left N = total (Thread.left N) s.thread + θ.left N :=
  total_update k θ

theorem measure_set (k : Fin R ⊕ Fin W) {θ : Thread} (hmain : s'.main = s.main)
    (hthread : s'.thread = (s.set k θ).thread) (h : θ.left N < (s.thread k).left N) : measure N s' < measure N s := by
  have := left_set (N := N) s k θ
  unfold measure
  rw [hmain, hthread]
  omega

theorem measure_step (s : State R W) (l : Label R W) (s' : State R W) (h : s.step polite N l = some s') :
    measure N s' < measure N s := by
  cases (step_move h).2 with
  | create k m _ _ _ hm =>
    have := left_set (N := N) s k ⟨.top, index k + 1, 0⟩
    unfold measure
    simp only [Thread.left, Nat.sub_zero] at this ⊢
    omega
  | advance m _ _ hm => exact Nat.add_lt_add_right hm _
  | enter k hpc hi =>
    refine measure_set k rfl rfl ?_
    simp only [Thread.left, hpc]
    omega
  | leave k hpc hi => exact measure_set k rfl rfl (by simp [Thread.left, hpc])
  | rdlock k l hpc _ => exact measure_set (.inl k) rfl rfl (by simp [Thread.left, hpc])
  | wrlock k l hpc _ => exact measure_set (.inr k) rfl rfl (by simp [Thread.left, hpc])
  | fetch k hpc => exact measure_set (.inr k) rfl rfl (by simp [Thread.left, hpc])
  | store k temp hpc => exact measure_set (.inr k) rfl rfl (by simp [Thread.left, hpc])
  | load k hpc => exact measure_set k rfl rfl (by simp [Thread.left, hpc])
  | print k data hpc => exact measure_set k rfl rfl (by simp [Thread.left, hpc])
  | unlock k hpc => exact measure_set k rfl rfl (by simp [Thread.left, hpc])

/-- The thread can move. -/
def State.Moves (polite : Bool) (N : ℕ) (s : State R W) (l : Label R W) : Prop := ∃ s', s.step polite N l = some s'

/-- A thread that is neither blocked nor over can move. -/
theorem moves_thread (hI : Inv N d s) (hm : s.main ≠ .ended) (h : (s.thread k).pc = .top ∨ (s.thread k).pc.Holds) :
    s.Moves polite N (.thread k) := by
  have hread := (hI.threads k).read
  unfold State.Moves State.step
  rw [if_neg hm]
  rcases k with k | k
  · have hread := hread rfl
    show ∃ s', s.readFunction polite N k = some s'
    unfold State.readFunction State.common
    cases hpc : (s.thread (.inl k)).pc <;> simp_all [Pc.Holds]
  · show ∃ s', s.writeFunction N k = some s'
    unfold State.writeFunction State.common
    cases hpc : (s.thread (.inr k)).pc <;> simp_all [Pc.Holds]

/-- A thread that waits for the lock can move if nobody holds it, or else a writer can. -/
theorem moves_lock (hm : s.main ≠ .ended) (hfree : s.rwlock = .free) (h : (s.thread k).pc = .lock) :
    ∃ j, s.Moves polite N (.thread j) := by
  have hwriter (j : Fin W) (hj : (s.thread (.inr j)).pc = .lock) : s.Moves polite N (.thread (.inr j)) := by
    unfold State.Moves State.step
    rw [if_neg hm]
    show ∃ s', s.writeFunction N j = some s'
    unfold State.writeFunction
    simp only [hj, hfree]
    exact ⟨_, rfl⟩
  rcases k with k | k
  · by_cases hw : polite = true ∧ s.WriterWaits
    · obtain ⟨j, hj⟩ := hw.2
      exact ⟨.inr j, hwriter j hj⟩
    · refine ⟨.inl k, ?_⟩
      unfold State.Moves State.step
      rw [if_neg hm]
      show ∃ s', s.readFunction polite N k = some s'
      unfold State.readFunction
      simp only [h, hfree, if_neg hw]
      exact ⟨_, rfl⟩
  · exact ⟨.inr k, hwriter k h⟩

/-- **A thread that `main` waits for, or one in its way, can move.** -/
theorem moves_awaited (polite : Bool) (hI : Inv N d s) (hm : s.main ≠ .ended) (hk : s.main.created k) (he : (s.thread k).pc ≠ .exited) :
    ∃ j, s.Moves polite N (.thread j) := by
  by_cases hin : ∃ j, (s.thread j).pc.Holds
  · obtain ⟨j, hj⟩ := hin
    exact ⟨j, moves_thread hI hm (.inr hj)⟩
  · have hfree := hI.lock.eq_free fun j => mode_out.2 fun hj => hin ⟨j, hj⟩
    have hu := (hI.born k).1 hk
    cases hpc : (s.thread k).pc with
    | unborn => exact absurd hpc hu
    | exited => exact absurd hpc he
    | top => exact ⟨k, moves_thread hI hm (.inl hpc)⟩
    | lock => exact moves_lock hm hfree hpc
    | _ => exact absurd ⟨k, by rw [hpc]; trivial⟩ hin

/-- **Before the end somebody can move.** -/
theorem progress (polite : Bool) (hI : Inv N d s) (hm : s.main ≠ .ended) : ∃ l, s.Moves polite N l := by
  have hmain (h : ∃ s', s.mainStep = some s') : ∃ l, s.Moves polite N l := by
    obtain ⟨s', hs'⟩ := h
    refine ⟨.main, s', ?_⟩
    unfold State.step
    rw [if_neg hm]
    exact hs'
  have hwait {k : Fin R ⊕ Fin W} (hk : s.main.created k) (he : (s.thread k).pc ≠ .exited) : ∃ l, s.Moves polite N l := by
    obtain ⟨j, hj⟩ := moves_awaited polite hI hm hk he
    exact ⟨_, hj⟩
  cases hpc : s.main with
  | createRead n => exact hmain (by unfold State.mainStep; simp only [hpc]; split <;> exact ⟨_, rfl⟩)
  | createWrite n => exact hmain (by unfold State.mainStep; simp only [hpc]; split <;> exact ⟨_, rfl⟩)
  | joinRead n =>
    by_cases hw : ∃ h : n < R, (s.thread (.inl ⟨n, h⟩)).pc ≠ .exited
    · obtain ⟨hn, he⟩ := hw
      exact hwait (by rw [hpc]; trivial) he
    · refine hmain ?_
      unfold State.mainStep
      simp only [hpc]
      split
      · rename_i hn
        rw [if_pos (not_not.1 fun he => hw ⟨hn, he⟩)]
        exact ⟨_, rfl⟩
      · exact ⟨_, rfl⟩
  | joinWrite n =>
    by_cases hw : ∃ h : n < W, (s.thread (.inr ⟨n, h⟩)).pc ≠ .exited
    · obtain ⟨hn, he⟩ := hw
      exact hwait (by rw [hpc]; trivial) he
    · refine hmain ?_
      unfold State.mainStep
      simp only [hpc]
      split
      · rename_i hn
        rw [if_pos (not_not.1 fun he => hw ⟨hn, he⟩)]
        exact ⟨_, rfl⟩
      · exact ⟨_, rfl⟩
  | destroy => exact hmain (by unfold State.mainStep; rw [hpc]; exact ⟨_, rfl⟩)
  | ended => exact absurd hpc hm

/-! ## Every order of turns can happen -/

variable {n : Fin R ⊕ Fin W → ℕ} {c : ℕ} {out : List Line}

/-- With all threads created and outside, the program can get to these numbers of iterations,
these data and this output. -/
def Can (polite : Bool) (N d : ℕ) (n : Fin R ⊕ Fin W → ℕ) (c : ℕ) (out : List Line) : Prop :=
  (rwLock polite R W N d).Reachable ⟨c, .free, fun k => ⟨.top, index k + 1, n k⟩, .joinRead 0, out⟩

/-- The threads as `main` leaves them when it has got this far. -/
def born (m : MainPc) [DecidablePred (m.created (R := R) (W := W))] : Fin R ⊕ Fin W → Thread :=
  fun k => if m.created k then ⟨.top, index k + 1, 0⟩ else ⟨.unborn, 0, 0⟩

theorem born_create {m m' : MainPc} [DecidablePred (m.created (R := R) (W := W))]
    [DecidablePred (m'.created (R := R) (W := W))] (h : ∀ j, m'.created j ↔ m.created j ∨ j = k) :
    Function.update (born m) k ⟨.top, index k + 1, 0⟩ = born m' := by
  funext j
  by_cases hj : j = k
  · subst hj
    rw [Function.update_self]
    unfold born
    rw [if_pos ((h j).2 (.inr rfl))]
  · rw [Function.update_of_ne hj]
    unfold born
    by_cases hm : m.created j
    · rw [if_pos hm, if_pos ((h j).2 (.inl hm))]
    · rw [if_neg hm, if_neg fun hm' => ((h j).1 hm').elim hm hj]

/-- `main` creates all threads. -/
theorem can_start : Can (R := R) (W := W) polite N d (fun _ => 0) d [] := by
  classical
  have hmain {s s' : State R W} (hr : (rwLock polite R W N d).Reachable s) (hm : s.main ≠ .ended)
      (hs : s.mainStep = some s') : (rwLock polite R W N d).Reachable s' := by
    refine hr.step (l := .main) trivial ?_
    show State.step polite N s .main = some s'
    unfold State.step
    rw [if_neg hm]
    exact hs
  have hread (n : ℕ) (hn : n ≤ R) :
      (rwLock polite R W N d).Reachable ⟨d, .free, born (.createRead n), .createRead n, []⟩ := by
    induction n with
    | zero =>
      have hborn : (born (.createRead 0) : Fin R ⊕ Fin W → Thread) = fun _ => ⟨.unborn, 0, 0⟩ := by
        funext k
        cases k <;> simp [born, MainPc.created]
      rw [hborn]
      exact .init
    | succ n ih =>
      refine hmain (ih (by omega)) (by simp) ?_
      have hlt : n < R := hn
      have hcreated (j : Fin R ⊕ Fin W) : (MainPc.createRead (n + 1)).created j ↔
          (MainPc.createRead n).created j ∨ j = .inl ⟨n, hlt⟩ := by
        rcases j with j | j
        · simp only [MainPc.created, Sum.inl.injEq, Fin.ext_iff]
          omega
        · simp [MainPc.created]
      rw [← born_create hcreated]
      simp [State.mainStep, hlt, State.set, index]
  have hreads : (rwLock polite R W N d).Reachable ⟨d, .free, born (.createWrite 0), .createWrite 0, []⟩ := by
    refine hmain (hread R le_rfl) (by simp) ?_
    have hborn : (born (.createWrite 0) : Fin R ⊕ Fin W → Thread) = born (.createRead R) := by
      funext k
      cases k <;> simp [born, MainPc.created]
    simp [State.mainStep, hborn]
  have hwrite (n : ℕ) (hn : n ≤ W) :
      (rwLock polite R W N d).Reachable ⟨d, .free, born (.createWrite n), .createWrite n, []⟩ := by
    induction n with
    | zero => exact hreads
    | succ n ih =>
      refine hmain (ih (by omega)) (by simp) ?_
      have hlt : n < W := hn
      have hcreated (j : Fin R ⊕ Fin W) : (MainPc.createWrite (n + 1)).created j ↔
          (MainPc.createWrite n).created j ∨ j = .inr ⟨n, hlt⟩ := by
        rcases j with j | j
        · simp [MainPc.created]
        · simp only [MainPc.created, Sum.inr.injEq, Fin.ext_iff]
          omega
      rw [← born_create hcreated]
      simp [State.mainStep, hlt, State.set, index]
  refine hmain (hwrite W le_rfl) (by simp) ?_
  have hborn : (born (.createWrite W) : Fin R ⊕ Fin W → Thread) = fun k => ⟨.top, index k + 1, 0⟩ := by
    funext k
    cases k <;> simp [born, MainPc.created]
  simp [State.mainStep, hborn]

/-- One thread is in its iteration, the others are outside. -/
def within (n : Fin R ⊕ Fin W → ℕ) (k : Fin R ⊕ Fin W) (c : ℕ) (lock : RwLock) (pc : Pc) (out : List Line) : State R W :=
  ⟨c, lock, Function.update (fun j => ⟨.top, index j + 1, n j⟩) k ⟨pc, index k + 1, n k⟩, .joinRead 0, out⟩

/-- A reader runs one iteration alone. -/
theorem Can.read {k : Fin R} (h : Can polite N d n c out) (hk : n (.inl k) < N) :
    (rwLock polite R W N d).Reachable (within n (.inl k) c ⟨1, false, nofun⟩ .unlock (out ++ [⟨.read, k + 1, c⟩])) := by
  have hgo {s s' : State R W} (hr : (rwLock polite R W N d).Reachable s) (hm : s.main = .joinRead 0)
      (hs : s.readFunction polite N k = some s') : (rwLock polite R W N d).Reachable s' := by
    refine hr.step (l := .thread (.inl k)) trivial ?_
    show State.step polite N s (.thread (.inl k)) = some s'
    unfold State.step
    rw [if_neg (by simp [hm])]
    exact hs
  have hlock : (rwLock polite R W N d).Reachable (within n (.inl k) c .free .lock out) :=
    hgo h rfl (by simp [State.readFunction, State.common, State.set, within, hk])
  have hload : (rwLock polite R W N d).Reachable (within n (.inl k) c ⟨1, false, nofun⟩ .load out) := by
    refine hgo hlock rfl ?_
    have hquiet : ¬ (within n (.inl k) c .free .lock out).WriterWaits := by
      rintro ⟨j, hj⟩
      simp [within] at hj
    unfold State.readFunction
    simp only [hquiet, and_false, if_false]
    simp [State.set, within, RwLock.rdlock, RwLock.free]
  have hprint : (rwLock polite R W N d).Reachable (within n (.inl k) c ⟨1, false, nofun⟩ (.print c) out) :=
    hgo hload rfl (by simp [State.readFunction, State.common, State.set, within])
  exact hgo hprint rfl (by simp [State.readFunction, State.common, State.set, within, index])

/-- A writer runs one iteration alone. -/
theorem Can.write {k : Fin W} (h : Can polite N d n c out) (hk : n (.inr k) < N) :
    (rwLock polite R W N d).Reachable
      (within n (.inr k) (c + 1) ⟨0, true, fun _ => rfl⟩ .unlock (out ++ [⟨.write, k + 1, c + 1⟩])) := by
  have hgo {s s' : State R W} (hr : (rwLock polite R W N d).Reachable s) (hm : s.main = .joinRead 0)
      (hs : s.writeFunction N k = some s') : (rwLock polite R W N d).Reachable s' := by
    refine hr.step (l := .thread (.inr k)) trivial ?_
    show State.step polite N s (.thread (.inr k)) = some s'
    unfold State.step
    rw [if_neg (by simp [hm])]
    exact hs
  have hlock : (rwLock polite R W N d).Reachable (within n (.inr k) c .free .lock out) :=
    hgo h rfl (by simp [State.writeFunction, State.common, State.set, within, hk])
  have hfetch : (rwLock polite R W N d).Reachable (within n (.inr k) c ⟨0, true, fun _ => rfl⟩ .fetch out) :=
    hgo hlock rfl (by simp [State.writeFunction, State.set, within, RwLock.wrlock, RwLock.free])
  have hstore : (rwLock polite R W N d).Reachable (within n (.inr k) c ⟨0, true, fun _ => rfl⟩ (.store c) out) :=
    hgo hfetch rfl (by simp [State.writeFunction, State.set, within])
  have hload : (rwLock polite R W N d).Reachable (within n (.inr k) (c + 1) ⟨0, true, fun _ => rfl⟩ .load out) :=
    hgo hstore rfl (by simp [State.writeFunction, State.set, within])
  have hprint : (rwLock polite R W N d).Reachable
      (within n (.inr k) (c + 1) ⟨0, true, fun _ => rfl⟩ (.print (c + 1)) out) :=
    hgo hload rfl (by simp [State.writeFunction, State.common, State.set, within])
  exact hgo hprint rfl (by simp [State.writeFunction, State.common, State.set, within, index])

/-- **A thread runs one iteration alone.** -/
theorem Can.line (h : Can polite N d n c out) (k : Fin R ⊕ Fin W) (hk : n k < N) :
    Can polite N d (Function.update n k (n k + 1)) (c + if roleOf k = .write then 1 else 0)
      (out ++ [⟨roleOf k, index k + 1, c + if roleOf k = .write then 1 else 0⟩]) := by
  have hend : Function.update (fun j => (⟨.top, index j + 1, n j⟩ : Thread)) k ⟨.top, index k + 1, n k + 1⟩ =
      fun j => ⟨.top, index j + 1, Function.update n k (n k + 1) j⟩ := by
    funext j
    by_cases hj : j = k
    · subst hj
      simp
    · simp [hj]
  unfold Can
  rw [← hend]
  rcases k with k | k
  · refine (h.read hk).step (l := .thread (.inl k)) trivial ?_
    simp [rwLock, State.step, State.readFunction, State.common, State.set, within, roleOf, index, RwLock.unlock, RwLock.free]
  · refine (h.write hk).step (l := .thread (.inr k)) trivial ?_
    simp [rwLock, State.step, State.writeFunction, State.common, State.set, within, roleOf, index, RwLock.unlock, RwLock.free]

/-- The threads with these roles and ids. -/
theorem exists_owner {role : Role} {id : ℕ} :
    (1 ≤ id ∧ id ≤ role.threads R W) ↔ ∃ k : Fin R ⊕ Fin W, role = roleOf k ∧ id = index k + 1 := by
  constructor
  · rintro ⟨hpos, hle⟩
    cases role with
    | read =>
      have hlt : id - 1 < R := by simp only [Role.threads] at hle; omega
      exact ⟨.inl ⟨id - 1, hlt⟩, rfl, by simp only [index]; omega⟩
    | write =>
      have hlt : id - 1 < W := by simp only [Role.threads] at hle; omega
      exact ⟨.inr ⟨id - 1, hlt⟩, rfl, by simp only [index]; omega⟩
  · rintro ⟨k, rfl, rfl⟩
    rcases k with k | k
    · exact ⟨Nat.succ_pos _, k.2⟩
    · exact ⟨Nat.succ_pos _, k.2⟩

/-- The lines of an output are printed one after the other. -/
theorem Can.lines {rest : List Line} (h : Can polite N d n c out) (hturns : TakeTurns c rest)
    (howner : ∀ l ∈ rest, ∃ k : Fin R ⊕ Fin W, l.role = roleOf k ∧ l.id = index k + 1)
    (hn : ∀ k, n k + linesOf k rest ≤ N) :
    ∃ c', Can polite N d (fun k => n k + linesOf k rest) c' (out ++ rest) := by
  induction rest generalizing n c out with
  | nil => exact ⟨c, by simpa [linesOf] using h⟩
  | cons l rest ih =>
    obtain ⟨role, id, data⟩ := l
    obtain ⟨k, rfl, rfl⟩ := howner _ (List.mem_cons_self ..)
    have hk : n k < N := by
      have := hn k
      rw [linesOf_cons, if_pos rfl] at this
      omega
    have hnext (j : Fin R ⊕ Fin W) : Function.update n k (n k + 1) j + linesOf j rest =
        n j + linesOf j (⟨roleOf k, index k + 1, data⟩ :: rest) := by
      rw [linesOf_cons]
      by_cases hj : j = k
      · subst hj
        rw [Function.update_self, if_pos rfl]
        omega
      · rw [Function.update_of_ne hj, if_neg hj, Nat.add_zero]
    have hturn : data = c + (if roleOf k = .write then 1 else 0) ∧
        TakeTurns (c + if roleOf k = .write then 1 else 0) rest := by
      rcases k with k | k <;> exact hturns
    obtain ⟨c', hc'⟩ := ih (h.line k hk) hturn.2 (fun l hl => howner l (List.mem_cons_of_mem _ hl))
      fun j => (hnext j).trans_le (hn j)
    refine ⟨c', ?_⟩
    rw [← hturn.1] at hc'
    simpa only [hnext, List.append_assoc, List.singleton_append] using hc'

theorem Thread.Ok.lines_le {θ : Thread} (h : θ.Ok N k) : θ.lines ≤ N := by
  unfold Thread.lines
  split
  · rename_i hpc
    exact h.busy (.inr (by rw [hpc]; trivial))
  · exact h.bound

theorem step_output (h : s.step polite N l = some s') : s.output <+: s'.output := by
  cases (step_move h).2 with
  | print k data _ => exact List.prefix_append ..
  | _ => exact List.prefix_rfl

/-- Once all threads have their lines, the program ends with this output. -/
theorem Can.ends (h : Can (R := R) (W := W) polite N d (fun _ => N) c out) :
    ∃ s, (rwLock polite R W N d).Reachable s ∧ s.main = .ended ∧ s.output = out := by
  obtain ⟨s, hr, hpre, hstuck⟩ := Trans.exists_stuck_keep (I := fun s => out <+: s.output) (measure N) measure_step
    (fun _ _ _ hp hst => hp.trans (step_output hst)) h List.prefix_rfl
  refine ⟨s, hr, ?_, ?_⟩
  · by_contra hm
    obtain ⟨l, s', hl⟩ := progress polite (inv_reach hr) hm
    cases hl.symm.trans (hstuck l)
  · obtain ⟨rest, hrest⟩ := hpre
    have hempty : rest = [] := by
      refine List.eq_nil_iff_forall_not_mem.2 fun l hl => ?_
      obtain ⟨k, hrole, hid⟩ := (inv_reach hr).stray l (hrest ▸ List.mem_append_right _ hl)
      have hold : linesOf k out = N := by simpa [Thread.lines] using (inv_reach h).lines k
      have hnew := ((inv_reach hr).lines k).trans_le ((inv_reach hr).threads k).lines_le
      have hpos : 0 < linesOf k rest := List.countP_pos_iff.2 ⟨l, hl, by simp [hrole, hid]⟩
      rw [← hrest] at hnew
      simp only [linesOf, List.countP_append] at hnew hold hpos
      omega
    rw [← hrest, hempty, List.append_nil]

/-! ## The program -/

/-- **What the program prints**: whatever the order in which the lock lets the threads in, the
readers' and writers' lines take turns and each thread has its `N` lines; and every such
output can happen. -/
theorem output_iff (polite : Bool) (R W N d : ℕ) (out : List Line) :
    (∃ s, (rwLock polite R W N d).Reachable s ∧ s.main = .ended ∧ s.output = out) ↔ Complete R W N d out := by
  constructor
  · rintro ⟨s, hr, hm, rfl⟩
    have hI := inv_reach hr
    refine ⟨hI.turns, fun role id => ?_⟩
    split
    · rename_i hin
      obtain ⟨k, rfl, rfl⟩ := exists_owner.1 hin
      have he : (s.thread k).pc = .exited := hI.joined k (by rw [hm]; trivial)
      have hlines := hI.lines k
      rw [Thread.lines, if_neg (by simp [he]), (hI.threads k).exited he] at hlines
      exact hlines
    · rename_i hout
      refine List.countP_eq_zero.2 fun l hl hown => ?_
      obtain ⟨k, hrole, hid⟩ := hI.stray l hl
      have hown := of_decide_eq_true hown
      exact hout (exists_owner.2 ⟨k, hown.1 ▸ hrole, hown.2 ▸ hid⟩)
  · intro h
    have howner (l : Line) (hl : l ∈ out) : ∃ k : Fin R ⊕ Fin W, l.role = roleOf k ∧ l.id = index k + 1 := by
      refine exists_owner.1 ?_
      by_contra hout
      have hzero := h.lines l.role l.id
      rw [if_neg hout] at hzero
      exact List.countP_eq_zero.1 hzero l hl (by simp)
    have hall (k : Fin R ⊕ Fin W) : linesOf k out = N :=
      (h.lines (roleOf k) (index k + 1)).trans (if_pos (exists_owner.2 ⟨k, rfl, rfl⟩))
    obtain ⟨c, hc⟩ := can_start.lines h.turns howner fun k => (Nat.zero_add _).trans_le (hall k).le
    simp only [hall, Nat.zero_add, List.nil_append] at hc
    exact hc.ends

/-- The writers' lines are those of each writer. -/
theorem writes_eq (h : ∀ l ∈ out, ∃ k : Fin R ⊕ Fin W, l.role = roleOf k ∧ l.id = index k + 1) :
    writes out = ∑ k : Fin W, linesOf (.inr k : Fin R ⊕ Fin W) out := by
  induction out with
  | nil => simp [writes, linesOf]
  | cons l out ih =>
    obtain ⟨role, id, data⟩ := l
    obtain ⟨k, rfl, rfl⟩ := h _ (List.mem_cons_self ..)
    have ih := ih fun l hl => h l (List.mem_cons_of_mem _ hl)
    simp only [linesOf_cons, Finset.sum_add_distrib, ← ih]
    rcases k with k | k
    · simp [writes, roleOf]
    · simp [writes, roleOf]

/-- **The program ends**: a writer inside is alone, as long as `main` has not returned somebody
can move, no run has more than `(R + W) * (7 * N + 3) + 5` steps, and when the lock is
destroyed nobody holds it and every writer has counted `N` times. -/
theorem no_deadlock (polite : Bool) (R W N d : ℕ) :
    (∀ s, (rwLock polite R W N d).Reachable s →
      (∀ j k, (s.thread (.inr j)).pc.Holds → (s.thread k).pc.Holds → k = .inr j) ∧
      (s.main ≠ .ended → ¬ (rwLock polite R W N d).Stuck s) ∧
      (s.main = .destroy → s.rwlock = .free ∧ s.sharedData = d + W * N)) ∧
    ∀ ls s, (rwLock polite R W N d).run Trans.Free (.init d) ls = some s →
      ls.length ≤ (R + W) * (7 * N + 3) + 5 := by
  refine ⟨fun s hr => ?_, fun ls s hrun => ?_⟩
  · have hI := inv_reach hr
    refine ⟨fun j k hj hk => ?_, fun hm hstuck => ?_, fun hm => ?_⟩
    · by_contra hne
      exact hI.alone hj hne hk
    · obtain ⟨l, s', hl⟩ := progress polite hI hm
      cases hl.symm.trans (hstuck l)
    · have he (k : Fin R ⊕ Fin W) : (s.thread k).pc = .exited := hI.joined k (by rw [hm]; trivial)
      have hfree := hI.lock.eq_free fun k => mode_out.2 (by rw [he k]; exact not_false)
      have hahead := hI.ahead_le
      have hlines (k : Fin W) : linesOf (.inr k : Fin R ⊕ Fin W) s.output = N := by
        rw [hI.lines, Thread.lines, if_neg (by simp [he]), (hI.threads _).exited (he _)]
      have hwrites : writes s.output = W * N := by
        rw [writes_eq hI.stray]
        simp [hlines]
      have hdata := hI.data
      rw [hfree] at hahead
      simp only [RwLock.free, Bool.toNat_false] at hahead
      refine ⟨hfree, ?_⟩
      omega
  · have hle := Trans.run_length_le (measure N) measure_step hrun
    have hzero : total (Thread.left N) (State.init d : State R W).thread = 0 := total_zero fun _ => rfl
    have hbound : measure N (State.init d : State R W) = (R + W) * (7 * N + 3) + 5 := by
      unfold measure
      rw [hzero]
      simp only [State.init, MainPc.left, Nat.sub_zero]
      ring
    exact hle.trans hbound.le

end ReadWrite
