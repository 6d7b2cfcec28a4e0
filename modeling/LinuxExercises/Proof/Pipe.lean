import LinuxExercises.Spec.Pipe

/-!
# The pipeline

* `Move`, `step_move`: all that one step can do.
* `Inv`: which table each process has at each place, and so who holds which end; what the
  parent has seen and printed.
* `Work`: the bytes read, in the pipe and still to write are the text of `ls`; `wc` sees the end
  of its input only behind the end of `ls`. `work_step`: every step lowers its budget.
* `no_hang`: **in every run, failing calls included, a process that has not ended can be
  waited for**: some process can move, and every run is finite.
* `pipeline_iff`: **without failing calls `wc` reads all that `ls` writes in every run if and only
  if standard input was open at the start**.
-/

namespace Pipe

open Sync
open Chat (Bytes)

variable {σ : Type*} {P : Child → Program UInt8 σ} {start : List Bool} {cap : ℕ} {out : Bytes} {s s' : State σ}
  {ρ : Child} {l : Label} {ch : Choice}

/-! ## What one step does -/

/-- Why a child ends. -/
inductive Exits (P : Child → Program UInt8 σ) (s : State σ) (l : Label) : Child → End → Prop where
  | dup2 (ρ : Child) : s.child ρ = .dup2 → (s.childTable ρ).dup2 (s.own ρ) ρ.std = none → Exits P s l ρ .failed
  | exec (ρ : Child) : s.child ρ = .exec → l = .child ρ .fail → Exits P s l ρ .failed
  | done (ρ : Child) (st : UInt8) : s.child ρ = .running → (P ρ).call (s.prog ρ) = .exit st →
      Exits P s l ρ (.exited st)
  | sigpipe (ρ : Child) (b : Bytes) : s.child ρ = .running → (P ρ).call (s.prog ρ) = .write b →
      (s.childTable ρ).get 1 = some .writeEnd → s.held .readEnd = false → Exits P s l ρ .killed
  | struck (ρ : Child) (b : Bytes) : s.child ρ = .running → (P ρ).call (s.prog ρ) = .write b →
      (s.childTable ρ).get 1 = some .inherited → Exits P s l ρ .killed

/-- What the call of a program does. -/
inductive Calls (P : Child → Program UInt8 σ) (s : State σ) (ρ : Child) : State σ → Prop where
  | take (n : ℕ) : (P ρ).call (s.prog ρ) = .read → (s.childTable ρ).get 0 = some .readEnd → 0 < n →
      n ≤ s.buffer.length →
      Calls P s ρ { s.resume P ρ (.read (s.buffer.take n)) with
        buffer := s.buffer.drop n
        taken := s.taken ++ s.buffer.take n }
  | eof : (P ρ).call (s.prog ρ) = .read → (s.childTable ρ).get 0 = some .readEnd → s.buffer = [] →
      s.held .writeEnd = false → Calls P s ρ { s.resume P ρ (.read []) with eof := true }
  | input (b : Bytes) : (P ρ).call (s.prog ρ) = .read → (s.childTable ρ).get 0 = some .inherited →
      Calls P s ρ (s.resume P ρ (.read b))
  | noInput : (P ρ).call (s.prog ρ) = .read → (s.childTable ρ).get 0 ≠ some .readEnd →
      Calls P s ρ (s.resume P ρ .failed)
  | write (b : Bytes) (n : ℕ) : (P ρ).call (s.prog ρ) = .write b → (s.childTable ρ).get 1 = some .writeEnd →
      n ≤ b.length → 0 < n ∨ b = [] →
      Calls P s ρ { s.resume P ρ (.wrote n) with buffer := s.buffer ++ b.take n }
  | elsewhere (b : Bytes) (n : ℕ) : (P ρ).call (s.prog ρ) = .write b →
      (s.childTable ρ).get 1 = some .inherited → n ≤ b.length → 0 < n ∨ b = [] →
      Calls P s ρ (s.resume P ρ (.wrote n))
  | noOutput (b : Bytes) : (P ρ).call (s.prog ρ) = .write b → (s.childTable ρ).get 1 ≠ some .writeEnd →
      Calls P s ρ (s.resume P ρ .failed)

/-- What one step does. -/
inductive Move (P : Child → Program UInt8 σ) (s : State σ) (l : Label) : State σ → Prop where
  | pipe : s.parent = .pipe → Move P s l s.pipe
  | die : s.parent = .pipe ∨ s.parent = .fork1 ∨ s.parent = .fork2 → l = .parent false → Move P s l s.die
  | fork1 : s.parent = .fork1 → Move P s l (s.fork .child1 .fork2)
  | fork2 : s.parent = .fork2 → Move P s l (s.fork .child2 .close0)
  | close0 : s.parent = .close0 →
      Move P s l { s with parent := .close1, parentTable := s.parentTable.put s.pipeFds.1 none }
  | close1 : s.parent = .close1 →
      Move P s l { s with parent := .wait1, parentTable := s.parentTable.put s.pipeFds.2 none }
  | wait1 (e : End) : s.parent = .wait1 → s.child .child1 = .ended e → Move P s l { s with parent := .wait2 e }
  | wait2 (st1 e : End) : s.parent = .wait2 st1 → s.child .child2 = .ended e →
      Move P s l { s with parent := .report st1 e }
  | report (st1 st2 : End) : s.parent = .report st1 st2 →
      Move P s l { s with
        parent := .ended (.exited 0)
        parentTable := []
        reported := Child.complaint .child1 st1 ++ Child.complaint .child2 st2 }
  | closeOther (ρ : Child) : s.child ρ = .closeOther →
      Move P s l (s.goto ρ .dup2 ((s.childTable ρ).put (s.other ρ) none))
  | dup2 (ρ : Child) (t : Table File) : s.child ρ = .dup2 → (s.childTable ρ).dup2 (s.own ρ) ρ.std = some t →
      Move P s l (s.goto ρ .closeOwn t)
  | closeOwn (ρ : Child) : s.child ρ = .closeOwn →
      Move P s l (s.goto ρ .exec ((s.childTable ρ).put (s.own ρ) none))
  | exec (ρ : Child) : s.child ρ = .exec → Move P s l (s.goto ρ .running (s.childTable ρ))
  | exit (ρ : Child) (e : End) : Exits P s l ρ e → Move P s l (s.exit ρ e)
  | call (ρ : Child) (s' : State σ) : s.child ρ = .running → Calls P s ρ s' → Move P s l s'

theorem parent_move {ok : Bool} (h : s.parentStep ok = some s') : Move P s (.parent ok) s' := by
  unfold State.parentStep at h
  cases hp : s.parent with
  | pipe =>
    simp only [hp, Option.some.injEq] at h
    subst h
    cases ok
    · exact .die (.inl hp) rfl
    · exact .pipe hp
  | fork1 =>
    simp only [hp, Option.some.injEq] at h
    subst h
    cases ok
    · exact .die (.inr (.inl hp)) rfl
    · exact .fork1 hp
  | fork2 =>
    simp only [hp, Option.some.injEq] at h
    subst h
    cases ok
    · exact .die (.inr (.inr hp)) rfl
    · exact .fork2 hp
  | close0 =>
    simp only [hp, Option.some.injEq] at h
    exact h ▸ .close0 hp
  | close1 =>
    simp only [hp, Option.some.injEq] at h
    exact h ▸ .close1 hp
  | wait1 =>
    cases hc : s.child .child1 <;> simp only [hp, hc, Option.some.injEq, reduceCtorEq] at h
    exact h ▸ .wait1 _ hp hc
  | wait2 st1 =>
    cases hc : s.child .child2 <;> simp only [hp, hc, Option.some.injEq, reduceCtorEq] at h
    exact h ▸ .wait2 st1 _ hp hc
  | report st1 st2 =>
    simp only [hp, Option.some.injEq] at h
    exact h ▸ .report st1 st2 hp
  | ended e => simp [hp] at h

theorem read_calls (hc : (P ρ).call (s.prog ρ) = .read) (h : s.read P ρ ch = some s') : Calls P s ρ s' := by
  unfold State.read at h
  cases hg : (s.childTable ρ).get 0 with
  | none =>
    simp only [hg, Option.some.injEq] at h
    exact h ▸ .noInput hc (by simp [hg])
  | some f =>
    cases f with
    | readEnd =>
      simp only [hg] at h
      split at h
      · rename_i hb
        split at h
        · cases h
        · rename_i hh
          exact Option.some.inj h ▸ .eof hc hg hb (by simpa using hh)
      · split at h
        · split at h
          · rename_i n hn
            exact Option.some.inj h ▸ .take n hc hg hn.1 hn.2
          · cases h
        · cases h
    | inherited =>
      simp only [hg] at h
      split at h
      · exact Option.some.inj h ▸ .input _ hc hg
      · exact Option.some.inj h ▸ .noInput hc (by simp [hg])
      · cases h
    | writeEnd =>
      simp only [hg, Option.some.injEq] at h
      exact h ▸ .noInput hc (by simp [hg])

/-- A write is a call, or ends the child. -/
theorem write_move {b : Bytes} (hr : s.child ρ = .running) (hc : (P ρ).call (s.prog ρ) = .write b)
    (h : s.write P cap ρ b ch = some s') : Move P s l s' := by
  unfold State.write at h
  cases hg : (s.childTable ρ).get 1 with
  | none =>
    simp only [hg, Option.some.injEq] at h
    exact h ▸ .call ρ _ hr (.noOutput b hc (by simp [hg]))
  | some f =>
    cases f with
    | writeEnd =>
      simp only [hg] at h
      split at h
      · split at h
        · split at h
          · rename_i n hn
            exact Option.some.inj h ▸ .call ρ _ hr (.write b n hc hg hn.1 hn.2.1)
          · cases h
        · cases h
      · rename_i hh
        exact Option.some.inj h ▸ .exit ρ _ (.sigpipe ρ b hr hc hg (by simpa using hh))
    | inherited =>
      simp only [hg] at h
      split at h
      · split at h
        · rename_i n hn
          exact Option.some.inj h ▸ .call ρ _ hr (.elsewhere b n hc hg hn.1 hn.2)
        · cases h
      · exact Option.some.inj h ▸ .call ρ _ hr (.noOutput b hc (by simp [hg]))
      · exact Option.some.inj h ▸ .exit ρ _ (.struck ρ b hr hc hg)
      · cases h
    | readEnd =>
      simp only [hg, Option.some.injEq] at h
      exact h ▸ .call ρ _ hr (.noOutput b hc (by simp [hg]))

theorem step_move (h : s.step P cap l = some s') : Move P s l s' := by
  cases l with
  | parent ok => exact parent_move h
  | child ρ ch =>
    simp only [State.step, State.childStep] at h
    cases hc : s.child ρ <;> simp only [hc, Option.some.injEq, reduceCtorEq] at h
    case closeOther => exact h ▸ .closeOther ρ hc
    case dup2 =>
      cases hd : (s.childTable ρ).dup2 (s.own ρ) ρ.std with
      | none =>
        simp only [hd, Option.some.injEq] at h
        exact h ▸ .exit ρ _ (.dup2 ρ hc hd)
      | some t =>
        simp only [hd, Option.some.injEq] at h
        exact h ▸ .dup2 ρ t hc hd
    case closeOwn => exact h ▸ .closeOwn ρ hc
    case exec =>
      subst h
      split
      · rename_i hch
        exact .exit ρ _ (.exec ρ hc (by rw [hch]))
      · exact .exec ρ hc
    case running =>
      unfold State.run at h
      split at h
      · rename_i st hcall
        exact Option.some.inj h ▸ .exit ρ _ (.done ρ st hc hcall)
      · rename_i hcall
        exact .call ρ _ hc (read_calls hcall h)
      · rename_i b hcall
        exact write_move hc hcall h

/-! ## The tables -/

/-- `pipe_fds[0]`: the lowest number that is free at the start. -/
def low (start : List Bool) : ℕ := (inherited start).lowest

/-- `pipe_fds[1]`: the next one. -/
def high (start : List Bool) : ℕ := ((inherited start).put (low start) (some .readEnd)).lowest

/-- The table behind `pipe`. -/
def piped (start : List Bool) : Table File :=
  ((inherited start).put (low start) (some .readEnd)).put (high start) (some .writeEnd)

/-- The end of the pipe that a child keeps. -/
def Child.file : Child → File
  | .child1 => .writeEnd
  | .child2 => .readEnd

/-- Its number. -/
def Child.ownFd (start : List Bool) : Child → Fd
  | .child1 => high start
  | .child2 => low start

/-- The number of the other end. -/
def Child.otherFd (start : List Bool) : Child → Fd
  | .child1 => low start
  | .child2 => high start

/-- The table of the parent. -/
def ParentPc.table (start : List Bool) : ParentPc → Table File
  | .pipe => inherited start
  | .fork1 | .fork2 | .close0 => piped start
  | .close1 => (piped start).put (low start) none
  | .wait1 | .wait2 _ | .report _ _ => ((piped start).put (low start) none).put (high start) none
  | .ended _ => []

/-- The table of a child. -/
def ChildPc.table (start : List Bool) (ρ : Child) : ChildPc → Table File
  | .unborn | .ended _ => []
  | .closeOther => piped start
  | .dup2 => (piped start).put (ρ.otherFd start) none
  | .closeOwn => ((piped start).put (ρ.otherFd start) none).put ρ.std (some ρ.file)
  | .exec | .running =>
    (((piped start).put (ρ.otherFd start) none).put ρ.std (some ρ.file)).put (ρ.ownFd start) none

theorem get_inherited (start : List Bool) (n : ℕ) :
    (inherited start).get n = if start[n]? = some true then some .inherited else none := by
  simp only [inherited, Table.get, List.getElem?_map]
  cases start[n]? with
  | none => rfl
  | some b => cases b <;> rfl

theorem low_eq_zero : low start = 0 ↔ start[0]? ≠ some true := by
  have hfree := Table.get_lowest (inherited start)
  rw [get_inherited] at hfree
  constructor
  · intro h0 htrue
    have hlow : (inherited start).lowest = 0 := h0
    simp [hlow, htrue] at hfree
  · intro hne
    by_contra h0
    have hbelow := Table.get_below (Nat.pos_of_ne_zero h0)
    simp [get_inherited, hne] at hbelow

theorem low_lt_high (start : List Bool) : low start < high start := by
  have hfree : ((inherited start).put (low start) (some .readEnd)).get (high start) = none := Table.get_lowest _
  rw [Table.get_put] at hfree
  split at hfree
  · cases hfree
  · rename_i hne
    by_contra hle
    exact Table.get_below (lt_of_le_of_ne (not_lt.1 hle) hne) hfree

theorem get_piped (start : List Bool) (n : ℕ) : (piped start).get n =
    if n = high start then some .writeEnd else if n = low start then some .readEnd else (inherited start).get n := by
  simp only [piped, Table.get_put]

theorem inherited_ne (start : List Bool) (n : ℕ) {f : File} (h : (inherited start).get n = some f) :
    f = .inherited := by
  rw [get_inherited] at h
  split at h
  · exact (Option.some.inj h).symm
  · cases h

/-- What stands where in the table of a child that has redirected its standard descriptor. -/
theorem get_running (ρ : Child) (n : ℕ) : (ChildPc.running.table start ρ).get n =
    if n = ρ.ownFd start then none else if n = ρ.std then some ρ.file
    else if n = ρ.otherFd start then none else (piped start).get n := by
  simp only [ChildPc.table, Table.get_put]

/-- `dup2` does not fail. -/
theorem dup2_table (ρ : Child) : (ChildPc.dup2.table start ρ).dup2 (ρ.ownFd start) ρ.std =
    some (ChildPc.closeOwn.table start ρ) := by
  have hne := (low_lt_high start).ne
  have hown : (ChildPc.dup2.table start ρ).get (ρ.ownFd start) = some ρ.file := by
    cases ρ <;> simp [ChildPc.table, Table.get_put, get_piped, Child.ownFd, Child.otherFd, Child.file, hne, hne.symm]
  rw [Table.dup2, hown]
  rfl

/-! ## Who holds which end -/

/-- The child has been forked and has not ended. -/
def ChildPc.alive : ChildPc → Bool
  | .unborn | .ended _ => false
  | _ => true

/-- A child that has closed the end it does not use does not have it. -/
theorem not_has_other {ρ : Child} {pc : ChildPc} (hpc : pc ≠ .closeOther) {f : File} (hf : f ≠ ρ.file)
    (hi : f ≠ .inherited) : (pc.table start ρ).has f = false := by
  have hne := (low_lt_high start).ne
  have hinh (n : ℕ) : (inherited start).get n ≠ some f := fun h => hi (inherited_ne start n h)
  rw [Bool.eq_false_iff]
  intro hhas
  obtain ⟨n, hn⟩ := Table.has_iff.1 hhas
  cases ρ <;> cases pc <;>
    simp only [ChildPc.table, Table.get_put, Table.get_nil, get_piped, Child.otherFd, Child.ownFd, Child.file, ne_eq,
      reduceCtorEq, not_true_eq_false] at hn hpc hf <;>
    grind

/-- A living child has the end it works with, unless that has the number of the standard
descriptor itself, and is closed behind `dup2`. -/
theorem has_own {ρ : Child} {pc : ChildPc} (hpc : pc.alive = true) (hstd : ρ.ownFd start ≠ ρ.std) :
    (pc.table start ρ).has ρ.file = true := by
  have hne := (low_lt_high start).ne
  cases pc <;> simp only [ChildPc.alive, Bool.false_eq_true] at hpc
  case closeOther =>
    refine Table.has_iff.2 ⟨ρ.ownFd start, ?_⟩
    cases ρ <;> simp [ChildPc.table, get_piped, Child.ownFd, Child.file, hne]
  case dup2 =>
    refine Table.has_iff.2 ⟨ρ.ownFd start, ?_⟩
    cases ρ <;> simp [ChildPc.table, Table.get_put, get_piped, Child.ownFd, Child.otherFd, Child.file, hne, hne.symm]
  all_goals
    refine Table.has_iff.2 ⟨ρ.std, ?_⟩
    simp [ChildPc.table, Table.get_put, hstd.symm]

/-- The parent that has closed both ends has none. -/
theorem parent_not_has {pc : ParentPc} (hpc : pc = .pipe ∨ pc = .wait1 ∨ (∃ e, pc = .wait2 e) ∨
    (∃ e e', pc = .report e e') ∨ ∃ e, pc = .ended e) {f : File} (hi : f ≠ .inherited) :
    (pc.table start).has f = false := by
  have hinh (n : ℕ) : (inherited start).get n ≠ some f := fun h => hi (inherited_ne start n h)
  rw [Bool.eq_false_iff]
  intro hhas
  obtain ⟨n, hn⟩ := Table.has_iff.1 hhas
  rcases hpc with rfl | rfl | ⟨e, rfl⟩ | ⟨e, e', rfl⟩ | ⟨e, rfl⟩ <;>
    simp only [ParentPc.table, Table.get_put, Table.get_nil, get_piped, reduceCtorEq] at hn <;>
    grind

/-! ## The invariant -/

/-- The parent has not yet forked this child. -/
def ParentPc.before : ParentPc → Child → Bool
  | .pipe, _ | .fork1, _ | .fork2, .child2 => true
  | _, _ => false

/-- The parent has forked this child. -/
def ParentPc.behind : ParentPc → Child → Bool
  | .pipe, _ | .fork1, _ | .fork2, .child2 | .ended .failed, _ | .ended .killed, _ => false
  | _, _ => true

/-- **What holds in every run**, whatever the programs do. -/
structure Inv (start : List Bool) (s : State σ) : Prop where
  fds : (∃ ρ, s.child ρ ≠ .unborn) ∨ s.parent.before .child2 ∧ s.parent ≠ .pipe → s.pipeFds = (low start, high start)
  parentTable : s.parentTable = s.parent.table start
  childTable : ∀ ρ, s.childTable ρ = (s.child ρ).table start ρ
  unborn : ∀ ρ, s.parent.before ρ → s.child ρ = .unborn
  born : ∀ ρ, s.parent.behind ρ → s.child ρ ≠ .unborn
  order : s.child .child2 ≠ .unborn → s.child .child1 ≠ .unborn
  waited1 : ∀ e, s.parent = .wait2 e → s.child .child1 = .ended e
  waited2 : ∀ e e', s.parent = .report e e' → s.child .child1 = .ended e ∧ s.child .child2 = .ended e'
  reported : ∀ st, s.parent = .ended (.exited st) → st = 0 ∧ ∃ e e', s.child .child1 = .ended e ∧
    s.child .child2 = .ended e' ∧ s.reported = Child.complaint .child1 e ++ Child.complaint .child2 e'

theorem Inv.own_eq (h : Inv start s) (hb : s.child ρ ≠ .unborn) : s.own ρ = ρ.ownFd start := by
  have := h.fds (.inl ⟨ρ, hb⟩)
  cases ρ <;> simp [State.own, Child.ownFd, this]

theorem Inv.other_eq (h : Inv start s) (hb : s.child ρ ≠ .unborn) : s.other ρ = ρ.otherFd start := by
  have := h.fds (.inl ⟨ρ, hb⟩)
  cases ρ <;> simp [State.other, Child.otherFd, this]

/-- The descriptor that a running child works with. -/
theorem Inv.get_std (h : Inv start s) (hr : s.child ρ = .running) :
    (s.childTable ρ).get ρ.std = if ρ.std = ρ.ownFd start then none else some ρ.file := by
  rw [h.childTable, hr, get_running, if_pos rfl]

/-- It is an end of the pipe, or closed. -/
theorem Inv.get_std_ne (h : Inv start s) (hr : s.child ρ = .running) :
    (s.childTable ρ).get ρ.std ≠ some .inherited := by
  rw [h.get_std hr]
  split <;> cases ρ <;> simp [Child.file]

/-- A running child does not have the other end. -/
theorem Inv.get_ne (h : Inv start s) (hr : s.child ρ = .running) {f : File} (hf : f ≠ ρ.file) (hi : f ≠ .inherited)
    (n : Fd) : (s.childTable ρ).get n ≠ some f := by
  intro hget
  have hhas : (s.childTable ρ).has f = true := Table.has_iff.2 ⟨n, hget⟩
  rw [h.childTable, hr, not_has_other (by simp) hf hi] at hhas
  cases hhas

/-- Nobody has a write end when a child reads the end of its input. -/
theorem Inv.child1_ended (h : Inv start s) (hlow : low start ≠ 0) (hr : s.child .child2 ≠ .unborn)
    (hh : s.held .writeEnd = false) : ∃ e, s.child .child1 = .ended e := by
  have hhigh := low_lt_high start
  simp only [State.held, Bool.or_eq_false_iff, h.childTable] at hh
  by_contra hne
  have halive : (s.child .child1).alive = true := by
    cases hc : s.child .child1 with
    | unborn => exact absurd hc (h.order hr)
    | ended e => exact absurd ⟨e, hc⟩ hne
    | _ => rfl
  have hown := has_own (ρ := .child1) halive (show high start ≠ 1 by omega)
  rw [Child.file] at hown
  rw [hh.1.2] at hown
  cases hown

theorem goto_self {pc : ChildPc} {t : Table File} : (s.goto ρ pc t).child ρ = pc := Function.update_self ..

theorem goto_other {pc : ChildPc} {t : Table File} {τ : Child} (h : τ ≠ ρ) : (s.goto ρ pc t).child τ = s.child τ :=
  Function.update_of_ne h ..

/-- **A child moves on**, or ends. -/
theorem Inv.goto {pc : ChildPc} {t : Table File} (h : Inv start s) (ha : (s.child ρ).alive = true)
    (hpc : pc ≠ .unborn) (ht : t = pc.table start ρ) : Inv start (s.goto ρ pc t) := by
  have hb : s.child ρ ≠ .unborn := fun e => by simp [e, ChildPc.alive] at ha
  have hne (e : End) : s.child ρ ≠ .ended e := fun he => by simp [he, ChildPc.alive] at ha
  have hself : (s.goto ρ pc t).child ρ = pc := goto_self
  have hother {τ : Child} (hτ : τ ≠ ρ) : (s.goto ρ pc t).child τ = s.child τ := goto_other hτ
  have hborn (τ : Child) : (s.goto ρ pc t).child τ = .unborn ↔ s.child τ = .unborn := by
    by_cases hτ : τ = ρ
    · subst hτ
      rw [hself]
      exact iff_of_false hpc hb
    · rw [hother hτ]
  -- who has ended stays so
  have hended {τ : Child} {e : End} (he : s.child τ = .ended e) : (s.goto ρ pc t).child τ = .ended e := by
    rw [hother (fun hτ => hne e (hτ ▸ he)), he]
  refine ⟨fun hf => h.fds ?_, h.parentTable, fun τ => ?_, fun τ hτ => ?_, fun τ hτ => ?_, fun h2 => ?_, fun e he => ?_,
    fun e e' he => ?_, fun st hst => ?_⟩
  · exact hf.imp_left fun ⟨τ, hτ⟩ => ⟨τ, fun e => hτ ((hborn τ).2 e)⟩
  · by_cases hτ : τ = ρ
    · subst hτ
      rw [hself, ← ht]
      exact Function.update_self ..
    · rw [hother hτ, ← h.childTable]
      exact Function.update_of_ne hτ ..
  · exact (hborn τ).2 (h.unborn τ hτ)
  · exact fun e => h.born τ hτ ((hborn τ).1 e)
  · exact fun e => h.order (fun e2 => h2 ((hborn _).2 e2)) ((hborn _).1 e)
  · exact hended (h.waited1 e he)
  · exact ⟨hended (h.waited2 e e' he).1, hended (h.waited2 e e' he).2⟩
  · obtain ⟨h0, e, e', h1, h2, hrep⟩ := h.reported st hst
    exact ⟨h0, e, e', hended h1, hended h2, hrep⟩

theorem inv_init : Inv start (pipeline P start cap).init := by
  refine ⟨?_, rfl, fun _ => rfl, fun _ _ => rfl, fun ρ => by cases ρ <;> simp [pipeline, ParentPc.behind], ?_, ?_, ?_, ?_⟩
  · rintro (⟨ρ, hρ⟩ | ⟨-, hp⟩)
    · exact absurd rfl hρ
    · exact absurd rfl hp
  all_goals simp [pipeline]

/-- **The parent moves on**, and leaves the children alone. -/
theorem Inv.parent {pc : ParentPc} {t : Table File} {r : List (Child × UInt8)} (h : Inv start s)
    (ht : t = pc.table start) (hpipe : s.parent ≠ .pipe)
    (hbef : ∀ ρ, pc.before ρ = true → s.parent.before ρ = true)
    (hbeh : ∀ ρ, pc.behind ρ = true → s.parent.behind ρ = true)
    (h1 : ∀ e, pc = .wait2 e → s.child .child1 = .ended e)
    (h2 : ∀ e e', pc = .report e e' → s.child .child1 = .ended e ∧ s.child .child2 = .ended e')
    (hr : ∀ st, pc = .ended (.exited st) → st = 0 ∧ ∃ e e', s.child .child1 = .ended e ∧
      s.child .child2 = .ended e' ∧ r = Child.complaint .child1 e ++ Child.complaint .child2 e') :
    Inv start { s with parent := pc, parentTable := t, reported := r } :=
  ⟨fun hf => h.fds (hf.imp_right fun hb => ⟨hbef _ hb.1, hpipe⟩), ht, h.childTable, fun ρ hρ => h.unborn ρ (hbef ρ hρ),
    fun ρ hρ => h.born ρ (hbeh ρ hρ), h.order, h1, h2, hr⟩

/-- **A child is forked.** -/
theorem Inv.fork {pc : ParentPc} (h : Inv start s) (ht : s.parent.table start = piped start)
    (ht' : pc.table start = piped start) (hpipe : s.parent ≠ .pipe) (hbefore : s.parent.before ρ = true)
    (hfds : s.parent.before .child2 = true)
    (hbef : ∀ τ, pc.before τ = true → s.parent.before τ = true ∧ τ ≠ ρ)
    (hbeh : ∀ τ, pc.behind τ = true → s.parent.behind τ = true ∨ τ = ρ)
    (hord : ρ = .child2 → s.parent.behind .child1 = true)
    (hw : ∀ e, pc ≠ .wait2 e) (hp : ∀ e e', pc ≠ .report e e') (hend : ∀ e, pc ≠ .ended e) :
    Inv start (s.fork ρ pc) := by
  have hself : (s.fork ρ pc).child ρ = .closeOther := Function.update_self ..
  have hother {τ : Child} (hτ : τ ≠ ρ) : (s.fork ρ pc).child τ = s.child τ := Function.update_of_ne hτ ..
  refine ⟨fun _ => h.fds (.inr ⟨hfds, hpipe⟩), ?_, fun τ => ?_, fun τ hτ => ?_, fun τ hτ => ?_, fun h2 => ?_,
    fun e he => absurd he (hw e), fun e e' he => absurd he (hp e e'), fun st hst => absurd hst (hend _)⟩
  · show s.parentTable = pc.table start
    rw [h.parentTable, ht, ht']
  · by_cases hτ : τ = ρ
    · subst hτ
      rw [hself]
      show Function.update s.childTable τ s.parentTable τ = piped start
      rw [Function.update_self, h.parentTable, ht]
    · rw [hother hτ, ← h.childTable]
      exact Function.update_of_ne hτ ..
  · obtain ⟨hb, hne⟩ := hbef τ hτ
    rw [hother hne]
    exact h.unborn τ hb
  · by_cases hτρ : τ = ρ
    · subst hτρ
      rw [hself]
      simp
    · rw [hother hτρ]
      exact h.born τ ((hbeh τ hτ).resolve_right hτρ)
  · by_cases hρ : ρ = .child1
    · subst hρ
      rw [hself]
      simp
    · have hρ2 : ρ = .child2 := by cases ρ <;> simp_all
      rw [hother (Ne.symm hρ)]
      exact h.born _ (hord hρ2)

/-- `dup2` succeeds, and leads to the expected table. -/
theorem Inv.dup2 (h : Inv start s) (hc : s.child ρ = .dup2) :
    (s.childTable ρ).dup2 (s.own ρ) ρ.std = some (ChildPc.closeOwn.table start ρ) := by
  rw [h.own_eq (by simp [hc]), h.childTable, hc, dup2_table]

/-- A call changes no table and nobody's place. -/
theorem Inv.call (h : Inv start s) (hc : Calls P s ρ s') : Inv start s' := by
  cases hc <;> exact ⟨h.fds, h.parentTable, h.childTable, h.unborn, h.born, h.order, h.waited1, h.waited2, h.reported⟩

theorem exits_alive {e : End} (h : Exits P s l ρ e) : (s.child ρ).alive = true := by
  cases h <;> simp [*, ChildPc.alive]

theorem inv_step (h : Inv start s) (hs : s.step P cap l = some s') : Inv start s' := by
  have hborn {ρ : Child} {pc : ChildPc} (hc : s.child ρ = pc) (hpc : pc ≠ .unborn) : s.child ρ ≠ .unborn := hc ▸ hpc
  cases step_move hs with
  | pipe hp =>
    have hun (ρ : Child) : s.child ρ = .unborn := h.unborn ρ (by simp [hp, ParentPc.before])
    refine ⟨fun _ => ?_, ?_, h.childTable, fun ρ _ => hun ρ, ?_, h.order, ?_, ?_, ?_⟩
    · simp only [State.pipe, h.parentTable, hp, ParentPc.table]
      rfl
    · simp only [State.pipe, h.parentTable, hp, ParentPc.table]
      rfl
    · intro ρ hρ
      cases ρ <;> simp [State.pipe, ParentPc.behind] at hρ
    all_goals simp [State.pipe]
  | die hp _ =>
    refine ⟨fun hf => h.fds (hf.imp_right fun hb => ?_), rfl, h.childTable, ?_, ?_, h.order, ?_, ?_, ?_⟩
    · simp [State.die, ParentPc.before] at hb
    · intro ρ hρ
      simp [State.die, ParentPc.before] at hρ
    · intro ρ hρ
      simp [State.die, ParentPc.behind] at hρ
    all_goals simp [State.die]
  | fork1 hp =>
    refine h.fork (by rw [hp]; rfl) rfl (by simp [hp]) (by simp [hp, ParentPc.before]) (by simp [hp, ParentPc.before])
      ?_ ?_ (by simp) (by simp) (by simp) (by simp)
    all_goals
      intro τ hτ
      cases τ <;> simp_all [ParentPc.before, ParentPc.behind]
  | fork2 hp =>
    refine h.fork (by rw [hp]; rfl) rfl (by simp [hp]) (by simp [hp, ParentPc.before]) (by simp [hp, ParentPc.before])
      ?_ ?_ (by simp [hp, ParentPc.behind]) (by simp) (by simp) (by simp)
    all_goals
      intro τ hτ
      cases τ <;> simp_all [ParentPc.before, ParentPc.behind]
  | close0 hp =>
    have hb : s.child .child1 ≠ .unborn := h.born _ (by simp [hp, ParentPc.behind])
    have hfds := h.fds (.inl ⟨_, hb⟩)
    refine h.parent ?_ (by simp [hp]) ?_ ?_ (by simp) (by simp) (by simp)
    · rw [h.parentTable, hp, hfds]
      rfl
    all_goals
      intro τ hτ
      cases τ <;> simp_all [ParentPc.before, ParentPc.behind]
  | close1 hp =>
    have hb : s.child .child1 ≠ .unborn := h.born _ (by simp [hp, ParentPc.behind])
    have hfds := h.fds (.inl ⟨_, hb⟩)
    refine h.parent ?_ (by simp [hp]) ?_ ?_ (by simp) (by simp) (by simp)
    · rw [h.parentTable, hp, hfds]
      rfl
    all_goals
      intro τ hτ
      cases τ <;> simp_all [ParentPc.before, ParentPc.behind]
  | wait1 e hp hc =>
    refine h.parent (by rw [h.parentTable, hp]; rfl) (by simp [hp]) ?_ ?_ ?_ (by simp) (by simp)
    · intro τ hτ
      cases τ <;> simp_all [ParentPc.before]
    · intro τ hτ
      cases τ <;> simp_all [ParentPc.behind]
    · intro e' he'
      simp only [ParentPc.wait2.injEq] at he'
      rw [hc, he']
  | wait2 st1 e hp hc =>
    refine h.parent (by rw [h.parentTable, hp]; rfl) (by simp [hp]) ?_ ?_ (by simp) ?_ (by simp)
    · intro τ hτ
      cases τ <;> simp_all [ParentPc.before]
    · intro τ hτ
      cases τ <;> simp_all [ParentPc.behind]
    · intro e₁ e₂ he
      simp only [ParentPc.report.injEq] at he
      rw [h.waited1 st1 hp, hc, he.1, he.2]
      exact ⟨rfl, rfl⟩
  | report st1 st2 hp =>
    obtain ⟨hc1, hc2⟩ := h.waited2 st1 st2 hp
    refine h.parent rfl (by simp [hp]) ?_ ?_ (by simp) (by simp) ?_
    · intro τ hτ
      cases τ <;> simp_all [ParentPc.before]
    · intro τ hτ
      cases τ <;> simp_all [ParentPc.behind]
    · intro st hst
      simp only [ParentPc.ended.injEq, End.exited.injEq] at hst
      exact ⟨hst.symm, st1, st2, hc1, hc2, rfl⟩
  | closeOther ρ hc =>
    refine h.goto (by simp [hc, ChildPc.alive]) (by simp) ?_
    rw [h.other_eq (hborn hc (by simp)), h.childTable, hc]
    rfl
  | dup2 ρ t hc hd =>
    rw [h.dup2 hc, Option.some.injEq] at hd
    exact h.goto (by simp [hc, ChildPc.alive]) (by simp) hd.symm
  | closeOwn ρ hc =>
    refine h.goto (by simp [hc, ChildPc.alive]) (by simp) ?_
    rw [h.own_eq (hborn hc (by simp)), h.childTable, hc]
    rfl
  | exec ρ hc =>
    refine h.goto (by simp [hc, ChildPc.alive]) (by simp) ?_
    rw [h.childTable, hc]
    rfl
  | exit ρ e he => exact h.goto (exits_alive he) (by simp) rfl
  | call ρ _ _ hcall => exact h.call hcall

theorem inv_reach (h : (pipeline P start cap).Reachable s) : Inv start s :=
  h.inv inv_init fun _ _ _ _ hi _ hs => inv_step hi hs

/-! ## The data -/

/-- Where `ls` is, with `rest` still to be written; `a` bounds the writes that can still fail. One
fails only if standard output was closed together with the pipe's end. -/
inductive LsAt (Q : Program UInt8 σ) (start : List Bool) (k : ℕ) : ChildPc → σ → Bytes → ℕ → Prop where
  | writes {pc : ChildPc} {x : σ} {rest : Bytes} : (∀ e, pc ≠ .ended e) → Q.Writes k rest x →
      LsAt Q start k pc x rest (k + 1)
  | quits {x : σ} {rest : Bytes} {a : ℕ} : high start = 1 → Q.Quits a x → LsAt Q start k .running x rest a
  | exited {st : UInt8} {x : σ} {rest : Bytes} : high start = 1 ∨ rest = [] →
      LsAt Q start k (.ended (.exited st)) x rest 0
  | lost {e : End} {x : σ} {rest : Bytes} : (∀ st, e ≠ .exited st) → LsAt Q start k (.ended e) x rest 0

/-- Where `wc` is: it reads until it is given the end of its input, or finds that closed. -/
inductive WcAt (Q : Program UInt8 σ) (start : List Bool) (k : ℕ) (reading : σ → Prop) :
    ChildPc → σ → Bool → ℕ → Prop where
  | reads {pc : ChildPc} {x : σ} : (∀ e, pc ≠ .ended e) → reading x → WcAt Q start k reading pc x false (k + 1)
  | quits {x : σ} {eof : Bool} {b : ℕ} : eof = true ∨ low start = 0 → Q.Quits b x →
      WcAt Q start k reading .running x eof b
  | ended {e : End} {x : σ} {eof : Bool} : (e ≠ .failed → eof = true ∨ low start = 0) →
      WcAt Q start k reading (.ended e) x eof 0

/-- **The data in a run**: what was read, what is in the pipe and what `ls` has still to write is
its text, and only a pipe that nobody can write to ends. -/
structure Work (P : Child → Program UInt8 σ) (start : List Bool) (out : Bytes) (k₁ k₂ : ℕ) (reading : σ → Prop)
    (s : State σ) (rest : Bytes) (a b : ℕ) : Prop where
  bytes : s.taken ++ s.buffer ++ rest = out
  ls : LsAt (P .child1) start k₁ (s.child .child1) (s.prog .child1) rest a
  wc : WcAt (P .child2) start k₂ reading (s.child .child2) (s.prog .child2) s.eof b
  eof : s.eof = true → low start ≠ 0 ∧ s.buffer = [] ∧ ∃ e, s.child .child1 = .ended e

variable {k₁ k₂ k a b : ℕ} {reading : σ → Prop} {rest : Bytes} {Q : Program UInt8 σ} {pc pc' : ChildPc} {x : σ}

theorem LsAt.moves (h : LsAt Q start k pc x rest a) (hpc : pc ≠ .running) (hend : ∀ e, pc ≠ .ended e)
    (hpc' : ∀ e, pc' ≠ .ended e) : LsAt Q start k pc' x rest a := by
  cases h with
  | writes _ hw => exact .writes hpc' hw
  | quits => exact absurd rfl hpc
  | exited => exact absurd rfl (hend _)
  | lost => exact absurd rfl (hend _)

theorem WcAt.moves {eof : Bool} (h : WcAt Q start k reading pc x eof b) (hpc : pc ≠ .running)
    (hend : ∀ e, pc ≠ .ended e) (hpc' : ∀ e, pc' ≠ .ended e) : WcAt Q start k reading pc' x eof b := by
  cases h with
  | reads _ hr => exact .reads hpc' hr
  | quits => exact absurd rfl hpc
  | ended => exact absurd rfl (hend _)

/-- **A child moves on** to its program, or into it. -/
theorem Work.goto {t : Table File} (h : Work P start out k₁ k₂ reading s rest a b) (hpc : s.child ρ ≠ .running)
    (hend : ∀ e, s.child ρ ≠ .ended e) (hpc' : ∀ e, pc' ≠ .ended e) :
    Work P start out k₁ k₂ reading (s.goto ρ pc' t) rest a b := by
  have hself : (s.goto ρ pc' t).child ρ = pc' := goto_self
  cases ρ with
  | child1 =>
    have hother : (s.goto .child1 pc' t).child .child2 = s.child .child2 := goto_other (by simp)
    refine ⟨h.bytes, hself ▸ h.ls.moves hpc hend hpc', hother ▸ h.wc, fun he => ?_⟩
    obtain ⟨-, -, e, h1⟩ := h.eof he
    exact absurd h1 (hend e)
  | child2 =>
    have hother : (s.goto .child2 pc' t).child .child1 = s.child .child1 := goto_other (by simp)
    refine ⟨h.bytes, hother ▸ h.ls, hself ▸ h.wc.moves hpc hend hpc', fun he => ?_⟩
    rw [hother]
    exact h.eof he

/-- A running `ls` has its next call, and writes into the pipe, if anywhere. -/
theorem LsAt.call (h : LsAt Q start k .running x rest a) :
    (∃ st, Q.call x = .exit st) ∨ ∃ b, Q.call x = .write b := by
  cases h with
  | writes _ hw => exact hw.call
  | quits _ hq => exact hq.call

theorem LsAt.done {st : UInt8} (h : LsAt Q start k .running x rest a) (hc : Q.call x = .exit st) :
    LsAt Q start k (.ended (.exited st)) x rest 0 := by
  cases h with
  | writes _ hw => exact .exited (.inr (hw.exited hc))
  | quits h1 _ => exact .exited (.inl h1)

/-- **`ls` ends.** -/
theorem Work.exit1 {e : End} (h : Work P start out k₁ k₂ reading s rest a b)
    (hls : LsAt (P .child1) start k₁ (.ended e) (s.prog .child1) rest 0) :
    Work P start out k₁ k₂ reading (s.exit .child1 e) rest 0 b := by
  have hself : (s.exit .child1 e).child .child1 = .ended e := goto_self
  have hother : (s.exit .child1 e).child .child2 = s.child .child2 := goto_other (by simp)
  refine ⟨h.bytes, hself ▸ hls, hother ▸ h.wc, fun he => ?_⟩
  obtain ⟨hlow, hbuf, -⟩ := h.eof he
  exact ⟨hlow, hbuf, e, hself⟩

/-- **`wc` ends.** -/
theorem Work.exit2 {e : End} (h : Work P start out k₁ k₂ reading s rest a b)
    (hwc : e ≠ .failed → s.eof = true ∨ low start = 0) :
    Work P start out k₁ k₂ reading (s.exit .child2 e) rest a 0 := by
  have hself : (s.exit .child2 e).child .child2 = .ended e := goto_self
  have hother : (s.exit .child2 e).child .child1 = s.child .child1 := goto_other (by simp)
  refine ⟨h.bytes, hother ▸ h.ls, hself ▸ .ended hwc, fun he => ?_⟩
  rw [hother]
  exact h.eof he

/-- `wc` in its program that does not read has been given the end of its input, or has found it
closed. -/
theorem WcAt.at_end {eof : Bool} (hQ : Q.Reads k reading) (h : WcAt Q start k reading .running x eof b)
    (hc : Q.call x ≠ .read) : (eof = true ∨ low start = 0) ∧ Q.Quits b x := by
  cases h with
  | reads _ hr => exact absurd (hQ.call x hr) hc
  | quits heof hq => exact ⟨heof, hq⟩

/-- One that reads has not. -/
theorem WcAt.goes_on {eof : Bool} (h : WcAt Q start k reading .running x eof b) (hc : Q.call x = .read) :
    reading x ∧ eof = false ∧ b = k + 1 := by
  cases h with
  | reads _ hr => exact ⟨hr, rfl, rfl⟩
  | quits _ hq => rcases hq.call with ⟨st, h⟩ | ⟨b, h⟩ <;> rw [hc] at h <;> cases h

/-! ## The budget -/

/-- The steps that a parent still has to take. -/
def ParentPc.rank : ParentPc → ℕ
  | .pipe => 8
  | .fork1 => 7
  | .fork2 => 6
  | .close0 => 5
  | .close1 => 4
  | .wait1 => 3
  | .wait2 _ => 2
  | .report _ _ => 1
  | .ended _ => 0

/-- The steps of a child, but for its reads and writes. -/
def ChildPc.rank : ChildPc → ℕ
  | .unborn => 6
  | .closeOther => 5
  | .dup2 => 4
  | .closeOwn => 3
  | .exec => 2
  | .running => 1
  | .ended _ => 0

/-- **The budget**: a step of the parent may start a child, a byte is written, then read, and the
other calls are counted by `a` and `b`. -/
def State.budget (s : State σ) (rest : Bytes) (a b : ℕ) : ℕ :=
  6 * s.parent.rank + (s.child .child1).rank + (s.child .child2).rank + (2 * rest.length + s.buffer.length) + (a + b)

theorem budget_goto {t : Table File} (h : pc'.rank < (s.child ρ).rank) :
    (s.goto ρ pc' t).budget rest a b < s.budget rest a b := by
  cases ρ <;> simp [State.budget, State.goto] <;> omega

theorem budget_fork {pc : ParentPc} (h : pc.rank < s.parent.rank) :
    (s.fork ρ pc).budget rest a b < s.budget rest a b := by
  cases ρ <;> simp [State.budget, State.fork, State.goto, ChildPc.rank] <;> omega

theorem budget_parent {pc : ParentPc} {t : Table File} {r : List (Child × UInt8)} (h : pc.rank < s.parent.rank) :
    State.budget { s with parent := pc, parentTable := t, reported := r } rest a b < s.budget rest a b := by
  simp only [State.budget]
  omega

theorem budget_exit {e : End} {a' b' : ℕ} (h : (s.child ρ).alive = true) (ha : a' ≤ a) (hb : b' ≤ b) :
    (s.exit ρ e).budget rest a' b' < s.budget rest a b := by
  have hlt : (s.exit ρ e).budget rest a b < s.budget rest a b := by
    refine budget_goto ?_
    cases hc : s.child ρ <;> simp [hc, ChildPc.alive, ChildPc.rank] at h ⊢
  refine Nat.lt_of_le_of_lt ?_ hlt
  simp only [State.budget]
  omega

/-! ## What the steps do to the data -/

/-- **A child ends**, and the data is as before. -/
theorem work_exit {e : End} (hwc : (P .child2).Reads k₂ reading)
    (h : Work P start out k₁ k₂ reading s rest a b) (he : Exits P s l ρ e) :
    ∃ a' ≤ a, ∃ b' ≤ b, Work P start out k₁ k₂ reading (s.exit ρ e) rest a' b' := by
  cases ρ with
  | child1 =>
    refine ⟨0, Nat.zero_le a, b, le_rfl, h.exit1 ?_⟩
    cases he with
    | dup2 | exec | sigpipe | struck => exact .lost (by simp)
    | done st hr hc =>
      have hls := h.ls
      rw [hr] at hls
      exact hls.done hc
  | child2 =>
    refine ⟨a, le_rfl, 0, Nat.zero_le b, h.exit2 fun hne => ?_⟩
    have hover (hr : s.child .child2 = .running) (hc : (P .child2).call (s.prog .child2) ≠ .read) :
        s.eof = true ∨ low start = 0 := by
      have hat := h.wc
      rw [hr] at hat
      exact (hat.at_end hwc hc).1
    cases he with
    | dup2 | exec => exact absurd rfl hne
    | done st hr hc => exact hover hr (by simp [hc])
    | sigpipe x hr hc => exact hover hr (by simp [hc])
    | struck x hr hc => exact hover hr (by simp [hc])

theorem resume_self {r : Program.Result UInt8} :
    (s.resume P ρ r).prog ρ = (P ρ).next (s.prog ρ) r := Function.update_self ..

theorem resume_other {r : Program.Result UInt8} {τ : Child} (h : τ ≠ ρ) : (s.resume P ρ r).prog τ = s.prog τ :=
  Function.update_of_ne h ..

/-- **A call of `ls`.** -/
theorem work_call1 (hI : Inv start s) (h : Work P start out k₁ k₂ reading s rest a b) (hr : s.child .child1 = .running)
    (hc : Calls P s .child1 s') :
    ∃ rest' a', Work P start out k₁ k₂ reading s' rest' a' b ∧ s'.budget rest' a' b < s.budget rest a b := by
  have hls := h.ls
  rw [hr] at hls
  have hwc (r : Program.Result UInt8) :
      WcAt (P .child2) start k₂ reading (s.child .child2) ((s.resume P .child1 r).prog .child2) s.eof b := by
    rw [resume_other (by simp)]
    exact h.wc
  -- `ls` has not ended, so no input has
  have heof : s.eof ≠ true := by
    intro he
    obtain ⟨-, -, e, h1⟩ := h.eof he
    rw [hr] at h1
    cases h1
  have hread : (P .child1).call (s.prog .child1) ≠ .read := by
    rcases hls.call with ⟨st, hst⟩ | ⟨b, hb⟩ <;> simp [*]
  cases hc with
  | take n hc => exact absurd hc hread
  | eof hc => exact absurd hc hread
  | input b hc => exact absurd hc hread
  | noInput hc => exact absurd hc hread
  | elsewhere x n hc hg => exact absurd hg (hI.get_std_ne hr)
  | write x n hc hg hn hpos =>
    cases hls with
    | quits h1 _ =>
      have := hI.get_std hr
      rw [if_pos (show Child.child1.std = Child.child1.ownFd start from h1.symm)] at this
      exact absurd (hg.symm.trans this) (by simp)
    | writes _ hw =>
      obtain ⟨hne, ⟨tail, rfl⟩, hnext, -⟩ := hw.part hc
      have hpos : 0 < n := hpos.resolve_right hne
      refine ⟨(x ++ tail).drop n, k₁ + 1, ⟨?_, ?_, ?_, fun he => absurd he heof⟩, ?_⟩
      · have hsplit : x.take n ++ (x ++ tail).drop n = x ++ tail := by
          rw [List.drop_append_of_le_length hn, ← List.append_assoc, List.take_append_drop]
        rw [← h.bytes, List.append_assoc, List.append_assoc, List.append_assoc, hsplit]
        rfl
      · show LsAt _ start k₁ (s.child .child1) ((s.resume P .child1 _).prog .child1) _ _
        rw [hr, resume_self]
        exact .writes (by simp) (hnext n hpos hn)
      · exact hwc (.wrote n)
      · simp only [State.budget, State.resume, List.length_append, List.length_drop, List.length_take]
        omega
  | noOutput x hc hg =>
    have h1 : high start = 1 := by
      by_contra h1
      have := hI.get_std hr
      rw [if_neg (show Child.child1.std ≠ Child.child1.ownFd start from Ne.symm h1)] at this
      exact hg this
    have hquits : ∃ j < a, (P .child1).Quits j ((P .child1).next (s.prog .child1) .failed) := by
      cases hls with
      | quits _ hq => exact hq.next hc (r := .failed) trivial
      | writes _ hw => exact ⟨k₁, Nat.lt_succ_self _, (hw.part hc).2.2.2⟩
    obtain ⟨j, hj, hq⟩ := hquits
    refine ⟨rest, j, ⟨h.bytes, ?_, hwc _, fun he => absurd he heof⟩, ?_⟩
    · show LsAt _ start k₁ (s.child .child1) ((s.resume P .child1 _).prog .child1) _ _
      rw [hr, resume_self]
      exact .quits h1 hq
    · simp only [State.budget, State.resume]
      omega

/-- **A call of `wc`.** -/
theorem work_call2 (hI : Inv start s) (hQ : (P .child2).Reads k₂ reading)
    (h : Work P start out k₁ k₂ reading s rest a b) (hr : s.child .child2 = .running) (hc : Calls P s .child2 s') :
    ∃ b', Work P start out k₁ k₂ reading s' rest a b' ∧ s'.budget rest a b' < s.budget rest a b := by
  have hwc := h.wc
  rw [hr] at hwc
  have hls (r : Program.Result UInt8) :
      LsAt (P .child1) start k₁ (s.child .child1) ((s.resume P .child2 r).prog .child1) rest a := by
    rw [resume_other (by simp)]
    exact h.ls
  -- what a write leads to
  have hwrite {x : Bytes} (r : Program.Result UInt8) (hres : r.OfWrite x)
      (hc : (P .child2).call (s.prog .child2) = .write x) :
      ∃ b', Work P start out k₁ k₂ reading (s.resume P .child2 r) rest a b' ∧
        (s.resume P .child2 r).budget rest a b' < s.budget rest a b := by
    obtain ⟨hover, hq⟩ := hwc.at_end hQ (by simp [hc])
    obtain ⟨j, hj, hq⟩ := hq.next hc hres
    refine ⟨j, ⟨h.bytes, hls _, ?_, h.eof⟩, ?_⟩
    · show WcAt _ start k₂ reading (s.child .child2) ((s.resume P .child2 r).prog .child2) s.eof j
      rw [hr, resume_self]
      exact .quits hover hq
    · simp only [State.budget, State.resume]
      omega
  cases hc with
  | take n hc hg hpos hn =>
    obtain ⟨hreading, heof, rfl⟩ := hwc.goes_on hc
    have hne : s.buffer.take n ≠ [] := by
      rw [ne_eq, List.take_eq_nil_iff]
      rintro (h0 | h0)
      · omega
      · rw [h0] at hn
        exact absurd hn (by simp; omega)
    refine ⟨k₂ + 1, ⟨?_, hls (.read (s.buffer.take n)), ?_, ?_⟩, ?_⟩
    · rw [← h.bytes]
      show s.taken ++ s.buffer.take n ++ s.buffer.drop n ++ rest = _
      rw [List.append_assoc s.taken, List.take_append_drop]
    · show WcAt _ start k₂ reading (s.child .child2) ((s.resume P .child2 _).prog .child2) s.eof _
      rw [hr, resume_self, heof]
      exact .reads (by simp) (hQ.data _ _ hreading hne)
    · intro he
      rw [show s.eof = true from he] at heof
      cases heof
    · simp only [State.budget, State.resume, List.length_drop]
      omega
  | eof hc hg hb hh =>
    obtain ⟨hreading, heof, rfl⟩ := hwc.goes_on hc
    -- standard input is an end of the pipe, so it was not closed by the last `close`
    have hlow : low start ≠ 0 := by
      intro h0
      have := hI.get_std hr
      rw [if_pos (show Child.child2.std = Child.child2.ownFd start from h0.symm)] at this
      exact absurd (hg.symm.trans this) (by simp)
    refine ⟨k₂, ⟨h.bytes, hls (.read []), ?_, fun _ => ⟨hlow, hb, hI.child1_ended hlow (by simp [hr]) hh⟩⟩, ?_⟩
    · show WcAt _ start k₂ reading (s.child .child2) ((s.resume P .child2 _).prog .child2) true _
      rw [hr, resume_self]
      exact .quits (.inl rfl) (hQ.ended _ hreading)
    · simp only [State.budget, State.resume]
      omega
  | input x hc hg => exact absurd hg (hI.get_std_ne hr)
  | noInput hc hg =>
    obtain ⟨hreading, heof, rfl⟩ := hwc.goes_on hc
    have hlow : low start = 0 := by
      by_contra h0
      have := hI.get_std hr
      rw [if_neg (show Child.child2.std ≠ Child.child2.ownFd start from Ne.symm h0)] at this
      exact hg this
    refine ⟨k₂, ⟨h.bytes, hls _, ?_, h.eof⟩, ?_⟩
    · show WcAt _ start k₂ reading (s.child .child2) ((s.resume P .child2 _).prog .child2) s.eof _
      rw [hr, resume_self]
      exact .quits (.inr hlow) (hQ.failed _ hreading)
    · simp only [State.budget, State.resume]
      omega
  | write x n hc hg => exact absurd hg (hI.get_ne hr (by simp [Child.file]) (by simp) 1)
  | elsewhere x n hc hg hn hpos => exact hwrite _ ⟨hn, hpos⟩ hc
  | noOutput x hc hg => exact hwrite .failed trivial hc

/-- **Every step keeps the data together and lowers the budget.** -/
theorem work_step (hQ : (P .child2).Reads k₂ reading) (hI : Inv start s)
    (h : Work P start out k₁ k₂ reading s rest a b) (hs : s.step P cap l = some s') :
    ∃ rest' a' b', Work P start out k₁ k₂ reading s' rest' a' b' ∧ s'.budget rest' a' b' < s.budget rest a b := by
  have hwork : ∀ {pc : ParentPc} {t : Table File} {r : List (Child × UInt8)}, pc.rank < s.parent.rank →
      ∃ rest' a' b', Work P start out k₁ k₂ reading { s with parent := pc, parentTable := t, reported := r } rest' a' b' ∧
        State.budget { s with parent := pc, parentTable := t, reported := r } rest' a' b' < s.budget rest a b :=
    fun hpc => ⟨rest, a, b, ⟨h.bytes, h.ls, h.wc, h.eof⟩, budget_parent hpc⟩
  have hgoto : ∀ {ρ : Child} {pc : ChildPc} {t : Table File}, pc.rank < (s.child ρ).rank → s.child ρ ≠ .running →
      (∀ e, s.child ρ ≠ .ended e) → (∀ e, pc ≠ .ended e) →
      ∃ rest' a' b', Work P start out k₁ k₂ reading (s.goto ρ pc t) rest' a' b' ∧
        (s.goto ρ pc t).budget rest' a' b' < s.budget rest a b :=
    fun hlt hpc hend hpc' => ⟨rest, a, b, h.goto hpc hend hpc', budget_goto hlt⟩
  have hfork : ∀ {ρ : Child} {pc : ParentPc}, s.parent.before ρ = true → pc.rank < s.parent.rank →
      ∃ rest' a' b', Work P start out k₁ k₂ reading (s.fork ρ pc) rest' a' b' ∧
        (s.fork ρ pc).budget rest' a' b' < s.budget rest a b := by
    intro ρ pc hbefore hpc
    have hun := hI.unborn ρ hbefore
    have hw : Work P start out k₁ k₂ reading (s.goto ρ .closeOther s.parentTable) rest a b :=
      h.goto (by simp [hun]) (by simp [hun]) (by simp)
    exact ⟨rest, a, b, ⟨hw.bytes, hw.ls, hw.wc, hw.eof⟩, budget_fork hpc⟩
  cases step_move hs with
  | pipe hp => exact ⟨rest, a, b, ⟨h.bytes, h.ls, h.wc, h.eof⟩, by simp [State.budget, State.pipe, hp, ParentPc.rank]⟩
  | die hp _ => exact hwork (by rcases hp with hp | hp | hp <;> simp [hp, ParentPc.rank])
  | fork1 hp => exact hfork (by simp [hp, ParentPc.before]) (by simp [hp, ParentPc.rank])
  | fork2 hp => exact hfork (by simp [hp, ParentPc.before]) (by simp [hp, ParentPc.rank])
  | close0 hp => exact hwork (by simp [hp, ParentPc.rank])
  | close1 hp => exact hwork (by simp [hp, ParentPc.rank])
  | wait1 e hp _ => exact hwork (by simp [hp, ParentPc.rank])
  | wait2 st1 e hp _ => exact hwork (by simp [hp, ParentPc.rank])
  | report st1 st2 hp => exact hwork (by simp [hp, ParentPc.rank])
  | closeOther ρ hc => exact hgoto (by simp [hc, ChildPc.rank]) (by simp [hc]) (by simp [hc]) (by simp)
  | dup2 ρ t hc _ => exact hgoto (by simp [hc, ChildPc.rank]) (by simp [hc]) (by simp [hc]) (by simp)
  | closeOwn ρ hc => exact hgoto (by simp [hc, ChildPc.rank]) (by simp [hc]) (by simp [hc]) (by simp)
  | exec ρ hc => exact hgoto (by simp [hc, ChildPc.rank]) (by simp [hc]) (by simp [hc]) (by simp)
  | exit ρ e he =>
    obtain ⟨a', ha, b', hb, hw⟩ := work_exit hQ h he
    exact ⟨rest, a', b', hw, budget_exit (exits_alive he) ha hb⟩
  | call ρ s' hr hc =>
    cases ρ with
    | child1 =>
      obtain ⟨rest', a', hw, hlt⟩ := work_call1 hI h hr hc
      exact ⟨rest', a', b, hw, hlt⟩
    | child2 =>
      obtain ⟨b', hw, hlt⟩ := work_call2 hI hQ h hr hc
      exact ⟨rest, a, b', hw, hlt⟩

theorem work_init (hls : (P .child1).Writes k₁ out (P .child1).start) (hQ : (P .child2).Reads k₂ reading) :
    Work P start out k₁ k₂ reading (pipeline P start cap).init out (k₁ + 1) (k₂ + 1) :=
  ⟨rfl, .writes (by simp [pipeline]) hls, .reads (by simp [pipeline]) hQ.start, by simp [pipeline]⟩

/-- The state has the data together, on a budget of `n`. -/
def Budgeted (P : Child → Program UInt8 σ) (start : List Bool) (out : Bytes) (k₁ k₂ : ℕ) (reading : σ → Prop)
    (s : State σ) (n : ℕ) : Prop :=
  Inv start s ∧ ∃ rest a b, Work P start out k₁ k₂ reading s rest a b ∧ s.budget rest a b = n

theorem budgeted_step (hQ : (P .child2).Reads k₂ reading) {n : ℕ} (h : Budgeted P start out k₁ k₂ reading s n)
    (hs : s.step P cap l = some s') : ∃ m < n, Budgeted P start out k₁ k₂ reading s' m := by
  obtain ⟨hI, rest, a, b, hw, rfl⟩ := h
  obtain ⟨rest', a', b', hw', hlt⟩ := work_step hQ hI hw hs
  exact ⟨_, hlt, inv_step hI hs, rest', a', b', hw', rfl⟩

theorem budgeted_init (hls : (P .child1).Writes k₁ out (P .child1).start) (hQ : (P .child2).Reads k₂ reading) :
    Budgeted P start out k₁ k₂ reading (pipeline P start cap).init (62 + 2 * out.length + k₁ + k₂) := by
  refine ⟨inv_init, out, k₁ + 1, k₂ + 1, work_init hls hQ, ?_⟩
  simp only [State.budget, pipeline, ParentPc.rank, ChildPc.rank, List.length_nil]
  omega

theorem budgeted_reach (hls : (P .child1).Writes k₁ out (P .child1).start) (hQ : (P .child2).Reads k₂ reading)
    (h : (pipeline P start cap).Reachable s) :
    ∃ n ≤ 62 + 2 * out.length + k₁ + k₂, Budgeted P start out k₁ k₂ reading s n := by
  refine h.inv (I := fun s => ∃ n ≤ _, Budgeted P start out k₁ k₂ reading s n) ⟨_, le_rfl, budgeted_init hls hQ⟩ ?_
  rintro s l s' - ⟨n, hn, hs⟩ - hst
  obtain ⟨m, hm, hs'⟩ := budgeted_step hQ hs hst
  exact ⟨m, by omega, hs'⟩

/-! ## Nobody waits for ever -/

/-- Some process can move, without a failing call. -/
def State.Moves (P : Child → Program UInt8 σ) (cap : ℕ) (s : State σ) : Prop :=
  ∃ l s', NoFail s l ∧ s.step P cap l = some s'

theorem moves_parent {t : State σ} (h : s.parentStep true = some t) : s.Moves P cap := ⟨.parent true, t, rfl, h⟩

theorem moves_child {t : State σ} (ρ : Child) (ch : Choice) (hch : s.child ρ = .exec → ch ≠ .fail)
    (h : s.childStep P cap ρ ch = some t) :
    s.Moves P cap := ⟨.child ρ ch, t, hch, h⟩

/-- The places where the parent may wait. -/
theorem parent_waits (h : ¬ s.Moves P cap) :
    s.parent = .wait1 ∨ (∃ e, s.parent = .wait2 e) ∨ ∃ e, s.parent = .ended e := by
  by_contra hne
  refine h ?_
  cases hp : s.parent with
  | wait1 => exact absurd (.inl hp) hne
  | wait2 e => exact absurd (.inr (.inl ⟨e, hp⟩)) hne
  | ended e => exact absurd (.inr (.inr ⟨e, hp⟩)) hne
  | _ => exact moves_parent (by simp only [State.parentStep, hp]; rfl)

/-- A child only waits in its program. -/
theorem child_waits (h : ¬ s.Moves P cap) (ha : (s.child ρ).alive = true) : s.child ρ = .running := by
  by_contra hne
  refine h ?_
  cases hc : s.child ρ with
  | unborn => simp [hc, ChildPc.alive] at ha
  | ended e => simp [hc, ChildPc.alive] at ha
  | running => exact absurd hc hne
  | exec => exact moves_child ρ .ok (by simp) (by simp only [State.childStep, hc]; rfl)
  | dup2 =>
    cases hd : (s.childTable ρ).dup2 (s.own ρ) ρ.std with
    | none => exact moves_child ρ .ok (by simp) (by simp only [State.childStep, hc, hd]; rfl)
    | some t => exact moves_child ρ .ok (by simp) (by simp only [State.childStep, hc, hd]; rfl)
  | _ => exact moves_child ρ .ok (by simp) (by simp only [State.childStep, hc]; rfl)

/-- A child that waits is before a read or a write that cannot be done. -/
theorem run_waits (h : ¬ s.Moves P cap) (hr : s.child ρ = .running) (ch : Choice) : s.run P cap ρ ch = none := by
  by_contra hne
  obtain ⟨t, ht⟩ := Option.ne_none_iff_exists'.1 hne
  exact h (moves_child ρ ch (by simp [hr]) (by simpa only [State.childStep, hr] using ht))

/-- A writer waits only in front of a full pipe that somebody can read. -/
theorem write_waits {x : Bytes} (h : ¬ s.Moves P cap) (hr : s.child ρ = .running)
    (hc : (P ρ).call (s.prog ρ) = .write x) :
    (s.childTable ρ).get 1 = some .writeEnd ∧ s.held .readEnd = true ∧ cap ≤ s.buffer.length := by
  have hw (ch : Choice) : s.write P cap ρ x ch = none := by
    have := run_waits h hr ch
    simpa only [State.run, hc] using this
  have hpos : 0 < min 1 x.length ∨ x = [] := by
    cases x with
    | nil => exact .inr rfl
    | cons y x => exact .inl (by simp)
  have h1 := hw (.bytes (min 1 x.length))
  unfold State.write at h1
  split at h1
  · rename_i hg
    split at h1
    · rename_i hheld
      split at h1
      · rename_i n hn
        obtain rfl := Choice.bytes.inj hn
        split at h1
        · cases h1
        · rename_i hroom
          refine ⟨hg, hheld, ?_⟩
          by_contra hlt
          exact hroom ⟨Nat.min_le_right .., hpos, by omega⟩
      · rename_i hno
        exact absurd rfl (hno _)
    · cases h1
  · split at h1
    · rename_i n hn
      obtain rfl := Choice.bytes.inj hn
      rw [if_pos ⟨Nat.min_le_right .., hpos⟩] at h1
      cases h1
    · cases h1
    · cases h1
    · rename_i hno _ _
      exact absurd rfl (hno _)
  · cases h1
  · cases h1

/-- A reader waits only for a pipe that is empty and that somebody can write to. -/
theorem read_waits (h : ¬ s.Moves P cap) (hr : s.child ρ = .running) (hc : (P ρ).call (s.prog ρ) = .read) :
    s.held .writeEnd = true ∧ s.buffer = [] := by
  have hread (ch : Choice) : s.read P ρ ch = none := by
    have := run_waits h hr ch
    simpa only [State.run, hc] using this
  have h1 := hread (.bytes 1)
  have h2 := hread .fail
  unfold State.read at h1 h2
  split at h1
  · split at h1
    · rename_i hb
      split at h1
      · rename_i hh
        exact ⟨hh, hb⟩
      · cases h1
    · rename_i hb
      have hlen := List.length_pos_iff.2 hb
      simp only [Nat.one_pos, true_and, if_pos (show 1 ≤ s.buffer.length from hlen), reduceCtorEq] at h1
  · rename_i hg
    simp [hg] at h2
  · cases h1
  · cases h1

/-- **Some process can move as long as one has not ended.** -/
theorem progress (hcap : 0 < cap) (h : Inv start s) (hw : Work P start out k₁ k₂ reading s rest a b)
    (hover : ¬ s.Over) : s.Moves P cap := by
  by_contra hno
  have hparent {f : File} (hi : f ≠ .inherited) : s.parentTable.has f = false := by
    rw [h.parentTable]
    rcases parent_waits hno with hp | ⟨e, hp⟩ | ⟨e, hp⟩ <;> rw [hp]
    · exact parent_not_has (.inr (.inl rfl)) hi
    · exact parent_not_has (.inr (.inr (.inl ⟨e, rfl⟩))) hi
    · exact parent_not_has (.inr (.inr (.inr (.inr ⟨e, rfl⟩)))) hi
  have hrunning {ρ : Child} {f : File} (hf : (s.childTable ρ).has f = true) : s.child ρ = .running := by
    refine child_waits hno ?_
    rw [h.childTable] at hf
    cases hc : s.child ρ <;> simp [hc, ChildPc.table, Table.has, ChildPc.alive] at hf ⊢
  have hnot {ρ : Child} {f : File} (hr : s.child ρ = .running) (hf : f ≠ ρ.file) (hi : f ≠ .inherited) :
      (s.childTable ρ).has f = false := by
    rw [h.childTable, hr]
    exact not_has_other (by simp) hf hi
  have hexit {ρ : Child} (hr : s.child ρ = .running) (st : UInt8) : (P ρ).call (s.prog ρ) ≠ .exit st := by
    intro hc
    have := run_waits hno hr .ok
    simp [State.run, hc] at this
  -- `wc` waits in a read, for what somebody may write
  have hwc (hr : s.child .child2 = .running) : s.held .writeEnd = true ∧ s.buffer = [] := by
    cases hc : (P .child2).call (s.prog .child2) with
    | read => exact read_waits hno hr hc
    | write x =>
      obtain ⟨hg, -⟩ := write_waits hno hr hc
      exact absurd hg (h.get_ne hr (by simp [Child.file]) (by simp) 1)
    | exit st => exact absurd hc (hexit hr st)
  -- a full pipe has a reader, which then does not wait
  have h1 : s.child .child1 ≠ .running := by
    intro hr
    have hls := hw.ls
    rw [hr] at hls
    rcases hls.call with ⟨st, hc⟩ | ⟨x, hc⟩
    · exact hexit hr st hc
    obtain ⟨-, hheld, hfull⟩ := write_waits hno hr hc
    rw [State.held, hparent (by simp), hnot hr (by simp [Child.file]) (by simp)] at hheld
    obtain ⟨-, hempty⟩ := hwc (hrunning (f := .readEnd) (by simpa using hheld))
    simp [hempty] at hfull
    omega
  -- an empty one has a writer, which does not wait either
  have h2 : s.child .child2 ≠ .running := by
    intro hr
    obtain ⟨hheld, -⟩ := hwc hr
    rw [State.held, hparent (by simp), hnot hr (by simp [Child.file]) (by simp)] at hheld
    exact h1 (hrunning (f := .writeEnd) (by simpa using hheld))
  have hend (ρ : Child) : s.child ρ = .unborn ∨ ∃ e, s.child ρ = .ended e := by
    cases hc : s.child ρ with
    | unborn => exact .inl rfl
    | ended e => exact .inr ⟨e, rfl⟩
    | _ =>
      have := child_waits hno (ρ := ρ) (by simp [hc, ChildPc.alive])
      cases ρ
      · exact absurd this h1
      · exact absurd this h2
  rcases parent_waits hno with hp | ⟨e, hp⟩ | hp
  · obtain ⟨e, he⟩ := (hend .child1).resolve_left (h.born _ (by simp [hp, ParentPc.behind]))
    exact hno (moves_parent (by simp only [State.parentStep, hp, he]; rfl))
  · obtain ⟨e', he⟩ := (hend .child2).resolve_left (h.born _ (by simp [hp, ParentPc.behind]))
    exact hno (moves_parent (by simp only [State.parentStep, hp, he]; rfl))
  · exact hover ⟨hp, hend⟩

/-- `ls` has exited, and its input has come to its end: all is read. -/
theorem Work.taken_all {st : UInt8} (h : Work P start out k₁ k₂ reading s rest a b) (he : s.eof = true)
    (h1 : s.child .child1 = .ended (.exited st)) : s.taken = out := by
  obtain ⟨hlow, hbuf, -⟩ := h.eof he
  have hlt := low_lt_high start
  have hls := h.ls
  rw [h1] at hls
  have hrest : rest = [] := by
    cases hls with
    | writes hne => exact absurd rfl (hne _)
    | exited hor => exact hor.resolve_left (by omega)
    | lost hne => exact absurd rfl (hne st)
  rw [← h.bytes, hbuf, hrest, List.append_nil, List.append_nil]

/-- `wc` that has not given up ends behind the end of its input. -/
theorem Work.eof_of_ended {e : End} (h : Work P start out k₁ k₂ reading s rest a b) (h2 : s.child .child2 = .ended e)
    (he : e ≠ .failed) (hlow : low start ≠ 0) : s.eof = true := by
  have hwc := h.wc
  rw [h2] at hwc
  generalize s.eof = eof at hwc
  cases hwc with
  | reads hne => exact absurd rfl (hne e)
  | ended hor => exact (hor he).resolve_right hlow

/-- **The pipeline always comes to its end**: for an `ls` that writes `out` and a `wc` that reads
its input to the end, in every run, with whatever calls failing, what was read is a prefix of
`out`; the end of the input comes only behind the end of `ls`, and is then the end of `out`, if
`ls` has exited; a `wc` that has exited has read it, if standard input was open at the start; as
long as a process has not ended some process can move; and no run is longer than the bytes and
the programs allow. -/
theorem no_hang (hcap : 0 < cap) (hls : (P .child1).Writes k₁ out (P .child1).start)
    (hQ : (P .child2).Reads k₂ reading) (h : (pipeline P start cap).Reachable s) :
    s.taken <+: out ∧
    (s.eof = true → ∃ e, s.child .child1 = .ended e) ∧
    (∀ st, s.eof = true → s.child .child1 = .ended (.exited st) → s.taken = out) ∧
    (∀ st, start[0]? = some true → s.child .child2 = .ended (.exited st) → s.eof = true) ∧
    (¬ s.Over → ∃ l, s.step P cap l ≠ none) ∧
    ∀ ls t, (pipeline P start cap).run Trans.Free s ls = some t → ls.length ≤ 62 + 2 * out.length + k₁ + k₂ := by
  obtain ⟨n, hn, hbudget⟩ := budgeted_reach hls hQ h
  obtain ⟨hI, rest, a, b, hw, -⟩ := id hbudget
  refine ⟨⟨s.buffer ++ rest, by rw [← List.append_assoc]; exact hw.bytes⟩, fun he => (hw.eof he).2.2,
    fun st he h1 => hw.taken_all he h1, fun st hopen h2 => ?_, fun hover => ?_, fun ls t ht => ?_⟩
  · exact hw.eof_of_ended h2 (by simp) fun h0 => low_eq_zero.1 h0 hopen
  · obtain ⟨l, t, -, ht⟩ := progress hcap hI hw hover
    exact ⟨l, by simp [ht]⟩
  · have hlen := Trans.run_length_le_budget (R := Budgeted P start out k₁ k₂ reading)
      (fun _ _ _ _ hR hst => budgeted_step hQ hR hst) hbudget ht
    omega

/-! ## Two programs -/

/-- Where two small programs are: one that lists a text, one that counts lines. -/
inductive Demo where
  | list (rest : Bytes)
  | count (lines : ℕ)
  | total (lines : ℕ)
  | exit (st : UInt8)
  deriving DecidableEq

/-- The line with the count. -/
def totalLine (lines : ℕ) : Bytes := Chat.decimal lines ++ [10]

def Demo.call : Demo → Program.Call UInt8
  | .list [] => .exit 0
  | .list rest => .write rest
  | .count _ => .read
  | .total lines => .write (totalLine lines)
  | .exit st => .exit st

def Demo.next : Demo → Program.Result UInt8 → Demo
  | .list rest, .wrote n => .list (rest.drop n)
  | .count lines, .read [] => .total lines
  | .count lines, .read b => .count (lines + b.count 10)
  | .total lines, .wrote n => .exit (if n = (totalLine lines).length then 0 else 1)
  | _, _ => .exit 1

/-- A listing of this text, and a count of lines. -/
def demo (text : Bytes) : Child → Program UInt8 Demo
  | .child1 => ⟨.list text, Demo.call, Demo.next⟩
  | .child2 => ⟨.count 0, Demo.call, Demo.next⟩

theorem demo_writes (text : Bytes) : (demo text .child1).Writes 0 text (.list text) := by
  suffices h : ∀ m (rest : Bytes), rest.length ≤ m → (demo text .child1).Writes 0 rest (.list rest) from
    h _ text le_rfl
  intro m
  induction m with
  | zero =>
    intro rest hm
    obtain rfl := List.eq_nil_of_length_eq_zero (Nat.le_zero.1 hm)
    exact .exit rfl
  | succ m ih =>
    intro rest hm
    cases rest with
    | nil => exact .exit rfl
    | cons x rest =>
      refine .write (b := x :: rest) rfl (by simp) (List.prefix_refl _) (fun n hn _ => ih _ ?_) (.exit 0 rfl)
      rw [List.length_drop, List.length_cons]
      rw [List.length_cons] at hm
      omega

theorem demo_reads (text : Bytes) : (demo text .child2).Reads 1 fun x => ∃ lines, x = .count lines where
  start := ⟨0, rfl⟩
  call := by
    rintro x ⟨lines, rfl⟩
    rfl
  data := by
    rintro x b ⟨lines, rfl⟩ hb
    cases b with
    | nil => exact absurd rfl hb
    | cons y b => exact ⟨_, rfl⟩
  ended := by
    rintro x ⟨lines, rfl⟩
    refine .write (b := totalLine lines) rfl fun r hr => ?_
    cases r with
    | wrote n => exact .exit 0 rfl
    | failed => exact .exit 0 rfl
    | read b => exact absurd hr id
  failed := by
    rintro x ⟨lines, rfl⟩
    exact .exit 1 rfl

/-- A full run with an output of two bytes and a pipe of one. -/
def fullRun : List Label :=
  .replicate 5 (.parent true) ++ .replicate 4 (.child .child1 .ok) ++ .replicate 4 (.child .child2 .ok) ++
    [.child .child1 (.bytes 1), .child .child2 (.bytes 1), .child .child1 (.bytes 1), .child .child2 (.bytes 1),
      .child .child1 .ok, .child .child2 .ok, .child .child2 (.bytes 2), .child .child2 .ok] ++
    .replicate 3 (.parent true)

theorem no_hang_full :
    ((pipeline (demo [65, 10]) [true, true, true] 1).after Trans.Free fullRun).taken = [65, 10] :=
  (no_hang Nat.one_pos (demo_writes _) (demo_reads _) (Trans.reach_after fullRun)).2.2.1 0 (by decide +kernel)
    (by decide +kernel)

/-! ## Runs without failing calls -/

/-- Nobody has given up, and `ls` was not killed. -/
structure Fine (s : State σ) : Prop where
  parent : ∀ e, s.parent = .ended e → ∃ st, e = .exited st
  children : ∀ ρ, s.child ρ ≠ .ended .failed
  ls : s.child .child1 ≠ .ended .killed

/-- As long as `ls` runs somebody can read the pipe. -/
theorem Inv.readable (h : Inv start s) (hw : Work P start out k₁ k₂ reading s rest a b) (hf : Fine s)
    (hlow : low start ≠ 0) (hr : s.child .child1 = .running) : s.held .readEnd = true := by
  have hparent : s.parent.before .child2 = true → s.parentTable.has .readEnd = true := by
    intro hb
    have hp : s.parent.table start = piped start := by
      cases hp : s.parent with
      | pipe =>
        have := h.unborn .child1 (by simp [hp, ParentPc.before])
        simp [hr] at this
      | fork1 => rfl
      | fork2 => rfl
      | _ => simp [hp, ParentPc.before] at hb
    rw [h.parentTable, hp]
    exact Table.has_iff.2 ⟨low start, by simp [get_piped, (low_lt_high start).ne]⟩
  have hchild : (s.child .child2).alive = true → (s.childTable .child2).has .readEnd = true := by
    intro ha
    rw [h.childTable]
    exact has_own (ρ := .child2) ha hlow
  cases hc : s.child .child2 with
  | unborn =>
    have hb : s.parent.before .child2 = true := by
      have hnot := fun hb => h.born .child2 hb hc
      cases hp : s.parent with
      | pipe => rfl
      | fork1 => rfl
      | fork2 => rfl
      | ended e =>
        obtain ⟨st, rfl⟩ := hf.parent e hp
        exact absurd (by simp [hp, ParentPc.behind]) hnot
      | _ => exact absurd (by simp [hp, ParentPc.behind]) hnot
    simp [State.held, hparent hb]
  | ended e =>
    -- it has been given the end of its input, so `ls` has ended
    have hne : e ≠ .failed := fun he => hf.children .child2 (he ▸ hc)
    obtain ⟨-, -, e', h1⟩ := hw.eof (hw.eof_of_ended hc hne hlow)
    simp [hr] at h1
  | _ => simp [State.held, hchild (by simp [hc, ChildPc.alive])]

/-- Nobody ends in this step. -/
theorem Fine.goto {t : Table File} (h : Fine s) (hpc : ∀ e, pc ≠ .ended e) : Fine (s.goto ρ pc t) := by
  have hended {τ : Child} {e : End} (he : (s.goto ρ pc t).child τ = .ended e) : s.child τ = .ended e := by
    by_cases hτ : τ = ρ
    · subst hτ
      rw [goto_self] at he
      exact absurd he (hpc e)
    · rwa [goto_other hτ] at he
  exact ⟨h.parent, fun τ he => h.children τ (hended he), fun he => h.ls (hended he)⟩

theorem Fine.exit {e : End} (h : Fine s) (hne : e ≠ .failed) (hls : ρ = .child1 → e ≠ .killed) : Fine (s.exit ρ e) := by
  have hended {τ : Child} {e' : End} (he : (s.exit ρ e).child τ = .ended e') :
      τ = ρ ∧ e' = e ∨ s.child τ = .ended e' := by
    by_cases hτ : τ = ρ
    · subst hτ
      have hself : (s.exit τ e).child τ = .ended e := goto_self
      rw [hself, ChildPc.ended.injEq] at he
      exact .inl ⟨rfl, he.symm⟩
    · have hother : (s.exit ρ e).child τ = s.child τ := goto_other hτ
      exact .inr (hother ▸ he)
  refine ⟨h.parent, fun τ he => ?_, fun he => ?_⟩
  · rcases hended he with ⟨-, he⟩ | he
    · exact hne he.symm
    · exact h.children τ he
  · rcases hended he with ⟨hρ, he⟩ | he
    · exact hls hρ.symm he.symm
    · exact h.ls he

end Pipe
