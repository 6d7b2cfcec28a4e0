import LinuxExercises.Sync.Trans
import Mathlib.Logic.Function.Basic
import Mathlib.Data.Fintype.Card

/-!
# The restaurant: two trays, three semaphores each

The shared memory of `shared.c`, the chefs of `chef.c` and the customers of
`consumer.c`, one step for each `sem_wait`, each slot a scan looks at, and each
`sem_post`. `sem_wait` returns only after it has taken a token (an interrupted call
is restarted). The dish names, the sleeps and the printed lines are left out.

A chef's loop body and an `eat_*_once` are the same sequence of operations on one
tray (`Visit`), with different semaphores and a different slot to look for.
-/

namespace Restaurant

/-- `food_type_t`. -/
inductive Food where
  | EMPTY
  | VEGAN
  | NON_VEGAN
  deriving DecidableEq, Repr

/-- The two trays of `shared_data_t`. -/
inductive Side where
  | vegan
  | nonvegan
  deriving DecidableEq, Repr

/-- What `print_tray_status` and the customers expect on a tray. -/
def Side.food : Side → Food
  | .vegan => .VEGAN
  | .nonvegan => .NON_VEGAN

/-- The two counting semaphores of a tray. -/
inductive Tok where
  | empty
  | full
  deriving DecidableEq, Repr

/-- One tray of `shared_data_t` with its semaphores: `vegan_tray`, `vegan_mutex`,
`vegan_empty`, `vegan_full`, and the same of the other side. `n` is `TRAY_SIZE`. -/
structure Tray (n : ℕ) where
  slots : Fin n → Food
  mutex : ℕ
  empty : ℕ
  full : ℕ

namespace Tray

variable {n : ℕ}

/-- The value of a counting semaphore. -/
def sem (t : Tray n) : Tok → ℕ
  | .empty => t.empty
  | .full => t.full

/-- The tray with another value of a counting semaphore. -/
def setSem (t : Tray n) : Tok → ℕ → Tray n
  | .empty, v => { t with empty := v }
  | .full, v => { t with full := v }

/-- The tray with another dish in slot `k`. -/
def write (t : Tray n) (k : Fin n) (f : Food) : Tray n :=
  { t with slots := Function.update t.slots k f }

/-- The number of slots that are not `EMPTY`: what `print_tray_status` counts. -/
def occupied (t : Tray n) : ℕ := (Finset.univ.filter fun k => t.slots k ≠ .EMPTY).card

end Tray

/-- `shared_data_t`. -/
abbrev SharedData (n : ℕ) := Side → Tray n

/-- `init_shared_memory`: the slots are cleared, `sem_init` sets the six semaphores. -/
def initSharedMemory (n : ℕ) : SharedData n := fun _ => ⟨fun _ => .EMPTY, 1, n, 0⟩

/-- One pass over a tray: take a token, take the mutex, put `puts` in the first slot
that holds `finds`, give the mutex back, give a token. -/
structure Visit where
  side : Side
  takes : Tok
  gives : Tok
  finds : Food
  puts : Food
  deriving DecidableEq, Repr

/-- The loop body of `chef_vegan`. -/
def chefVegan : Visit := ⟨.vegan, .empty, .full, .EMPTY, .VEGAN⟩

/-- The loop body of `chef_nonvegan`. -/
def chefNonvegan : Visit := ⟨.nonvegan, .empty, .full, .EMPTY, .NON_VEGAN⟩

/-- `eat_vegan_once`. -/
def eatVeganOnce : Visit := ⟨.vegan, .full, .empty, .VEGAN, .EMPTY⟩

/-- `eat_nonvegan_once`. -/
def eatNonveganOnce : Visit := ⟨.nonvegan, .full, .empty, .NON_VEGAN, .EMPTY⟩

/-- The kinds of processes `main` forks. -/
inductive Kind where
  | chefVegan
  | chefNonvegan
  | customerVegan
  | customerNonvegan
  | customerHybrid
  deriving DecidableEq, Repr

/-- The visits of one round of the process's `while (1)`: the first and the others. -/
def Kind.round : Kind → Visit × List Visit
  | .chefVegan => (Restaurant.chefVegan, [])
  | .chefNonvegan => (Restaurant.chefNonvegan, [])
  | .customerVegan => (eatVeganOnce, [])
  | .customerNonvegan => (eatNonveganOnce, [])
  | .customerHybrid => (eatVeganOnce, [eatNonveganOnce])

/-- Where a process is in a visit. `success` is the variable of `eat_*_once`; for a
chef it says whether the loop put a dish on the tray. -/
inductive Stage where
  | waitToken
  | waitMutex
  | scan (k : ℕ)
  | postMutex (success : Bool)
  | postToken (success : Bool)
  deriving DecidableEq, Repr

/-- A process: the visit it makes, the visits left in this round, and its stage. -/
structure Proc where
  visit : Visit
  left : List Visit
  stage : Stage

/-- A process at the top of its loop. -/
def Kind.start (κ : Kind) : Proc := ⟨κ.round.1, κ.round.2, .waitToken⟩

/-- The process after its visit: the next one of the round, or a new round. -/
def Proc.next (κ : Kind) (p : Proc) : Proc :=
  match p.left with
  | v :: vs => ⟨v, vs, .waitToken⟩
  | [] => κ.start

/-- The whole restaurant: the shared memory, the processes, and (for the statements)
the numbers of dishes put on and taken off each tray so far. -/
structure State (ι : Type*) (n : ℕ) where
  data : SharedData n
  proc : ι → Proc
  added : Side → ℕ
  eaten : Side → ℕ

variable {ι : Type*} {n : ℕ}

/-- The restaurant when `main` has initialised the memory and forked the processes. -/
def State.init (kind : ι → Kind) (n : ℕ) : State ι n :=
  ⟨initSharedMemory n, fun i => (kind i).start, fun _ => 0, fun _ => 0⟩

/-- The visit process `i` is making. -/
abbrev State.visit (s : State ι n) (i : ι) : Visit := (s.proc i).visit

/-- The tray process `i` is visiting. -/
abbrev State.tray (s : State ι n) (i : ι) : Tray n := s.data (s.visit i).side

variable [DecidableEq ι]

/-- Process `i` changes its tray and moves on. -/
def State.put (s : State ι n) (i : ι) (t : Tray n) (p : Proc) : State ι n :=
  { s with data := Function.update s.data (s.visit i).side t, proc := Function.update s.proc i p }

/-- Count the dish that a visit has put on its tray or taken off it. -/
def State.tally (s : State ι n) (v : Visit) : State ι n :=
  match v.takes with
  | .empty => { s with added := Function.update s.added v.side (s.added v.side + 1) }
  | .full => { s with eaten := Function.update s.eaten v.side (s.eaten v.side + 1) }

/-- **One step of process `i`.** A `sem_wait` on a semaphore whose value is 0 blocks. -/
def State.step (kind : ι → Kind) (s : State ι n) (i : ι) : Option (State ι n) :=
  let v := s.visit i
  let t := s.tray i
  let go := fun stage => { s.proc i with stage }
  match (s.proc i).stage with
  | .waitToken =>
    if 0 < t.sem v.takes then
      some (s.put i (t.setSem v.takes (t.sem v.takes - 1)) (go .waitMutex))
    else none
  | .waitMutex =>
    if 0 < t.mutex then some (s.put i { t with mutex := t.mutex - 1 } (go (.scan 0))) else none
  | .scan k =>
    if h : k < n then
      if t.slots ⟨k, h⟩ = v.finds then
        some ((s.put i (t.write ⟨k, h⟩ v.puts) (go (.postMutex true))).tally v)
      else some (s.put i t (go (.scan (k + 1))))
    else some (s.put i t (go (.postMutex false)))
  | .postMutex success =>
    some (s.put i { t with mutex := t.mutex + 1 } (go (.postToken success)))
  | .postToken _ =>
    some (s.put i (t.setSem v.gives (t.sem v.gives + 1)) ((s.proc i).next (kind i)))

/-- The restaurant with the given processes, under every interleaving. -/
def restaurant (kind : ι → Kind) (n : ℕ) : Sync.Trans (State ι n) ι where
  init := State.init kind n
  step := State.step kind

end Restaurant
