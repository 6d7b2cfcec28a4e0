import LinuxExercises.Spec.Restaurant

/-!
# The one-shot functions of the restaurant

`add_vegan_dish_once`, `add_nonvegan_dish_once` (`chef.c`), `eat_vegan_once` and
`eat_nonvegan_once` (`consumer.c`), called by any processes: one step for each `sem_wait`,
each slot a scan looks at, and each `sem_post`. The dish names are left out.
-/

namespace Restaurant

variable {ι : Type*} {n : ℕ}

/-- `add_vegan_dish_once`. -/
def addVeganDishOnce : Visit := ⟨.vegan, .empty, .full, .EMPTY, .VEGAN⟩

/-- `add_nonvegan_dish_once`. It gives back the token it has taken. -/
def addNonveganDishOnce : Visit := ⟨.nonvegan, .empty, .empty, .EMPTY, .NON_VEGAN⟩

/-- The function that is called. -/
inductive Call where
  | addVegan
  | addNonvegan
  | eatVegan
  | eatNonvegan
  deriving DecidableEq, Repr

/-- What the function does. -/
def Call.visit : Call → Visit
  | .addVegan => addVeganDishOnce
  | .addNonvegan => addNonveganDishOnce
  | .eatVegan => eatVeganOnce
  | .eatNonvegan => eatNonveganOnce

/-- One step of a visit on its tray: where it goes on, or the `success` it returns. -/
def Visit.act (v : Visit) (t : Tray n) : Stage → Option (Tray n × (Stage ⊕ Bool))
  | .waitToken =>
    if 0 < t.sem v.takes then some (t.setSem v.takes (t.sem v.takes - 1), .inl .waitMutex) else none
  | .waitMutex => if 0 < t.mutex then some ({ t with mutex := t.mutex - 1 }, .inl (.scan 0)) else none
  | .scan k =>
    if h : k < n then
      if t.slots ⟨k, h⟩ = v.finds then some (t.write ⟨k, h⟩ v.puts, .inl (.postMutex true))
      else some (t, .inl (.scan (k + 1)))
    else some (t, .inl (.postMutex false))
  | .postMutex success => some ({ t with mutex := t.mutex + 1 }, .inl (.postToken success))
  | .postToken success => some (t.setSem v.gives (t.sem v.gives + 1), .inr success)

/-- The shared memory, the call each process is in, and, for the statements, the calls that
have returned, with what they returned. -/
structure Session (ι : Type*) (n : ℕ) where
  data : SharedData n
  running : ι → Option (Call × Stage)
  returned : List (Call × Bool)

variable [DecidableEq ι]

/-- A process calls a function, or goes on in its call. -/
inductive Turn (ι : Type*) where
  | call (i : ι) (c : Call)
  | go (i : ι)

/-- One step of a process. -/
def Session.step (s : Session ι n) : Turn ι → Option (Session ι n)
  | .call i c =>
    match s.running i with
    | none => some { s with running := Function.update s.running i (some (c, .waitToken)) }
    | some _ => none
  | .go i =>
    match s.running i with
    | none => none
    | some (c, stage) =>
      match c.visit.act (s.data c.visit.side) stage with
      | none => none
      | some (t, .inl stage') =>
        some { s with
          data := Function.update s.data c.visit.side t
          running := Function.update s.running i (some (c, stage')) }
      | some (t, .inr success) =>
        some { s with
          data := Function.update s.data c.visit.side t
          running := Function.update s.running i none
          returned := (c, success) :: s.returned }

/-- **Any processes that call the four functions**, from the state `init_shared_memory` leaves. -/
def oneShot (ι : Type*) [DecidableEq ι] (n : ℕ) : Sync.Trans (Session ι n) (Turn ι) where
  init := ⟨initSharedMemory n, fun _ => none, []⟩
  step := Session.step

/-- No call is past its first `sem_wait`. -/
def Session.Quiet (s : Session ι n) : Prop := ∀ i c stage, s.running i = some (c, stage) → stage = .waitToken

/-- **The semaphores account for the slots**: on each tray `full` is the number of occupied
slots, `empty` that of the others, the mutex is free; and every call that returned succeeded. -/
def Session.Accounted (s : Session ι n) : Prop :=
  (∀ a, (s.data a).full = (s.data a).occupied ∧ (s.data a).empty + (s.data a).occupied = n ∧ (s.data a).mutex = 1) ∧
    ∀ r ∈ s.returned, r.2 = true

end Restaurant
