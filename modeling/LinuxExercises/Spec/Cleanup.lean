import LinuxExercises.Sync.Trans
import Mathlib.Data.Int.Order.Basic

/-!
# The restaurant's `main`: children and cleanup

`main` forks five children, each with `children[child_count++] = fork()`, looks at the trays
every ten seconds, and after sixty seconds, or on `SIGINT`, calls `cleanup_all`: `kill` for
each entry of `children[]`, then `waitpid` for each.

The three side effects of the assignment (count, fork, store) are a step each and come in
any order, as C leaves it open, but the store comes after the fork. A child has its own
copy of the table, ends the assignment in it with the value 0, and then ignores `SIGINT`.
`signal` installs the handler with the semantics of glibc: `SIGINT` is blocked while the
handler runs. The handler ends the process. Shared memory is left out.
-/

namespace Cleanup

/-- `children[]` and `child_count`. -/
structure Table where
  children : List ℤ
  childCount : ℕ
  deriving DecidableEq

/-- How far `children[child_count++] = fork()` is: the result of the fork, and which of the
other two side effects have been made. -/
structure Assign where
  counted : Bool
  result : Option ℤ
  stored : Bool
  deriving DecidableEq

/-- No side effect yet. -/
def Assign.fresh : Assign := ⟨false, none, false⟩

/-- Where `cleanup_all` is. -/
inductive CleanPc where
  | kill (i : ℕ)
  | wait (i : ℕ)
  | returned
  deriving DecidableEq

/-- Where a child is: still in the assignment with the handler of `main`, in
`handle_sigint`, past `signal(SIGINT, SIG_IGN)`, dead, or dead and waited for. -/
inductive ChildPc where
  | assign (counted stored : Bool)
  | cleanup (q : CleanPc)
  | ignoring
  | zombie
  | reaped
  deriving DecidableEq

/-- A child process: its pid, its table, in which it is number `k`, and whether `SIGTERM`
has been sent to it. -/
structure Child where
  pid : ℤ
  k : ℕ
  table : Table
  pc : ChildPc
  signalled : Bool
  deriving DecidableEq

/-- Where `main` is in the parent: before `signal(SIGINT, handle_sigint)`, at the assignment
of child `k`, in the status loop, in `cleanup_all`. -/
inductive MainPc where
  | start
  | call (k : ℕ) (a : Assign)
  | loop
  | cleanup (q : CleanPc)
  | ended
  deriving DecidableEq

/-- The parent, with the handler that runs above `main`, and its children in the order of
their forks. -/
structure State where
  table : Table
  main : MainPc
  handler : Option CleanPc
  kids : List Child
  deriving DecidableEq

/-- What a child does: the rest of its assignment, `signal(SIGINT, SIG_IGN)`, a step of its
`cleanup_all`, its death; or `SIGINT` arrives. -/
inductive ChildAct where
  | count
  | store
  | ignore
  | clean
  | die
  | sigint
  deriving DecidableEq

/-- A step: of `main` (`install` is `signal`; `fork` has the result of the call; `poll` says
whether sixty seconds are over), of `cleanup_all` in the parent (which child a `waitpid` for
any child returns), of child `j`; or `SIGINT` arrives at the parent. -/
inductive Label where
  | install
  | count
  | fork (pid : Option ℤ)
  | store
  | poll (timeUp : Bool)
  | clean (j : ℕ)
  | sigint
  | child (j : ℕ) (a : ChildAct)
  deriving DecidableEq

/-- The number of children. -/
def numChildren : ℕ := 5

def Table.init : Table := ⟨.replicate numChildren 0, 0⟩

/-- `children[i]`. -/
def Table.entry (t : Table) (i : ℕ) : ℤ := t.children.getD i 0

def Table.count (t : Table) : Table := { t with childCount := t.childCount + 1 }

def Table.store (t : Table) (k : ℕ) (pid : ℤ) : Table := { t with children := t.children.set k pid }

/-- On to the next statement when all side effects have been made. -/
def afterAssign (k : ℕ) (a : Assign) : MainPc :=
  if a.counted ∧ a.stored then if k + 1 < numChildren then .call (k + 1) .fresh else .loop else .call k a

/-- Whom `kill(pid, SIGTERM)` reaches: a process, or, for 0 and -1, all of them. -/
def signalKids (kids : List Child) (pid : ℤ) : List Child :=
  kids.map fun c => if pid ≤ 0 ∨ c.pid = pid then { c with signalled := true } else c

/-- Child `j` at another point of its program. -/
def State.setPc (s : State) (j : ℕ) (pc : ChildPc) : State :=
  { s with kids := s.kids.modify j fun c => { c with pc } }

/-- The `cleanup_all` that runs in the parent, in the handler or in `main`. -/
def State.cleaning (s : State) : Option CleanPc :=
  match s.handler, s.main with
  | some q, _ => some q
  | none, .cleanup q => some q
  | none, _ => none

/-- It goes on at `q`. -/
def State.setClean (s : State) (q : CleanPc) : State :=
  if s.handler.isSome then { s with handler := some q } else { s with main := .cleanup q }

/-- The parent ends. -/
def State.finish (s : State) : State := { s with main := .ended, handler := none }

/-- Does `waitpid(pid, NULL, 0)` in the parent wait for this child? -/
def Child.Waited (pid : ℤ) (c : Child) : Prop := c.pc ≠ .reaped ∧ (pid ≤ 0 ∨ c.pid = pid)

instance (pid : ℤ) : DecidablePred (Child.Waited pid) := fun c =>
  inferInstanceAs (Decidable (c.pc ≠ .reaped ∧ (pid ≤ 0 ∨ c.pid = pid)))

/-- The state when `waitpid(pid, NULL, 0)` returns. For a child that is alive it waits; for 0
and -1 it takes some dead child `j`; without a child to wait for it fails. -/
def State.waitpid (s : State) (pid : ℤ) (j : ℕ) : Option State :=
  if ∀ c ∈ s.kids, ¬ c.Waited pid then some s
  else
    match s.kids[j]? with
    | some c => if c.Waited pid ∧ c.pc = .zombie then some (s.setPc j .reaped) else none
    | none => none

/-- A step of `cleanup_all` in the parent, after whose return the process ends. The signal of
`kill(0, ..)` ends the parent too. -/
def State.cleanupAll (s : State) (j : ℕ) : CleanPc → Option State
  | .kill i =>
    if i < s.table.childCount then
      let s' := { s with kids := signalKids s.kids (s.table.entry i) }
      some (if s.table.entry i = 0 then s'.finish else s'.setClean (.kill (i + 1)))
    else some (s.setClean (.wait 0))
  | .wait i =>
    if i < s.table.childCount then (s.waitpid (s.table.entry i) j).map (·.setClean (.wait (i + 1)))
    else some (s.setClean .returned)
  | .returned => some s.finish

/-- `main` of the parent, outside `cleanup_all`. -/
def State.mainStep (s : State) : Label → Option State
  | .install => if s.main = .start then some { s with main := .call 0 .fresh } else none
  | .count =>
    match s.main with
    | .call k a =>
      if a.counted then none
      else some { s with table := s.table.count, main := afterAssign k { a with counted := true } }
    | _ => none
  | .fork pid =>
    match s.main with
    | .call k a =>
      if a.result.isSome then none
      else
        match pid with
        | none => some { s with main := .call k { a with result := some (-1) } }
        | some p =>
          if 0 < p ∧ ∀ c ∈ s.kids, c.pid ≠ p then
            some { s with
              main := .call k { a with result := some p }
              kids := s.kids ++ [⟨p, k, s.table, .assign a.counted false, false⟩] }
          else none
    | _ => none
  | .store =>
    match s.main with
    | .call k a =>
      match a.result with
      | some p =>
        if a.stored then none
        else some { s with table := s.table.store k p, main := afterAssign k { a with stored := true } }
      | none => none
    | _ => none
  | .poll timeUp =>
    if s.main = .loop then some (if timeUp then { s with main := .cleanup (.kill 0) } else s) else none
  | _ => none

/-- `SIGINT` at the parent: before `signal` it ends the process, in the handler it is blocked,
else the handler starts. -/
def State.sigint (s : State) : Option State :=
  if s.main = .ended ∨ s.handler.isSome then none
  else if s.main = .start then some { s with main := .ended }
  else some { s with handler := some (.kill 0) }

/-- `cleanup_all` of child `c`, which is not the parent of anybody: its `waitpid` calls fail. -/
def State.childClean (s : State) (j : ℕ) (c : Child) (q : CleanPc) : State :=
  match q with
  | .kill i =>
    if i < c.table.childCount then
      { s with kids := signalKids s.kids (c.table.entry i) }.setPc j
        (if c.table.entry i = 0 then .zombie else .cleanup (.kill (i + 1)))
    else s.setPc j (.cleanup (.wait 0))
  | .wait i => s.setPc j (.cleanup (if i < c.table.childCount then .wait (i + 1) else .returned))
  | .returned => s.setPc j .zombie

/-- A child. -/
def State.childStep (s : State) (j : ℕ) (a : ChildAct) : Option State :=
  match s.kids[j]? with
  | none => none
  | some c =>
    match a, c.pc with
    | .count, .assign false stored =>
      some { s with kids := s.kids.modify j fun c => { c with table := c.table.count, pc := .assign true stored } }
    | .store, .assign counted false =>
      some { s with kids := s.kids.modify j fun c =>
        { c with table := c.table.store c.k 0, pc := .assign counted true } }
    | .ignore, .assign true true => some (s.setPc j .ignoring)
    | .sigint, .assign _ _ => some (s.setPc j (.cleanup (.kill 0)))
    | .sigint, .ignoring => some s
    | .clean, .cleanup q => some (s.childClean j c q)
    | .die, .zombie => none
    | .die, .reaped => none
    | .die, _ => some (s.setPc j .zombie)
    | _, _ => none

def State.step (s : State) : Label → Option State
  | .child j a => s.childStep j a
  | .sigint => s.sigint
  | .clean j => s.cleaning.bind (s.cleanupAll j)
  | l => if s.handler = none then s.mainStep l else none

def State.init : State := ⟨.init, .start, none, []⟩

/-- **The parent and its children**, with every result of `fork` and `SIGINT` at any point. -/
def restaurantMain : Sync.Trans State Label where
  init := .init
  step := State.step

/-- **Cleanup targets exactly the children**: what `cleanup_all` is about to pass to `kill` is
the pid of a child that has not been reaped; no child runs `cleanup_all`; and when it
returns every child has been signalled and waited for. -/
structure State.Exact (s : State) : Prop where
  target : ∀ i, s.cleaning = some (.kill i) → i < s.table.childCount →
    0 < s.table.entry i ∧ ∃ c ∈ s.kids, c.pid = s.table.entry i ∧ c.pc ≠ .reaped
  only : ∀ c ∈ s.kids, ∀ q, c.pc ≠ .cleanup q
  all : s.cleaning = some .returned → ∀ c ∈ s.kids, c.signalled = true ∧ c.pc = .reaped

/-- Is `main` at the assignment with a side effect made and another still to make? -/
def MainPc.midway : MainPc → Bool
  | .call _ a => a ≠ .fresh
  | _ => false

/-- Every `fork` succeeds; `SIGINT` does not come to a child before it ignores the signal, nor
to the parent in the middle of an assignment or after a child has been waited for. -/
def Orderly (s : State) : Label → Prop
  | .fork pid => pid ≠ none
  | .sigint => s.main.midway = false ∧ ∀ c ∈ s.kids, c.pc ≠ .reaped
  | .child j .sigint => s.kids[j]?.all (·.pc = .ignoring)
  | _ => True

instance : DecidableRel Orderly := fun s l => by
  unfold Orderly
  split <;> infer_instance

end Cleanup
