import LinuxExercises.Spec.Tasks

/-!
# Numbers on the command line

Four places turn a text into a number with `atoi`, that is `strtol` wrapped to 32 bits,
and test the number: `terminate`, `send` and the listening port of p2pchat, and the
priority of `task_dispatcher.c`. `Numeral` is what a number should look like.
-/

namespace Chat

/-- The text is white space, a sign or none, and decimal digits; its value is `k`. -/
def Numeral (s : Bytes) (k : ℤ) : Prop :=
  ∃ ws sign ds, s = ws ++ sign ++ ds ∧ (∀ b ∈ ws, isSpace b) ∧ ds ≠ [] ∧ (∀ b ∈ ds, isDigit b) ∧
    ((sign = [] ∨ sign = [43]) ∧ k = digits ds ∨ sign = [45] ∧ k = -(digits ds : ℤ))

/-- Is there a minus sign, and what follows the sign? -/
def splitSign : Bytes → Bool × Bytes
  | 45 :: u => (true, u)
  | 43 :: u => (false, u)
  | t => (false, t)

/-- The value of the numeral a text starts with, 0 without one. -/
def lead (s : Bytes) : ℤ :=
  let (neg, u) := splitSign (s.dropWhile isSpace)
  if neg then -(digits (u.takeWhile isDigit) : ℤ) else digits (u.takeWhile isDigit)

/-- The limits of `long`. -/
def clip (v : ℤ) : ℤ := max (-2 ^ 63) (min v (2 ^ 63 - 1))

/-- The port `main` of p2pchat listens on, from its arguments. -/
def listenPort : List CStr → Option ℤ
  | [port] =>
    let p := (atoi port.bytes).toInt
    if p ≤ 0 ∨ 65535 < p then none else some p
  | _ => none

/-- Where a number is read. -/
inductive Site where
  | terminate
  | send
  | listen
  | priority

/-- The texts that come there: the words of a line, or any argument of `main`. -/
def Site.Takes (s : CStr) : Site → Prop
  | .terminate | .send => s.bytes ≠ [] ∧ 32 ∉ s.bytes
  | .listen | .priority => True

/-- The numbers the program has a use for. -/
def Site.Admits (k : ℤ) : Site → Prop
  | .terminate | .send => 1 ≤ k ∧ k < 2 ^ 31
  | .listen => 1 ≤ k ∧ k ≤ 65535
  | .priority => 0 ≤ k ∧ k ≤ 31

/-- The program acts on the number `k` because of the text `s`. -/
def Site.Acts (s : CStr) (k : ℤ) : Site → Prop
  | .terminate => ∃ rest rest' id, strtok rest = some (s.bytes, rest') ∧
      command wordTerminate rest = .terminate id ∧ id.toInt = k
  | .send => ∃ rest msg id, strtok rest = some (s.bytes, msg) ∧
      command wordSend rest = .send id msg ∧ id.toInt = k
  | .listen => listenPort [s] = some k
  | .priority => ∃ task prio, Tasks.dispatcherArgs [s, task] = some (prio, task) ∧ (prio : ℤ) = k

instance (k : ℤ) : (site : Site) → Decidable (site.Admits k)
  | .terminate | .send | .listen | .priority => inferInstanceAs (Decidable (_ ∧ _))

instance (s : CStr) : (site : Site) → Decidable (site.Takes s)
  | .terminate | .send => inferInstanceAs (Decidable (_ ∧ _))
  | .listen | .priority => isTrue trivial

end Chat
