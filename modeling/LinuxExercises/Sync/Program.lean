import Mathlib.Data.List.Basic
import Mathlib.Data.Nat.Notation

/-!
# Programs on their standard descriptors

A program is what it calls next at each of its states, and where a result takes it. What it
does besides its calls on its standard input and output is its own.

* `Quits`: whatever its calls give back, it exits after so many writes.
* `Writes`: it writes a text, in parts of its own choice, and exits; after an error it quits.
* `Reads`: it reads up to the end of its input or an error, and then quits.
* `Quits.call`, `Writes.call`: such programs never read.
-/

namespace Sync

/-- A call of a program, with the exit status as a parent gets it. -/
inductive Program.Call (β : Type*) where
  | read
  | write (b : List β)
  | exit (status : UInt8)

/-- What a call gives back: what was read (nothing at the end of the input), how much was
written, or an error. -/
inductive Program.Result (β : Type*) where
  | read (b : List β)
  | wrote (n : ℕ)
  | failed

/-- **A program**: where it starts, its call at each state, and where a result takes it. -/
structure Program (β σ : Type*) where
  start : σ
  call : σ → Program.Call β
  next : σ → Program.Result β → σ

namespace Program

variable {β σ : Type*} (P : Program β σ)

/-- What a write can give back: some of the bytes were written, or it has failed. -/
def Result.OfWrite (b : List β) : Result β → Prop
  | .wrote n => n ≤ b.length ∧ (0 < n ∨ b = [])
  | .failed => True
  | .read _ => False

/-- **Whatever its calls give back**, the program exits after at most so many writes. -/
inductive Quits : ℕ → σ → Prop where
  | exit (k : ℕ) {x : σ} {st : UInt8} : P.call x = .exit st → Quits k x
  | write {k : ℕ} {x : σ} {b : List β} : P.call x = .write b → (∀ r, r.OfWrite b → Quits k (P.next x r)) →
      Quits (k + 1) x

/-- **The program writes the text**, and exits. A write that has taken a part of its bytes is
followed by one for the rest; after one that has failed the program makes at most `k` more. -/
inductive Writes (k : ℕ) : List β → σ → Prop where
  | exit {x : σ} {st : UInt8} : P.call x = .exit st → Writes k [] x
  | write {text b : List β} {x : σ} : P.call x = .write b → b ≠ [] → b <+: text →
      (∀ n, 0 < n → n ≤ b.length → Writes k (text.drop n) (P.next x (.wrote n))) →
      P.Quits k (P.next x .failed) → Writes k text x

/-- **The program reads its input** in the states `reading`, up to the end or an error, and then
makes at most `k` writes and exits. -/
structure Reads (k : ℕ) (reading : σ → Prop) : Prop where
  start : reading P.start
  call : ∀ x, reading x → P.call x = .read
  data : ∀ x b, reading x → b ≠ [] → reading (P.next x (.read b))
  ended : ∀ x, reading x → P.Quits k (P.next x (.read []))
  failed : ∀ x, reading x → P.Quits k (P.next x .failed)

variable {P} {k : ℕ} {text : List β} {x : σ}

theorem Quits.call (h : P.Quits k x) : (∃ st, P.call x = .exit st) ∨ ∃ b, P.call x = .write b := by
  cases h with
  | exit _ hc => exact .inl ⟨_, hc⟩
  | write hc _ => exact .inr ⟨_, hc⟩

theorem Writes.call (h : P.Writes k text x) : (∃ st, P.call x = .exit st) ∨ ∃ b, P.call x = .write b := by
  cases h with
  | exit hc => exact .inl ⟨_, hc⟩
  | write hc => exact .inr ⟨_, hc⟩

/-- Behind a write there is one less to make. -/
theorem Quits.next {b : List β} {r : Result β} (h : P.Quits k x) (hc : P.call x = .write b) (hr : r.OfWrite b) :
    ∃ j, j < k ∧ P.Quits j (P.next x r) := by
  cases h with
  | exit _ hc' => rw [hc] at hc'; cases hc'
  | write hc' hnext =>
    obtain rfl : _ = b := Call.write.inj (hc'.symm.trans hc)
    exact ⟨_, Nat.lt_succ_self _, hnext r hr⟩

/-- A program that exits has written its text. -/
theorem Writes.exited {st : UInt8} (h : P.Writes k text x) (hc : P.call x = .exit st) : text = [] := by
  cases h with
  | exit => rfl
  | write hc' => rw [hc] at hc'; cases hc'

/-- What it writes is the next part of its text. -/
theorem Writes.part {b : List β} (h : P.Writes k text x) (hc : P.call x = .write b) :
    b ≠ [] ∧ b <+: text ∧ (∀ n, 0 < n → n ≤ b.length → P.Writes k (text.drop n) (P.next x (.wrote n))) ∧
      P.Quits k (P.next x .failed) := by
  cases h with
  | exit hc' => rw [hc] at hc'; cases hc'
  | write hc' hne hpre hnext hfail =>
    obtain rfl : _ = b := Call.write.inj (hc'.symm.trans hc)
    exact ⟨hne, hpre, hnext, hfail⟩

end Program

end Sync
