import Mathlib.Data.List.TakeWhile
import Mathlib.Algebra.Group.Int.Defs
import Mathlib.Algebra.Group.Nat.Defs

/-!
# Bytes, C strings and `strtol`

C strings are lists of bytes without a zero byte (`CStr`); a buffer is read as a
string up to its first zero byte (`cstr`).
-/

namespace Chat

abbrev Bytes := List UInt8

/-- What `%s` and the `str*` functions see of a buffer. -/
def cstr (b : Bytes) : Bytes := b.takeWhile (· ≠ 0)

/-- A NUL-terminated string, without its terminator. -/
structure CStr where
  bytes : Bytes
  noNul : 0 ∉ bytes
  deriving DecidableEq

@[simp] theorem CStr.cstr_bytes (s : CStr) : cstr s.bytes = s.bytes :=
  List.takeWhile_eq_self_iff.2 fun b hb => by
    simp only [ne_eq, decide_not, Bool.not_eq_eq_eq_not, Bool.not_true, decide_eq_false_iff_not]
    exact fun h => s.noNul (h ▸ hb)

theorem cstr_eq {b : Bytes} (h : 0 ∉ b) : cstr b = b := CStr.cstr_bytes ⟨b, h⟩

/-- `isspace` in the C locale. -/
def isSpace (b : UInt8) : Bool := b = 32 ∨ 9 ≤ b ∧ b ≤ 13

def isDigit (b : UInt8) : Bool := 48 ≤ b ∧ b ≤ 57

/-- The value of a string of decimal digits. -/
def digits (ds : Bytes) : ℕ := ds.foldl (fun v d => 10 * v + (d.toNat - 48)) 0

/-- `strtol(s, &end, 10)`: the value, clipped to 64 bits, and the text from `end` on. -/
def strtol (s : Bytes) : ℤ × Bytes :=
  let t := s.dropWhile isSpace
  let (neg, u) := match t with
    | 45 :: u => (true, u)
    | 43 :: u => (false, u)
    | _ => (false, t)
  let ds := u.takeWhile isDigit
  if ds = [] then (0, s)
  else
    let v : ℤ := if neg then -(digits ds : ℤ) else digits ds
    (max (-2 ^ 63) (min v (2 ^ 63 - 1)), u.dropWhile isDigit)

/-- The port of `cmd_connect`: the whole text is a number in `1..65535`. -/
def parsePort (s : Bytes) : Option ℕ :=
  let (v, rest) := strtol s
  if s = [] ∨ rest ≠ [] ∨ v ≤ 0 ∨ 65535 < v then none else some v.toNat

/-- A number in decimal digits. -/
def decimal (n : ℕ) : Bytes := (Nat.toDigits 10 n).map fun c => c.toNat.toUInt8

/-- `"CMD:DISCONNECT"`. -/
def disconnect : Bytes := [67, 77, 68, 58, 68, 73, 83, 67, 79, 78, 78, 69, 67, 84]

/-- `"127.0.0.1"`. -/
def loopback : Bytes := [49, 50, 55, 46, 48, 46, 48, 46, 49]

/-- `MAX_MSG_LEN`. -/
def maxMsgLen : ℕ := 100

/-- `BUFSIZE`. -/
def bufSize : ℕ := 512

end Chat
