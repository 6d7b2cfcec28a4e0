import LinuxExercises.Spec.Input

/-!
# p2pchat: the words of a line

`main` takes a line apart with calls of `strtok` that share a saved position
(`strtokNext`), one of them with no delimiter, and goes on calling it behind a null
pointer (`selects`). `Says` is the grammar of the command lines.
-/

namespace Chat

/-! ## The calls of `strtok` -/

/-- A call of `strtok` with these delimiters on the saved text: the token, and the text
saved for the next call. What is saved when there is no token is left open (`lost`). -/
def strtokNext (lost : Bytes → Bytes) (delims saved : Bytes) : Option Bytes × Bytes :=
  let t := saved.dropWhile (· ∈ delims)
  if t = [] then (none, lost saved)
  else (some (t.takeWhile (· ∉ delims)), (t.dropWhile (· ∉ delims)).drop 1)

/-- `" "`. -/
def delimSpace : Bytes := [32]

/-- What `main` selects on a line, call by call. -/
def selects (lost : Bytes → Bytes) (line : Bytes) : Option Command :=
  let (cmd, saved) := strtokNext lost delimSpace line
  cmd.map fun cmd =>
    if cmd = wordHelp then .help
    else if cmd = wordMyip then .myip
    else if cmd = wordMyport then .myport
    else if cmd = wordConnect then
      let (ip, saved) := strtokNext lost delimSpace saved
      let (port, _) := strtokNext lost delimSpace saved
      match ip, port with
      | some ip, some port => .connect ip port
      | _, _ => .usage wordConnect
    else if cmd = wordList then .list
    else if cmd = wordTerminate then
      let (idstr, _) := strtokNext lost delimSpace saved
      match idstr with
      | some idstr => if (atoi idstr).toInt ≤ 0 then .invalidId else .terminate (atoi idstr)
      | none => .usage wordTerminate
    else if cmd = wordSend then
      let (idstr, saved) := strtokNext lost delimSpace saved
      let (msg, _) := strtokNext lost [] saved
      match idstr, msg with
      | some idstr, some msg => if (atoi idstr).toInt ≤ 0 then .invalidId else .send (atoi idstr) msg
      | _, _ => .usage wordSend
    else if cmd = wordExit then .exit
    else .unknown

/-- A round of the loop of `main` on its input: what it selects, and the rest of the input;
none at the end. -/
def mainRound (lost : Bytes → Bytes) (s : Bytes) : Option (Option Command × Bytes) :=
  (fgets lineSize s).map fun (buf, s') =>
    let line := (cstr buf).takeWhile (· ≠ 10)
    (if line = [] then none else selects lost line, s')

/-! ## The grammar -/

def spaces (n : ℕ) : Bytes := List.replicate n 32

/-- A word: bytes other than spaces. -/
def IsWord (w : Bytes) : Prop := w ≠ [] ∧ 32 ∉ w

/-- The words of a line, with one space or more between them. -/
inductive Words : Bytes → List Bytes → Prop where
  | nil (n : ℕ) : Words (spaces n) []
  | last (n : ℕ) (w : Bytes) : IsWord w → Words (spaces n ++ w) [w]
  | cons (n : ℕ) (w l : Bytes) (ws : List Bytes) : IsWord w → Words l ws →
      Words (spaces n ++ w ++ 32 :: l) (w :: ws)

/-- The commands without arguments. -/
def plainCommand (w : Bytes) : Option Command :=
  if w = wordHelp then some .help
  else if w = wordMyip then some .myip
  else if w = wordMyport then some .myport
  else if w = wordList then some .list
  else if w = wordExit then some .exit
  else none

/-- The commands with arguments. -/
def TakesArgs (w : Bytes) : Prop := w = wordConnect ∨ w = wordTerminate ∨ w = wordSend

/-- **The grammar of the command lines**: the command that a line says, or none. The message
of `send` is all that is behind the one space that ends the id. -/
inductive Says : Bytes → Option Command → Prop where
  | blank {line : Bytes} : Words line [] → Says line none
  | plain {line w : Bytes} {ws : List Bytes} {c : Command} : Words line (w :: ws) →
      plainCommand w = some c → Says line (some c)
  | unknown {line w : Bytes} {ws : List Bytes} : Words line (w :: ws) → plainCommand w = none →
      ¬ TakesArgs w → Says line (some .unknown)
  | connect {line ip port : Bytes} {ws : List Bytes} : Words line (wordConnect :: ip :: port :: ws) →
      Says line (some (.connect ip port))
  | connectUsage {line : Bytes} {ws : List Bytes} : Words line (wordConnect :: ws) → ws.length < 2 →
      Says line (some (.usage wordConnect))
  | terminate {line idstr : Bytes} {ws : List Bytes} : Words line (wordTerminate :: idstr :: ws) →
      0 < (atoi idstr).toInt → Says line (some (.terminate (atoi idstr)))
  | terminateInvalid {line idstr : Bytes} {ws : List Bytes} : Words line (wordTerminate :: idstr :: ws) →
      (atoi idstr).toInt ≤ 0 → Says line (some .invalidId)
  | terminateUsage {line : Bytes} : Words line [wordTerminate] → Says line (some (.usage wordTerminate))
  | send {a b : ℕ} {idstr msg : Bytes} : IsWord idstr → msg ≠ [] → 0 < (atoi idstr).toInt →
      Says (spaces a ++ wordSend ++ 32 :: (spaces b ++ idstr ++ 32 :: msg)) (some (.send (atoi idstr) msg))
  | sendInvalid {a b : ℕ} {idstr msg : Bytes} : IsWord idstr → msg ≠ [] → (atoi idstr).toInt ≤ 0 →
      Says (spaces a ++ wordSend ++ 32 :: (spaces b ++ idstr ++ 32 :: msg)) (some .invalidId)
  | sendEmpty {a b : ℕ} {idstr rest : Bytes} : IsWord idstr → rest = [] ∨ rest = [32] →
      Says (spaces a ++ wordSend ++ 32 :: (spaces b ++ idstr ++ rest)) (some (.usage wordSend))
  | sendUsage {line : Bytes} : Words line [wordSend] → Says line (some (.usage wordSend))

end Chat
