import LinuxExercises.Spec.Chat

/-!
# p2pchat: the input of `main`

`main` reads its commands with `fgets` into a buffer of 512 bytes, cuts the line at its
newline and takes it apart with `strtok`. `mainLoop` is that loop on a finite input;
`expected` is what the lines of the input say.
-/

namespace Chat

/-! ## The library functions -/

/-- At most `n` bytes of the stream, up to its first newline and with it, and the rest. -/
def takeLine : ℕ → Bytes → Bytes × Bytes
  | 0, s => ([], s)
  | _ + 1, [] => ([], [])
  | n + 1, b :: s =>
    if b = 10 then ([b], s)
    else
      let (l, r) := takeLine n s
      (b :: l, r)

/-- `fgets(line, size, stdin)`: the bytes it stores before the terminator and the rest of
the stream; nothing at its end. -/
def fgets (size : ℕ) (s : Bytes) : Option (Bytes × Bytes) :=
  if s = [] then none else some (takeLine (size - 1) s)

/-- `strtok` with the delimiter `" "`: the next token, and the text the next call starts from. -/
def strtok (s : Bytes) : Option (Bytes × Bytes) :=
  let t := s.dropWhile (· = 32)
  if t = [] then none else some (t.takeWhile (· ≠ 32), (t.dropWhile (· ≠ 32)).drop 1)

/-- `atoi`. -/
def atoi (s : Bytes) : BitVec 32 := BitVec.ofInt 32 (strtol s).1

/-! ## The commands -/

/-- What `main` does with a line: a command with its arguments, or one of its errors. -/
inductive Command where
  | help
  | myip
  | myport
  | connect (ip port : Bytes)
  | list
  | terminate (id : BitVec 32)
  | send (id : BitVec 32) (msg : Bytes)
  | exit
  | usage (cmd : Bytes)
  | invalidId
  | unknown
  deriving DecidableEq

/-- `"help"`. -/
def wordHelp : Bytes := [104, 101, 108, 112]

/-- `"myip"`. -/
def wordMyip : Bytes := [109, 121, 105, 112]

/-- `"myport"`. -/
def wordMyport : Bytes := [109, 121, 112, 111, 114, 116]

/-- `"connect"`. -/
def wordConnect : Bytes := [99, 111, 110, 110, 101, 99, 116]

/-- `"list"`. -/
def wordList : Bytes := [108, 105, 115, 116]

/-- `"terminate"`. -/
def wordTerminate : Bytes := [116, 101, 114, 109, 105, 110, 97, 116, 101]

/-- `"send"`. -/
def wordSend : Bytes := [115, 101, 110, 100]

/-- `"exit"`. -/
def wordExit : Bytes := [101, 120, 105, 116]

/-- The dispatch on the first token `cmd`; the further tokens come from `rest`.
`strtok(NULL, "")` is the whole rest, if there is any. -/
def command (cmd rest : Bytes) : Command :=
  if cmd = wordHelp then .help
  else if cmd = wordMyip then .myip
  else if cmd = wordMyport then .myport
  else if cmd = wordConnect then
    match strtok rest with
    | some (ip, rest') =>
      match strtok rest' with
      | some (port, _) => .connect ip port
      | none => .usage wordConnect
    | none => .usage wordConnect
  else if cmd = wordList then .list
  else if cmd = wordTerminate then
    match strtok rest with
    | some (idstr, _) => if (atoi idstr).toInt ≤ 0 then .invalidId else .terminate (atoi idstr)
    | none => .usage wordTerminate
  else if cmd = wordSend then
    match strtok rest with
    | some (idstr, msg) =>
      if msg = [] then .usage wordSend
      else if (atoi idstr).toInt ≤ 0 then .invalidId
      else .send (atoi idstr) msg
    | none => .usage wordSend
  else if cmd = wordExit then .exit
  else .unknown

/-- The command of a line; none if it has no token. -/
def parseLine (line : Bytes) : Option Command := (strtok line).map fun (cmd, rest) => command cmd rest

/-! ## The loop -/

/-- `sizeof(line)`. -/
def lineSize : ℕ := 512

/-- The command loop of `main` on the input `s`, with the commands it dispatches up to the
first `exit`. The number `k` of the input line `s` starts in is kept beside each command. -/
def mainLoop : ℕ → ℕ → Bytes → List (ℕ × Command)
  | 0, _, _ => []
  | fuel + 1, k, s =>
    match fgets lineSize s with
    | none => []
    | some (buf, s') =>
      let line := (cstr buf).takeWhile (· ≠ 10)
      let k' := if 10 ∈ buf then k + 1 else k
      if line = [] then mainLoop fuel k' s'
      else
        match parseLine line with
        | none => mainLoop fuel k' s'
        | some c => (k, c) :: if c = .exit then [] else mainLoop fuel k' s'

/-- What `main` dispatches on the input `s`; each round reads at least one byte. -/
def dispatched (s : Bytes) : List (ℕ × Command) := mainLoop (s.length + 1) 0 s

/-! ## What the input says -/

/-- Is the line empty or all spaces? -/
def isBlank (l : Bytes) : Bool := l.all (· = 32)

/-- The commands up to the first `exit`. -/
def untilExit : List (ℕ × Command) → List (ℕ × Command)
  | [] => []
  | (k, c) :: cs => (k, c) :: if c = .exit then [] else untilExit cs

/-- **One command per line**: the lines of the input with their numbers, without the blank
ones, each parsed once, up to the first `exit`. -/
def expected (s : Bytes) : List (ℕ × Command) :=
  untilExit ((((s.splitOn 10).zipIdx).filter fun x => !isBlank x.1).filterMap
    fun x => (parseLine x.1).map fun c => (x.2, c))

/-! ## Long lines -/

/-- The pieces of 511 bytes of a line, the last one shorter or empty. -/
def pieces (l : Bytes) : List Bytes :=
  (List.range (l.length / (lineSize - 1) + 1)).map
    fun i => (l.drop ((lineSize - 1) * i)).take (lineSize - 1)

/-- The line survives the cut: its first piece that is not blank is the same command as the
line, and either this is `exit` or the later pieces are blank. -/
def Single (l : Bytes) : Prop :=
  match (pieces l).dropWhile isBlank with
  | [] => True
  | p :: ps => parseLine p = parseLine l ∧ (parseLine l = some .exit ∨ ps.all isBlank)

/-- The lines up to the first one that is an `exit`. -/
def heard : List Bytes → List Bytes
  | [] => []
  | l :: ls => l :: if parseLine l = some .exit then [] else heard ls

end Chat
