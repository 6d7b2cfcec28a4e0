import LinuxExercises.Spec.Words
import LinuxExercises.Proof.Input
import LinuxExercises.Proof.Numbers

/-!
# p2pchat: the command of a line

* `selects_eq`: what is saved behind a null pointer of `strtok` does not matter, and `main`
  selects what `parseLine` says.
* `Words.strtok`: a call of `strtok` takes the first word and leaves the others.
* `selects_iff`: the command that `main` selects is the one the grammar says.
* `mainRound_iff`: **in a round of the loop `main` selects exactly what the grammar says of
  the line, and `send k m` is the call of `cmd_send` with `k` and `m`**.
-/

namespace Chat

variable {lost : Bytes → Bytes} {line w l idstr msg : Bytes} {ws : List Bytes} {c : Option Command} {n : ℕ}

/-! ## The calls -/

theorem next_space (lost : Bytes → Bytes) (s : Bytes) :
    strtokNext lost delimSpace s =
      match strtok s with
      | some (w, l) => (some w, l)
      | none => (none, lost s) := by
  have hin : ∀ b : UInt8, decide (b ∈ delimSpace) = decide (b = 32) := by simp [delimSpace]
  unfold strtokNext strtok
  simp only [decide_not, hin]
  by_cases h : s.dropWhile (· = 32) = []
  · simp [h]
  · simp [h]

/-- Without a delimiter the token is the rest of the line. -/
theorem next_rest (lost : Bytes → Bytes) (s : Bytes) :
    strtokNext lost [] s = if s = [] then (none, lost s) else (some s, []) := by
  have hdrop : s.dropWhile (· ∈ ([] : Bytes)) = s := by
    cases s <;> simp
  have htake : s.takeWhile (· ∉ ([] : Bytes)) = s := List.takeWhile_eq_self_iff.2 (by simp)
  have hend : s.dropWhile (· ∉ ([] : Bytes)) = [] := List.dropWhile_eq_nil_iff.2 (by simp)
  unfold strtokNext
  simp only [hdrop, htake, hend, List.drop_nil]

/-- **The saved position** of a call without a token is never used. -/
theorem selects_eq (lost : Bytes → Bytes) (line : Bytes) : selects lost line = parseLine line := by
  unfold selects parseLine
  rw [next_space]
  cases hcmd : strtok line with
  | none => rfl
  | some x =>
    obtain ⟨cmd, rest⟩ := x
    simp only [Option.map_some, Option.some.injEq, next_space, next_rest]
    unfold command
    cases hfirst : strtok rest with
    | none =>
      cases hsecond : strtok (lost rest) <;> simp
    | some y =>
      obtain ⟨arg, rest'⟩ := y
      cases hsecond : strtok rest' with
      | none =>
        simp only [hsecond]
        by_cases hmsg : rest' = [] <;> simp [hmsg]
      | some z =>
        simp only [hsecond]
        by_cases hmsg : rest' = [] <;> simp [hmsg]

/-! ## Words -/

theorem strtok_spaces (n : ℕ) (s : Bytes) : strtok (spaces n ++ s) = strtok s := by
  have hskip : (spaces n ++ s).dropWhile (· = 32) = s.dropWhile (· = 32) := by
    refine List.dropWhile_append_of_pos fun b hb => ?_
    simpa using List.eq_of_mem_replicate hb
  unfold strtok
  rw [hskip]

theorem strtok_blank (n : ℕ) : strtok (spaces n) = none := by
  have := strtok_spaces n []
  rwa [List.append_nil] at this

/-- **`strtok` takes a word.** -/
theorem Words.strtok (h : Words line (w :: ws)) : ∃ l, Chat.strtok line = some (w, l) ∧ Words l ws := by
  cases h with
  | last n w hw => exact ⟨[], by rw [strtok_spaces, strtok_last hw.1 hw.2], .nil 0⟩
  | cons n w l ws hw hl =>
    refine ⟨l, ?_, hl⟩
    rw [List.append_assoc, strtok_spaces, strtok_word hw.1 hw.2]

theorem Words.strtok_nil (h : Words line []) : Chat.strtok line = none := by
  cases h with
  | nil n => exact strtok_blank n

/-- A line is blank, or has a first word. -/
theorem line_cases (line : Bytes) :
    ∃ n, line = spaces n ∨ ∃ w, IsWord w ∧ (line = spaces n ++ w ∨ ∃ l, line = spaces n ++ w ++ 32 :: l) := by
  have hblank : line.takeWhile (· = 32) = spaces (line.takeWhile (· = 32)).length := by
    refine List.eq_replicate_of_mem fun b hb => ?_
    simpa using List.mem_takeWhile_imp hb
  have hline := (List.takeWhile_append_dropWhile (p := (· = 32)) (l := line)).symm
  rw [hblank] at hline
  refine ⟨(line.takeWhile (· = 32)).length, ?_⟩
  by_cases hnil : line.dropWhile (· = 32) = []
  · left
    rw [hnil, List.append_nil] at hline
    exact hline
  · right
    have hsplit := (List.takeWhile_append_dropWhile (p := (· ≠ 32)) (l := line.dropWhile (· = 32))).symm
    have hword : IsWord ((line.dropWhile (· = 32)).takeWhile (· ≠ 32)) := by
      have hhead := List.head_dropWhile_not (· = 32) (l := line) hnil
      constructor
      · cases ht : line.dropWhile (· = 32) with
        | nil => exact absurd ht hnil
        | cons b u =>
          have hb : b ≠ 32 := by simpa [ht] using hhead
          simp [hb]
      · intro hin
        simpa using List.mem_takeWhile_imp hin
    refine ⟨_, hword, ?_⟩
    cases hrest : (line.dropWhile (· = 32)).dropWhile (· ≠ 32) with
    | nil =>
      left
      rw [hrest, List.append_nil] at hsplit
      rw [← hsplit]
      exact hline
    | cons b l =>
      right
      have hb : b = 32 := by
        have hhead := List.head_dropWhile_not (· ≠ 32) (l := line.dropWhile (· = 32)) (hrest ▸ List.cons_ne_nil b l)
        simp only [hrest, List.head_cons] at hhead
        simpa using hhead
      subst hb
      rw [hrest] at hsplit
      refine ⟨l, ?_⟩
      rw [List.append_assoc, ← hsplit]
      exact hline

/-- Every line is words between spaces. -/
theorem exists_words (line : Bytes) : ∃ ws, Words line ws := by
  induction h : line.length using Nat.strong_induction_on generalizing line with
  | _ m ih =>
    obtain ⟨n, rfl | ⟨w, hw, rfl | ⟨l, rfl⟩⟩⟩ := line_cases line
    · exact ⟨[], .nil n⟩
    · exact ⟨[w], .last n w hw⟩
    · have hlt : l.length < m := by
        rw [← h]
        simp only [List.length_append, List.length_cons]
        omega
      obtain ⟨ws, hl⟩ := ih l.length hlt l rfl
      exact ⟨w :: ws, .cons n w l ws hw hl⟩

/-! ## The grammar -/

theorem isWord_send : IsWord wordSend := ⟨by decide, by decide⟩

theorem parseLine_word (h : strtok line = some (w, l)) : parseLine line = some (command w l) := by
  rw [parseLine, h]
  rfl

/-- The two calls of `send`. -/
theorem parseLine_send {rest : Bytes} (hm : strtok (idstr ++ rest) = some (idstr, msg)) (a b : ℕ) :
    parseLine (spaces a ++ wordSend ++ 32 :: (spaces b ++ idstr ++ rest)) =
      some (if msg = [] then .usage wordSend
        else if (atoi idstr).toInt ≤ 0 then .invalidId
        else .send (atoi idstr) msg) := by
  have htok : strtok (spaces b ++ idstr ++ rest) = some (idstr, msg) := by
    rw [List.append_assoc, strtok_spaces, hm]
  have hline : strtok (spaces a ++ wordSend ++ 32 :: (spaces b ++ idstr ++ rest)) =
      some (wordSend, spaces b ++ idstr ++ rest) := by
    rw [List.append_assoc, strtok_spaces, strtok_word isWord_send.1 isWord_send.2]
  rw [parseLine_word hline, command_send htok]

/-- What the grammar says is selected. -/
theorem Says.parseLine_eq (h : Says line c) : parseLine line = c := by
  cases h with
  | blank hw => rw [parseLine, hw.strtok_nil]; rfl
  | plain hw hc =>
    obtain ⟨l, htok, -⟩ := hw.strtok
    rw [parseLine_word htok]
    congr 1
    unfold plainCommand at hc
    unfold command
    split at hc
    · rename_i h
      simp_all
    split at hc
    · rename_i h
      subst h
      exact Option.some.inj hc
    split at hc
    · rename_i h
      subst h
      exact Option.some.inj hc
    split at hc
    · rename_i h
      subst h
      exact Option.some.inj hc
    split at hc
    · rename_i h
      subst h
      exact Option.some.inj hc
    · simp at hc
  | unknown hw hp ha =>
    obtain ⟨l, htok, -⟩ := hw.strtok
    rw [parseLine_word htok]
    simp only [TakesArgs, not_or] at ha
    unfold plainCommand at hp
    simp only [ite_eq_iff, reduceCtorEq, and_false, false_or, and_true] at hp
    obtain ⟨h1, h2, h3, h4, h5⟩ := hp
    simp [command, h1, h2, h3, h4, h5, ha]
  | connect hw =>
    obtain ⟨l, htok, hl⟩ := hw.strtok
    obtain ⟨l', htok', hl'⟩ := hl.strtok
    obtain ⟨l'', htok'', -⟩ := hl'.strtok
    rw [parseLine_word htok]
    simp only [command, htok', htok'']
    rfl
  | @connectUsage _ ws hw hlen =>
    obtain ⟨l, htok, hl⟩ := hw.strtok
    rw [parseLine_word htok]
    cases ws with
    | nil =>
      simp only [command, hl.strtok_nil]
      rfl
    | cons ip ws =>
      obtain ⟨l', htok', hl'⟩ := hl.strtok
      have hnil : ws = [] := by
        rw [List.length_cons] at hlen
        exact List.eq_nil_of_length_eq_zero (by omega)
      subst hnil
      simp only [command, htok', hl'.strtok_nil]
      rfl
  | terminate hw hpos =>
    obtain ⟨l, htok, hl⟩ := hw.strtok
    obtain ⟨l', htok', -⟩ := hl.strtok
    rw [parseLine_word htok, command_terminate htok', if_neg (by omega)]
  | terminateInvalid hw hle =>
    obtain ⟨l, htok, hl⟩ := hw.strtok
    obtain ⟨l', htok', -⟩ := hl.strtok
    rw [parseLine_word htok, command_terminate htok', if_pos hle]
  | terminateUsage hw =>
    obtain ⟨l, htok, hl⟩ := hw.strtok
    rw [parseLine_word htok]
    simp only [command, hl.strtok_nil]
    rfl
  | send hw hm hpos =>
    rw [parseLine_send (strtok_word hw.1 hw.2 _), if_neg hm, if_neg (by omega)]
  | sendInvalid hw hm hle =>
    rw [parseLine_send (strtok_word hw.1 hw.2 _), if_neg hm, if_pos hle]
  | @sendEmpty a b idstr rest hw hrest =>
    have htok : strtok (idstr ++ rest) = some (idstr, []) := by
      rcases hrest with rfl | rfl
      · rw [List.append_nil, strtok_last hw.1 hw.2]
      · exact strtok_word hw.1 hw.2 []
    rw [parseLine_send htok, if_pos rfl]
  | sendUsage hw =>
    obtain ⟨l, htok, hl⟩ := hw.strtok
    rw [parseLine_word htok]
    simp only [command, hl.strtok_nil]
    rfl

/-- The grammar says something of every line. -/
theorem exists_says (line : Bytes) : ∃ c, Says line c := by
  obtain ⟨ws, hws⟩ := exists_words line
  cases ws with
  | nil => exact ⟨none, .blank hws⟩
  | cons w ws =>
    cases hplain : plainCommand w with
    | some c => exact ⟨some c, .plain hws hplain⟩
    | none =>
      by_cases hargs : TakesArgs w
      swap
      · exact ⟨_, .unknown hws hplain hargs⟩
      rcases hargs with rfl | rfl | rfl
      · match ws, hws with
        | [], hws => exact ⟨_, .connectUsage hws (by simp)⟩
        | [_], hws => exact ⟨_, .connectUsage hws (by simp)⟩
        | _ :: _ :: _, hws => exact ⟨_, .connect hws⟩
      · cases ws with
        | nil => exact ⟨_, .terminateUsage hws⟩
        | cons idstr ws =>
          by_cases hpos : 0 < (atoi idstr).toInt
          · exact ⟨_, .terminate hws hpos⟩
          · exact ⟨_, .terminateInvalid hws (by omega)⟩
      · cases ws with
        | nil => exact ⟨_, .sendUsage hws⟩
        | cons idstr ws =>
          -- the message is found in the line, not in its words
          cases hws with
          | cons a _ l _ _ hl =>
            cases hl with
            | last b _ hid =>
              have := Says.sendEmpty (a := a) (b := b) hid (Or.inl rfl)
              rw [List.append_nil] at this
              exact ⟨_, this⟩
            | cons b _ msg _ hid _ =>
              by_cases hm : msg = []
              · subst hm
                exact ⟨_, .sendEmpty hid (Or.inr rfl)⟩
              by_cases hpos : 0 < (atoi idstr).toInt
              · exact ⟨_, .send hid hm hpos⟩
              · exact ⟨_, .sendInvalid hid hm (by omega)⟩

/-- **The grammar is what is selected.** -/
theorem selects_iff (lost : Bytes → Bytes) : selects lost line = c ↔ Says line c := by
  rw [selects_eq]
  constructor
  · intro h
    obtain ⟨d, hd⟩ := exists_says line
    rw [← h, hd.parseLine_eq]
    exact hd
  · exact fun h => h.parseLine_eq

/-! ## A round of the loop -/

/-- A line of the input, with its newline or at the end of the input. -/
theorem mainRound_line {s t : Bytes} (h0 : 0 ∉ line) (h10 : 10 ∉ line) (hlen : line.length ≤ 510)
    (ht : line ≠ [] ∧ t = [] ∧ s = [] ∨ t = 10 :: s) :
    mainRound lost (line ++ t) = some (selects lost line, s) := by
  have hsel : (if line = [] then none else selects lost line) = selects lost line := by
    split
    · rename_i hnil
      rw [hnil, selects_eq, parseLine_nil]
    · rfl
  rcases ht with ⟨hne, rfl, rfl⟩ | rfl
  · have htake : takeLine 511 (line ++ []) = (line, []) := by
      rw [takeLine_piece h10 (Or.inr rfl), List.take_of_length_le (by omega), List.drop_eq_nil_of_le (by omega)]
      rfl
    have hget : fgets lineSize (line ++ []) = some (line, []) := by
      rw [fgets, if_neg (by simpa using hne)]
      exact congrArg some htake
    rw [mainRound, hget, Option.map_some]
    simp only [line_eq h0 h10, hsel]
  · have hget : fgets lineSize (line ++ 10 :: s) = some (line ++ [10], s) := by
      rw [fgets, if_neg (by simp)]
      exact congrArg some (takeLine_newline (n := 511) h10 (by omega))
    rw [mainRound, hget, Option.map_some]
    simp only [line_newline_eq h0 h10, hsel]

theorem says_send {k : ℕ} (hk : 1 ≤ k) (hk' : k < 2 ^ 31) (hm : msg ≠ []) :
    Says (wordSend ++ 32 :: decimal k ++ 32 :: msg) (some (.send (BitVec.ofNat 32 k) msg)) := by
  have hatoi := atoi_decimal hk'
  have hpos : 0 < (atoi (decimal k)).toInt := by
    rw [hatoi, BitVec.toInt_eq_toNat_cond, BitVec.toNat_ofNat]
    split <;> omega
  have hword : IsWord (decimal k) := by
    refine ⟨decimal_ne_nil k, fun h => ?_⟩
    have := isDigit_decimal k 32 h
    exact absurd this (by decide)
  have h := Says.send (a := 0) (b := 0) hword hm hpos
  rw [hatoi] at h
  simpa [spaces] using h

/-- **Command parsing**: for a line of at most 510 bytes the round of the loop takes the line
and selects what the grammar says of it, and no other command; and `send k m` is `cmd_send`
with exactly `k` and `m`. -/
theorem mainRound_iff {s t : Bytes} (h0 : 0 ∉ line) (h10 : 10 ∉ line) (hlen : line.length ≤ 510)
    (ht : line ≠ [] ∧ t = [] ∧ s = [] ∨ t = 10 :: s) (lost : Bytes → Bytes) :
    (∀ c, mainRound lost (line ++ t) = some (c, s) ↔ Says line c) ∧
      ∀ (k : ℕ) (msg : Bytes), 1 ≤ k → k < 2 ^ 31 → msg ≠ [] → line = wordSend ++ 32 :: decimal k ++ 32 :: msg →
        mainRound lost (line ++ t) = some (some (.send (BitVec.ofNat 32 k) msg), s) := by
  have hround : mainRound lost (line ++ t) = _ := mainRound_line h0 h10 hlen ht
  have hiff : ∀ c, mainRound lost (line ++ t) = some (c, s) ↔ Says line c := by
    intro c
    rw [hround, ← selects_iff lost]
    simp
  refine ⟨hiff, ?_⟩
  intro k msg hk hk' hm hline
  rw [hiff, hline]
  exact says_send hk hk' hm

/-- `send 7  hi`, with a message that starts with a space. -/
def sendLine : Bytes := wordSend ++ 32 :: decimal 7 ++ 32 :: [32, 104, 105]

theorem mainRound_iff_send :
    (∀ c, mainRound id (sendLine ++ [10]) = some (c, []) ↔ Says sendLine c) ∧
      mainRound id (sendLine ++ [10]) = some (some (.send 7 [32, 104, 105]), []) :=
  have h := mainRound_iff (t := [10]) (s := []) (show 0 ∉ sendLine by decide) (by decide) (by decide)
    (Or.inr rfl) id
  ⟨h.1, h.2 7 [32, 104, 105] (by decide) (by decide) (by decide) rfl⟩

end Chat
