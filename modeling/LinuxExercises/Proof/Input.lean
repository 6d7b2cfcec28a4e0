import LinuxExercises.Spec.Input
import Mathlib.Tactic.Common

/-!
# p2pchat: one command per line

* `dispatched_eq`: what `main` dispatches is what the pieces of the lines say, where a
  piece is 511 bytes of a line and the last piece of it is shorter.
* `dispatched_of_short`: on an input whose lines have at most 511 bytes it is one command
  a line.
* `dispatched_iff`: **the loop dispatches exactly one command for each line that is not
  blank if and only if each line up to the first `exit` survives the cut into pieces**;
  `long_send_exits` is a `send` whose message ends the program.
-/

namespace Chat

variable {l s buf : Bytes} {n k : ℕ} {c : Command} {ls : List Bytes}

/-! ## `fgets` -/

/-- A line that fits is taken with its newline. -/
theorem takeLine_newline (h : 10 ∉ l) (hn : l.length < n) : takeLine n (l ++ 10 :: s) = (l ++ [10], s) := by
  induction l generalizing n with
  | nil =>
    obtain ⟨m, rfl⟩ : ∃ m, n = m + 1 := ⟨n - 1, by simp at hn; omega⟩
    simp [takeLine]
  | cons b l ih =>
    obtain ⟨m, rfl⟩ : ∃ m, n = m + 1 := ⟨n - 1, by simp at hn; omega⟩
    simp only [List.mem_cons, not_or] at h
    have hlt : l.length < m := by simpa using hn
    simp [takeLine, Ne.symm h.1, ih h.2 hlt]

/-- Of a line that does not fit, and of the last one, a piece is taken. -/
theorem takeLine_piece (h : 10 ∉ l) (hn : n ≤ l.length ∨ s = []) :
    takeLine n (l ++ s) = (l.take n, l.drop n ++ s) := by
  induction l generalizing n with
  | nil =>
    cases n with
    | zero => simp [takeLine]
    | succ m =>
      have hs : s = [] := by simpa using hn
      simp [takeLine, hs]
  | cons b l ih =>
    cases n with
    | zero => simp [takeLine]
    | succ m =>
      simp only [List.mem_cons, not_or] at h
      have hlt : m ≤ l.length ∨ s = [] := by simpa using hn
      simp [takeLine, Ne.symm h.1, ih h.2 hlt]

/-- The line in a buffer. -/
theorem line_eq (h0 : 0 ∉ l) (h : 10 ∉ l) : (cstr l).takeWhile (· ≠ 10) = l := by
  rw [CStr.cstr_bytes ⟨l, h0⟩, List.takeWhile_eq_self_iff]
  intro b hb
  have hne : b ≠ 10 := fun he => h (he ▸ hb)
  simpa using hne

/-- The newline is cut off. -/
theorem line_newline_eq (h0 : 0 ∉ l) (h : 10 ∉ l) : (cstr (l ++ [10])).takeWhile (· ≠ 10) = l := by
  have hall : ∀ b ∈ l, decide (b ≠ 10) = true := by
    intro b hb
    have hne : b ≠ 10 := fun he => h (he ▸ hb)
    simpa using hne
  have hbuf : 0 ∉ l ++ [10] := by simpa using h0
  rw [CStr.cstr_bytes ⟨l ++ [10], hbuf⟩, List.takeWhile_append_of_pos hall]
  simp

/-! ## Tokens -/

/-- A line has no token exactly when it is blank. -/
theorem parseLine_eq_none : parseLine l = none ↔ isBlank l := by
  unfold parseLine strtok isBlank
  by_cases h : l.dropWhile (· = 32) = []
  · simpa [h] using List.dropWhile_eq_nil_iff.1 h
  · rw [if_neg h]
    simpa [List.dropWhile_eq_nil_iff] using h

theorem parseLine_nil : parseLine [] = none := parseLine_eq_none.2 rfl

/-! ## The pieces of a line -/

theorem pieces_short (h : l.length < 511) : pieces l = [l] := by
  have hdiv : l.length / 511 = 0 := by omega
  simp [pieces, lineSize, hdiv, List.take_of_length_le h.le]

theorem pieces_long (h : 511 ≤ l.length) : pieces l = l.take 511 :: pieces (l.drop 511) := by
  have hdiv : l.length / 511 + 1 = (l.length - 511) / 511 + 1 + 1 := by omega
  simp only [pieces, lineSize, List.length_drop]
  rw [hdiv, List.range_succ_eq_map]
  simp only [List.map_cons, List.map_map, Nat.mul_zero, List.drop_zero]
  refine congrArg _ (List.map_congr_left fun i _ => ?_)
  simp only [Function.comp_apply, List.drop_drop]
  congr 2
  omega

/-- No piece is lost: together they are the line. -/
theorem pieces_flatten (l : Bytes) : (pieces l).flatten = l := by
  induction h : l.length using Nat.strong_induction_on generalizing l with
  | _ m ih =>
    by_cases hl : l.length < 511
    · simp [pieces_short hl]
    · have hlong : 511 ≤ l.length := by omega
      have hdrop : (l.drop 511).length < m := by
        rw [List.length_drop]
        omega
      rw [pieces_long hlong, List.flatten_cons, ih _ hdrop _ rfl, List.take_append_drop]

theorem isBlank_flatten (ps : List Bytes) : isBlank ps.flatten = ps.all isBlank := by
  induction ps with
  | nil => rfl
  | cons p ps ih =>
    rw [List.flatten_cons, List.all_cons, ← ih]
    exact List.all_append

/-- A line of at most 511 bytes survives the cut. -/
theorem single_of_short (h : l.length ≤ 511) : Single l := by
  have hp : ∃ ps : List Bytes, pieces l = l :: ps ∧ ps.all isBlank = true := by
    by_cases hlt : l.length < 511
    · exact ⟨[], pieces_short hlt, rfl⟩
    · have hlen : l.length = 511 := by omega
      have hdrop : l.drop 511 = [] := List.drop_eq_nil_of_le h
      refine ⟨[[]], ?_, rfl⟩
      rw [pieces_long hlen.ge, hdrop, List.take_of_length_le h, pieces_short (by simp)]
  obtain ⟨ps, hps, hall⟩ := hp
  unfold Single
  rw [hps, List.dropWhile_cons]
  by_cases hb : isBlank l = true
  · have hnil : ps.dropWhile isBlank = [] := by simpa [List.dropWhile_eq_nil_iff] using hall
    rw [if_pos hb, hnil]
    trivial
  · rw [if_neg hb]
    exact ⟨rfl, Or.inr hall⟩

/-! ## The loop, in pieces -/

/-- One command of line `k`, if there is one, and then the others, unless it was `exit`. -/
def say (k : ℕ) (o : Option Command) (rest : List (ℕ × Command)) : List (ℕ × Command) :=
  match o with
  | none => rest
  | some c => (k, c) :: if c = .exit then [] else rest

/-- The commands of the lines from number `k` on, when `f` says which a line has. -/
def number (f : Bytes → List Command) : ℕ → List Bytes → List (ℕ × Command)
  | _, [] => []
  | k, l :: ls => (f l).map (k, ·) ++ number f (k + 1) ls

theorem untilExit_say (k : ℕ) (o : Option Command) (cs : List (ℕ × Command)) :
    untilExit (o.toList.map (k, ·) ++ cs) = say k o (untilExit cs) := by
  cases o with
  | none => rfl
  | some c => rfl

/-- One round of the loop. -/
theorem mainLoop_round {s' : Bytes} (h : fgets lineSize s = some (buf, s')) :
    mainLoop (n + 1) k s =
      say k (parseLine ((cstr buf).takeWhile (· ≠ 10)))
        (mainLoop n (if 10 ∈ buf then k + 1 else k) s') := by
  rw [mainLoop, h]
  by_cases hl : (cstr buf).takeWhile (· ≠ 10) = []
  · simp only [hl, if_true, parseLine_nil]
    rfl
  · simp only [hl, if_false]
    cases parseLine ((cstr buf).takeWhile (· ≠ 10)) with
    | none => rfl
    | some c => rfl

/-- What the pieces of a line say. -/
def pieceCommands (l : Bytes) : List Command := (pieces l).filterMap parseLine

theorem pieceCommands_short (h : l.length < 511) : pieceCommands l = (parseLine l).toList := by
  unfold pieceCommands
  rw [pieces_short h, List.filterMap_cons]
  cases parseLine l with
  | none => rfl
  | some c => rfl

theorem pieceCommands_long (h : 511 ≤ l.length) :
    pieceCommands l = (parseLine (l.take 511)).toList ++ pieceCommands (l.drop 511) := by
  unfold pieceCommands
  rw [pieces_long h, List.filterMap_cons]
  cases parseLine (l.take 511) with
  | none => rfl
  | some c => rfl

/-- The first line of a stream: it ends in a newline, or is all that is left. -/
theorem firstLine (s : Bytes) : ∃ l, 10 ∉ l ∧ (s = l ∨ ∃ s', s = l ++ 10 :: s') := by
  by_cases h : (10 : UInt8) ∈ s
  · obtain ⟨l, s', rfl, hl⟩ := List.eq_append_cons_of_mem h
    exact ⟨l, hl, Or.inr ⟨s', rfl⟩⟩
  · exact ⟨s, h, Or.inl rfl⟩

/-- The lines behind the first one do not depend on it. -/
theorem splitOn_behind {t : Bytes} (ht : t = [] ∨ ∃ s', t = 10 :: s') :
    ∃ ls, ∀ l : Bytes, 10 ∉ l → (l ++ t).splitOn 10 = l :: ls := by
  rcases ht with rfl | ⟨s', rfl⟩
  · refine ⟨[], fun l hl => ?_⟩
    rw [List.append_nil, List.splitOn_eq_singleton hl]
  · exact ⟨s'.splitOn 10, fun l hl => List.splitOn_append_cons_self_of_not_mem hl s'⟩

/-- **The loop dispatches what the pieces of the lines say.** -/
theorem mainLoop_eq (h0 : 0 ∉ s) (hn : s.length < n) :
    mainLoop n k s = untilExit (number pieceCommands k (s.splitOn 10)) := by
  induction n generalizing s k with
  | zero => omega
  | succ n ih =>
    by_cases hnil : s = []
    · subst hnil
      simp [mainLoop, fgets, number, pieceCommands_short, parseLine_nil, untilExit]
    obtain ⟨l, hl, hs⟩ := firstLine s
    have h0l : 0 ∉ l := by
      rcases hs with rfl | ⟨s', rfl⟩
      · exact h0
      · simp only [List.mem_append, not_or] at h0
        exact h0.1
    have hf : fgets lineSize s = some (takeLine 511 s) := if_neg hnil
    by_cases hshort : l.length < 511
    · rcases hs with rfl | ⟨s', rfl⟩
      · -- the last line, without a newline
        have htake : takeLine 511 s = (s, []) := by
          have := takeLine_piece (n := 511) hl (Or.inr (rfl : ([] : Bytes) = []))
          simpa [List.take_of_length_le hshort.le, List.drop_eq_nil_of_le hshort.le] using this
        rw [htake] at hf
        have hrest : mainLoop n k [] = [] := by
          cases n with
          | zero => rfl
          | succ m => rfl
        rw [mainLoop_round hf, line_eq h0l hl, if_neg hl, hrest, List.splitOn_eq_singleton hl,
          number, pieceCommands_short hshort, untilExit_say]
        rfl
      · -- a line that fits, with its newline
        rw [takeLine_newline hl hshort] at hf
        have h0' : 0 ∉ s' := by
          simp only [List.mem_append, List.mem_cons, not_or] at h0
          exact h0.2.2
        have hlen : s'.length < n := by
          simp only [List.length_append, List.length_cons] at hn
          omega
        rw [mainLoop_round hf, line_newline_eq h0l hl, if_pos (by simp), ih h0' hlen,
          List.splitOn_append_cons_self_of_not_mem hl, number, pieceCommands_short hshort, untilExit_say]
    · -- the first 511 bytes of a line; the stream goes on inside it
      have hlong : 511 ≤ l.length := by omega
      obtain ⟨t, hst, ht⟩ : ∃ t, s = l ++ t ∧ (t = [] ∨ ∃ s', t = 10 :: s') := by
        rcases hs with rfl | ⟨s', rfl⟩
        · exact ⟨[], by simp, Or.inl rfl⟩
        · exact ⟨10 :: s', rfl, Or.inr ⟨s', rfl⟩⟩
      obtain ⟨ls, hls⟩ := splitOn_behind ht
      have hsplit : s.splitOn 10 = l :: ls := by
        rw [hst]
        exact hls l hl
      have hsplit' := hls (l.drop 511) fun h => hl (List.mem_of_mem_drop h)
      have hf' : fgets lineSize s = some (l.take 511, l.drop 511 ++ t) := by
        rw [hf, hst, takeLine_piece hl (Or.inl hlong)]
      have h0t : 0 ∉ l.take 511 := fun h => h0l (List.mem_of_mem_take h)
      have hlt : 10 ∉ l.take 511 := fun h => hl (List.mem_of_mem_take h)
      have h0' : 0 ∉ l.drop 511 ++ t := by
        intro h
        apply h0
        rw [hst, List.mem_append]
        rcases List.mem_append.1 h with h | h
        · exact Or.inl (List.mem_of_mem_drop h)
        · exact Or.inr h
      have hlen : (l.drop 511 ++ t).length < n := by
        rw [hst] at hn
        simp only [List.length_append, List.length_drop] at hn ⊢
        omega
      rw [mainLoop_round hf', line_eq h0t hlt, if_neg hlt, ih h0' hlen, hsplit', hsplit, number,
        number, pieceCommands_long hlong, List.map_append, List.append_assoc, untilExit_say]

/-- What `main` dispatches, by the pieces of the lines. -/
theorem dispatched_eq (h0 : 0 ∉ s) : dispatched s = untilExit (number pieceCommands 0 (s.splitOn 10)) :=
  mainLoop_eq h0 (Nat.lt_succ_self _)

/-- More rounds than bytes change nothing: the loop has ended. -/
theorem mainLoop_fuel (h0 : 0 ∉ s) (hn : s.length < n) : mainLoop n 0 s = dispatched s := by
  rw [dispatched_eq h0, mainLoop_eq h0 hn]

/-! ## Against the lines -/

theorem expected_eq : expected s = untilExit (number (fun l => (parseLine l).toList) 0 (s.splitOn 10)) := by
  unfold expected
  congr 1
  suffices h : ∀ (ls : List Bytes) (k : ℕ),
      ((ls.zipIdx k).filter fun x => !isBlank x.1).filterMap (fun x => (parseLine x.1).map fun c => (x.2, c)) =
        number (fun l => (parseLine l).toList) k ls from h _ 0
  intro ls
  induction ls with
  | nil => intro k; rfl
  | cons l ls ih =>
    intro k
    simp only [List.zipIdx_cons, number, List.filter_cons]
    cases hp : parseLine l with
    | none =>
      have hb : isBlank l = true := parseLine_eq_none.1 hp
      simpa [hb] using ih (k + 1)
    | some c =>
      have hb : isBlank l = false := by
        rw [← Bool.not_eq_true, ← parseLine_eq_none, hp]
        simp
      simpa [hb, hp] using ih (k + 1)

theorem le_of_mem_number {f : Bytes → List Command} {x : ℕ × Command} (h : x ∈ number f k ls) : k ≤ x.1 := by
  induction ls generalizing k with
  | nil => simp [number] at h
  | cons l ls ih =>
    rw [number, List.mem_append] at h
    rcases h with h | h
    · obtain ⟨c, -, rfl⟩ := List.mem_map.1 h
      exact le_rfl
    · have := ih h
      omega

theorem mem_of_mem_untilExit {cs : List (ℕ × Command)} {x : ℕ × Command} (h : x ∈ untilExit cs) : x ∈ cs := by
  induction cs with
  | nil => exact h
  | cons y cs ih =>
    obtain ⟨k, c⟩ := y
    rw [untilExit, List.mem_cons] at h
    rcases h with rfl | h
    · exact List.mem_cons_self
    · split at h
      · simp at h
      · exact List.mem_cons_of_mem _ (ih h)

theorem filterMap_eq_nil {ps : List Bytes} : ps.filterMap parseLine = [] ↔ ps.all isBlank = true := by
  rw [List.filterMap_eq_nil_iff, List.all_eq_true]
  exact forall₂_congr fun p _ => parseLine_eq_none

/-- Only a blank line says nothing in all its pieces. -/
theorem pieceCommands_eq_nil : pieceCommands l = [] ↔ isBlank l := by
  rw [pieceCommands, filterMap_eq_nil, ← isBlank_flatten, pieces_flatten]

/-- Blank pieces say nothing. -/
theorem filterMap_dropWhile (ps : List Bytes) :
    (ps.dropWhile isBlank).filterMap parseLine = ps.filterMap parseLine := by
  induction ps with
  | nil => rfl
  | cons p ps ih =>
    rw [List.dropWhile_cons]
    by_cases hb : isBlank p = true
    · rw [if_pos hb, List.filterMap_cons_none (parseLine_eq_none.2 hb), ih]
    · rw [if_neg hb]

/-- A line with a command survives the cut if its pieces say this command, and nothing more
that would still be heard. -/
theorem single_iff (hc : parseLine l = some c) :
    Single l ↔ ∃ r, pieceCommands l = c :: r ∧ (c = .exit ∨ r = []) := by
  have hne : pieceCommands l ≠ [] := by
    rw [Ne, pieceCommands_eq_nil, ← parseLine_eq_none, hc]
    simp
  unfold Single pieceCommands at *
  rw [← filterMap_dropWhile] at hne ⊢
  cases hd : (pieces l).dropWhile isBlank with
  | nil => simp [hd] at hne
  | cons p ps =>
    have hp : isBlank p ≠ true := by
      have := List.head_dropWhile_not isBlank (l := pieces l) (by simp [hd])
      simpa [hd] using this
    obtain ⟨d, hpd⟩ := Option.ne_none_iff_exists'.1 (mt parseLine_eq_none.1 hp)
    simp only [hc, List.filterMap_cons, hpd, Option.some.injEq, List.cons.injEq]
    constructor
    · rintro ⟨rfl, h⟩
      exact ⟨_, ⟨rfl, rfl⟩, h.imp id filterMap_eq_nil.2⟩
    · rintro ⟨r, ⟨rfl, rfl⟩, h⟩
      exact ⟨rfl, h.imp id filterMap_eq_nil.1⟩

/-- The pieces and the lines say the same up to the first `exit` if and only if each line
heard survives the cut. -/
theorem untilExit_number_iff :
    untilExit (number pieceCommands k ls) = untilExit (number (fun l => (parseLine l).toList) k ls) ↔
      ∀ l ∈ heard ls, Single l := by
  induction ls generalizing k with
  | nil => simp [number, heard]
  | cons l ls ih =>
    cases hp : parseLine l with
    | none =>
      -- a blank line is dropped on both sides
      have hb := parseLine_eq_none.1 hp
      have hs : Single l := by
        have hall : (pieces l).all isBlank = true := by
          rw [← isBlank_flatten, pieces_flatten]
          exact hb
        have hnil : (pieces l).dropWhile isBlank = [] := by simpa [List.dropWhile_eq_nil_iff] using hall
        simp [Single, hnil]
      simp [number, heard, hp, pieceCommands_eq_nil.2 hb, hs, ih]
    | some c =>
      rw [number, number, hp, untilExit_say, heard, List.forall_mem_cons, single_iff hp, hp]
      cases hpc : pieceCommands l with
      | nil =>
        have := parseLine_eq_none.2 (pieceCommands_eq_nil.1 hpc)
        simp [hp] at this
      | cons d r =>
        simp only [List.map_cons, List.cons_append, untilExit, say, List.cons.injEq, Prod.mk.injEq, true_and,
          Option.some.injEq]
        by_cases hdc : d = c
        swap
        · simp [hdc]
        subst hdc
        by_cases hx : d = .exit
        · simp [hx]
        cases r with
        | nil => simp [hx, ih]
        | cons e r =>
          -- the second command carries the number of this line, the other side goes on at the next one
          have hne : untilExit ((e :: r).map (k, ·) ++ number pieceCommands (k + 1) ls) ≠
              untilExit (number (fun l => (parseLine l).toList) (k + 1) ls) := by
            intro heq
            have hmem : (k, e) ∈ untilExit (number (fun l => (parseLine l).toList) (k + 1) ls) := by
              rw [← heq]
              exact List.mem_cons_self
            have := le_of_mem_number (mem_of_mem_untilExit hmem)
            omega
          simpa [hx] using hne

/-- On short lines the loop dispatches one command a line. -/
theorem dispatched_of_short (h0 : 0 ∉ s) (h : ∀ l ∈ s.splitOn 10, l.length ≤ 511) : dispatched s = expected s := by
  have hsub : ∀ ls : List Bytes, ∀ l ∈ heard ls, l ∈ ls := by
    intro ls
    induction ls with
    | nil => simp [heard]
    | cons l ls ih =>
      intro x hx
      rw [heard, List.mem_cons] at hx
      rcases hx with rfl | hx
      · exact List.mem_cons_self
      · split at hx
        · simp at hx
        · exact List.mem_cons_of_mem _ (ih x hx)
  rw [dispatched_eq h0, expected_eq, untilExit_number_iff]
  exact fun l hl => single_of_short (h l (hsub _ l hl))

/-- **One command per line, exactly when** every line up to the first `exit` survives the
cut into pieces of 511 bytes. -/
theorem dispatched_iff (h0 : 0 ∉ s) :
    dispatched s = expected s ↔ ∀ l ∈ heard (s.splitOn 10), Single l := by
  rw [dispatched_eq h0, expected_eq, untilExit_number_iff]

/-- The line `send 1 xx…xexit`, whose message ends the program, before a `list`. -/
def longSend : Bytes := wordSend ++ [32, 49, 32] ++ .replicate 504 120 ++ wordExit ++ 10 :: wordList

theorem dispatched_iff_longSend :
    0 ∉ longSend ∧ (dispatched longSend = expected longSend ↔ ∀ l ∈ heard (longSend.splitOn 10), Single l) :=
  have h : 0 ∉ longSend := by decide +kernel
  ⟨h, dispatched_iff h⟩

/-- **A message ends the program**: the bytes of one `send` line are dispatched as two
commands, the second an `exit`, and the `list` of the next line is not heard. -/
theorem long_send_exits :
    0 ∉ longSend ∧ dispatched longSend = [(0, .send 1 (.replicate 504 120)), (0, .exit)] ∧
      expected longSend = [(0, .send 1 (.replicate 504 120 ++ wordExit)), (1, .list)] ∧
      dispatched longSend ≠ expected longSend := by decide +kernel

end Chat
