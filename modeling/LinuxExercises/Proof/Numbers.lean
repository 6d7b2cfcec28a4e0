import LinuxExercises.Spec.Numbers

/-!
# Numbers: what `atoi` makes of a text

* `strtol_value`, `strtol_rest`: `strtol` gives the clipped value of the leading numeral,
  and nothing is left exactly behind a whole numeral.
* `atoi_decimal`: a number below `2 ^ 31` in decimal digits is read back.
* `parsePort_iff`: the port of `connect` is a whole numeral in its range.
* `acts_iff`: the other four places act on the leading numeral modulo `2 ^ 32`.
* `numbers_iff`: **a text is only ever taken for the number it denotes if and only if it is a
  whole numeral in the admitted range, or what its leading numeral is modulo `2 ^ 32` is not
  in that range**.
-/

namespace Chat

variable {s t ds : Bytes} {k : ℤ} {n : ℕ} {site : Site}

/-! ## Runs of bytes -/

theorem takeWhile_append_stop {p : UInt8 → Bool} (hs : ∀ b ∈ s, p b = true) (ht : ∀ b ∈ t.head?, p b = false) :
    (s ++ t).takeWhile p = s ∧ (s ++ t).dropWhile p = t := by
  have htake : t.takeWhile p = [] := by
    cases t with
    | nil => rfl
    | cons b t => simp [ht b rfl]
  have hdrop : t.dropWhile p = t := by
    cases t with
    | nil => rfl
    | cons b t => simp [ht b rfl]
  rw [List.takeWhile_append_of_pos hs, htake, List.append_nil, List.dropWhile_append_of_pos hs, hdrop]
  exact ⟨rfl, rfl⟩

theorem head?_digits (hne : ds ≠ []) (hd : ∀ b ∈ ds, isDigit b = true) (t : Bytes) :
    ∃ d u, ds ++ t = d :: u ∧ isDigit d = true := by
  cases ds with
  | nil => exact absurd rfl hne
  | cons d u => exact ⟨d, u ++ t, rfl, hd d List.mem_cons_self⟩

/-- A digit is no white space and no sign. -/
theorem of_isDigit {d : UInt8} (h : isDigit d = true) : isSpace d = false ∧ d ≠ 45 ∧ d ≠ 43 := by
  revert h
  simp only [isDigit, isSpace, decide_eq_true_eq, decide_eq_false_iff_not, UInt8.le_iff_toNat_le, ne_eq,
    ← UInt8.toNat_inj]
  intro h
  simp only [UInt8.reduceToNat] at h ⊢
  omega

/-! ## `strtol` -/

theorem splitSign_digit {d : UInt8} (h : isDigit d = true) (u : Bytes) : splitSign (d :: u) = (false, d :: u) := by
  obtain ⟨-, h1, h2⟩ := of_isDigit h
  unfold splitSign
  split <;> simp_all

/-- `strtol` in terms of the sign and the digits. -/
theorem strtol_eq (s : Bytes) :
    strtol s =
      if (splitSign (s.dropWhile isSpace)).2.takeWhile isDigit = [] then (0, s)
      else (clip (lead s), (splitSign (s.dropWhile isSpace)).2.dropWhile isDigit) := by
  unfold strtol lead clip splitSign
  generalize s.dropWhile isSpace = t
  cases t with
  | nil => rfl
  | cons b u =>
    by_cases h45 : b = 45
    · subst h45; rfl
    by_cases h43 : b = 43
    · subst h43; rfl
    simp [h45, h43]

/-- **The value of `strtol`** is that of the leading numeral, clipped. -/
theorem strtol_value (s : Bytes) : (strtol s).1 = clip (lead s) := by
  rw [strtol_eq]
  split
  · rename_i h
    simp [lead, h, digits, clip]
  · rfl

/-- A numeral with a text behind it that does not go on with a digit. -/
theorem Numeral.split (h : Numeral s k) (ht : ∀ b ∈ t.head?, isDigit b = false) :
    lead (s ++ t) = k ∧ (splitSign ((s ++ t).dropWhile isSpace)).2.takeWhile isDigit ≠ [] ∧
      (splitSign ((s ++ t).dropWhile isSpace)).2.dropWhile isDigit = t := by
  obtain ⟨ws, sign, ds, rfl, hws, hne, hds, hk⟩ := h
  obtain ⟨htake, hdrop⟩ := takeWhile_append_stop (p := isDigit) hds ht
  obtain ⟨d, u, hdu, hd⟩ := head?_digits hne hds t
  have hspace : ∀ b ∈ (sign ++ (ds ++ t)).head?, isSpace b = false := by
    rw [hdu]
    rcases hk with ⟨rfl | rfl, -⟩ | ⟨rfl, -⟩
    · simp [(of_isDigit hd).1]
    · simp [isSpace]
    · simp [isSpace]
  have hskip : (ws ++ sign ++ ds ++ t).dropWhile isSpace = sign ++ (ds ++ t) := by
    rw [List.append_assoc, List.append_assoc]
    exact (takeWhile_append_stop hws hspace).2
  unfold lead
  rw [hskip]
  rcases hk with ⟨rfl | rfl, rfl⟩ | ⟨rfl, rfl⟩
  · have hsplit : splitSign ([] ++ (ds ++ t)) = (false, ds ++ t) := by
      rw [List.nil_append, hdu]
      exact splitSign_digit hd u
    rw [hsplit]
    simp only [htake, hdrop]
    exact ⟨rfl, hne, trivial⟩
  · have hsplit : splitSign ([43] ++ (ds ++ t)) = (false, ds ++ t) := rfl
    rw [hsplit]
    simp only [htake, hdrop]
    exact ⟨rfl, hne, trivial⟩
  · have hsplit : splitSign ([45] ++ (ds ++ t)) = (true, ds ++ t) := rfl
    rw [hsplit]
    simp only [htake, hdrop]
    exact ⟨rfl, hne, trivial⟩

theorem Numeral.lead_eq (h : Numeral s k) : lead s = k := by
  have := (h.split (t := []) (by simp)).1
  rwa [List.append_nil] at this

/-- Digits behind white space and a sign are a numeral. -/
theorem numeral_lead (hne : (splitSign (s.dropWhile isSpace)).2.takeWhile isDigit ≠ [])
    (hrest : (splitSign (s.dropWhile isSpace)).2.dropWhile isDigit = []) : Numeral s (lead s) := by
  have hsplit : ∃ sign, s.dropWhile isSpace = sign ++ (splitSign (s.dropWhile isSpace)).2 ∧
      ((sign = [] ∨ sign = [43]) ∧ (splitSign (s.dropWhile isSpace)).1 = false ∨
        sign = [45] ∧ (splitSign (s.dropWhile isSpace)).1 = true) := by
    unfold splitSign
    split
    · exact ⟨[45], by simp_all⟩
    · exact ⟨[43], by simp_all⟩
    · exact ⟨[], by simp⟩
  obtain ⟨sign, htext, hsign⟩ := hsplit
  have hdigits : (splitSign (s.dropWhile isSpace)).2 = (splitSign (s.dropWhile isSpace)).2.takeWhile isDigit := by
    conv_lhs => rw [← List.takeWhile_append_dropWhile (p := isDigit) (l := (splitSign (s.dropWhile isSpace)).2)]
    rw [hrest, List.append_nil]
  refine ⟨s.takeWhile isSpace, sign, _, ?_, fun b hb => List.mem_takeWhile_imp hb, hne,
    fun b hb => List.mem_takeWhile_imp hb, ?_⟩
  · rw [← hdigits, List.append_assoc, ← htext, List.takeWhile_append_dropWhile]
  · unfold lead
    rcases hsign with ⟨hs, hneg⟩ | ⟨hs, hneg⟩
    · exact Or.inl ⟨hs, by simp [hneg]⟩
    · exact Or.inr ⟨hs, by simp [hneg]⟩

/-- **Nothing is left** exactly behind a whole numeral. -/
theorem strtol_rest (hs : s ≠ []) : (strtol s).2 = [] ↔ Numeral s (lead s) := by
  rw [strtol_eq]
  constructor
  · intro h
    split at h
    · exact absurd h hs
    · rename_i hne
      exact numeral_lead hne h
  · intro h
    obtain ⟨-, hne, hrest⟩ := h.split (t := []) (by simp)
    rw [List.append_nil] at hne hrest
    rw [if_neg hne, hrest]

/-- **The port of `connect`**: a whole numeral from 1 to 65535. -/
theorem parsePort_iff : parsePort s = some n ↔ Numeral s n ∧ 1 ≤ n ∧ n ≤ 65535 := by
  unfold parsePort
  by_cases hs : s = []
  · subst hs
    have hno : ¬ Numeral [] n := by
      rintro ⟨ws, sign, ds, h, -, hne, -⟩
      simp at h
      exact hne h.2.2
    simp [hno]
  have hval := strtol_value s
  have hrest := strtol_rest hs
  rcases hst : strtol s with ⟨v, rest⟩
  rw [hst] at hval hrest
  simp only at hval hrest
  subst hval
  simp only [hs, false_or]
  constructor
  · intro h
    split at h
    · simp at h
    · rename_i hok
      simp only [not_or, not_le, not_lt, not_not] at hok
      obtain ⟨hr, hpos, hle⟩ := hok
      have hlead : lead s = (n : ℤ) := by
        simp only [Option.some.injEq] at h
        unfold clip at *
        omega
      refine ⟨hlead ▸ hrest.1 hr, ?_, ?_⟩
      all_goals
        unfold clip at *
        omega
  · rintro ⟨hnum, hlo, hhi⟩
    have hlead := hnum.lead_eq
    have hclip : clip (lead s) = n := by
      unfold clip
      omega
    rw [if_neg, hclip]
    · simp
    · rw [hclip, hrest.2 (hlead ▸ hnum)]
      simp
      omega

/-! ## Numbers in decimal digits -/

theorem digits_append (ds : Bytes) (d : UInt8) : digits (ds ++ [d]) = 10 * digits ds + (d.toNat - 48) := by
  simp [digits, List.foldl_append]

/-- The last digit comes behind the others. -/
theorem decimal_eq (n : ℕ) :
    decimal n = (if n < 10 then [] else decimal (n / 10)) ++ [(48 + n % 10).toUInt8] := by
  have hdigit : ∀ d < 10, (Nat.digitChar d).toNat = 48 + d := by decide
  unfold decimal
  rw [Nat.toDigits_eq_if (by omega)]
  split
  · rename_i h
    simp [hdigit n h, Nat.mod_eq_of_lt h]
  · simp [hdigit (n % 10) (Nat.mod_lt _ (by omega))]

theorem digits_decimal (n : ℕ) : digits (decimal n) = n := by
  induction n using Nat.strong_induction_on with
  | _ n ih =>
    have hlast : ((48 + n % 10).toUInt8).toNat = 48 + n % 10 := by
      simp only [Nat.toUInt8, UInt8.toNat_ofNat']
      omega
    rw [decimal_eq, digits_append, hlast]
    by_cases h : n < 10
    · rw [if_pos h]
      simp [digits]
      omega
    · rw [if_neg h, ih (n / 10) (by omega)]
      omega

theorem isDigit_decimal (n : ℕ) : ∀ b ∈ decimal n, isDigit b = true := by
  induction n using Nat.strong_induction_on with
  | _ n ih =>
    have hlast : isDigit (48 + n % 10).toUInt8 = true := by
      have hd : ∀ d < 10, isDigit (48 + d).toUInt8 = true := by decide
      exact hd _ (Nat.mod_lt _ (by omega))
    rw [decimal_eq]
    intro b hb
    rcases List.mem_append.1 hb with hb | hb
    · by_cases h : n < 10
      · simp [h] at hb
      · rw [if_neg h] at hb
        exact ih (n / 10) (by omega) b hb
    · rw [List.mem_singleton.1 hb]
      exact hlast

theorem decimal_ne_nil (n : ℕ) : decimal n ≠ [] := by
  rw [decimal_eq]
  simp

theorem numeral_decimal (n : ℕ) : Numeral (decimal n) n :=
  ⟨[], [], decimal n, rfl, by simp, decimal_ne_nil n, isDigit_decimal n, Or.inl ⟨Or.inl rfl, by rw [digits_decimal]⟩⟩

/-- `atoi` as a 32-bit number. -/
theorem atoi_eq (s : Bytes) : atoi s = BitVec.ofInt 32 (clip (lead s)) := by
  rw [atoi, strtol_value]

/-- **A number in decimal digits is read back.** -/
theorem atoi_decimal (h : n < 2 ^ 31) : atoi (decimal n) = BitVec.ofNat 32 n := by
  have hclip : clip n = n := by
    unfold clip
    omega
  rw [atoi_eq, (numeral_decimal n).lead_eq, hclip]
  exact BitVec.ofInt_ofNat ..

/-- The positive values of `atoi`: the leading numeral modulo `2 ^ 32`, if it is below `2 ^ 31`. -/
theorem atoi_pos : 0 < k ∧ (atoi s).toInt = k ↔ (1 ≤ k ∧ k < 2 ^ 31) ∧ clip (lead s) % 2 ^ 32 = k := by
  rw [atoi_eq, BitVec.toInt_ofInt, Int.bmod_def]
  generalize clip (lead s) = v
  split <;> omega

theorem atoi_unsigned (s : Bytes) : ((atoi s).toNat : ℤ) = clip (lead s) % 2 ^ 32 := by
  rw [atoi_eq, BitVec.toNat_ofInt]
  generalize clip (lead s) = v
  omega

/-! ## The arguments of the commands -/

/-- A word ends at the first space behind it. -/
theorem strtok_append (hs : s ≠ []) (hw : 32 ∉ s) (ht : ∀ b ∈ t.head?, b = 32) :
    strtok (s ++ t) = some (s, t.drop 1) := by
  have hns : ∀ b ∈ s, decide (b ≠ 32) = true := fun b hb => by
    simpa using fun h : b = 32 => hw (h ▸ hb)
  obtain ⟨htake, hdrop⟩ := takeWhile_append_stop (t := t) hns fun b hb => by simpa using ht b hb
  have hskip : (s ++ t).dropWhile (· = 32) = s ++ t := by
    cases s with
    | nil => exact absurd rfl hs
    | cons b u => simpa using hns b List.mem_cons_self
  have hne : s ++ t ≠ [] := fun h => hs (List.append_eq_nil_iff.1 h).1
  unfold strtok
  simp only [hskip, hne, if_false, htake, hdrop]

/-- A word at the end of the line. -/
theorem strtok_last (hs : s ≠ []) (hw : 32 ∉ s) : strtok s = some (s, []) := by
  have h := strtok_append (t := []) hs hw (by simp)
  rwa [List.append_nil] at h

/-- A word with a space behind it. -/
theorem strtok_word (hs : s ≠ []) (hw : 32 ∉ s) (t : Bytes) : strtok (s ++ 32 :: t) = some (s, t) :=
  strtok_append hs hw (by simp)

variable {rest rest' idstr msg : Bytes} {id : BitVec 32}

theorem command_terminate (h : strtok rest = some (idstr, rest')) :
    command wordTerminate rest = if (atoi idstr).toInt ≤ 0 then .invalidId else .terminate (atoi idstr) := by
  simp only [command, h]
  rfl

theorem command_send (h : strtok rest = some (idstr, msg)) :
    command wordSend rest =
      if msg = [] then .usage wordSend
      else if (atoi idstr).toInt ≤ 0 then .invalidId
      else .send (atoi idstr) msg := by
  simp only [command, h]
  rfl

/-- The test of an id. -/
theorem positive_iff {f : BitVec 32 → Command} (hf : f.Injective) (hinv : ∀ a, f a ≠ .invalidId) (a : BitVec 32) :
    (if a.toInt ≤ 0 then .invalidId else f a) = f id ↔ 0 < id.toInt ∧ a = id := by
  by_cases ha : a.toInt ≤ 0
  · rw [if_pos ha]
    refine iff_of_false (hinv id).symm ?_
    rintro ⟨hpos, rfl⟩
    omega
  · rw [if_neg ha, hf.eq_iff]
    constructor
    · rintro rfl
      exact ⟨by omega, rfl⟩
    · exact fun h => h.2

/-- `terminate` and `send` act on a positive id. -/
theorem terminate_iff (h : strtok rest = some (idstr, rest')) :
    command wordTerminate rest = .terminate id ↔ 0 < id.toInt ∧ atoi idstr = id := by
  rw [command_terminate h]
  exact positive_iff (fun _ _ => Command.terminate.inj) (by simp) _

theorem send_iff (h : strtok rest = some (idstr, msg)) (hm : msg ≠ []) :
    command wordSend rest = .send id msg ↔ 0 < id.toInt ∧ atoi idstr = id := by
  rw [command_send h, if_neg hm]
  exact positive_iff (f := (.send · msg)) (fun _ _ h => (Command.send.inj h).1) (by simp) _

/-- **What the four places act on.** -/
theorem acts_iff {s : CStr} (h : site.Takes s) :
    site.Acts s k ↔ site.Admits k ∧ clip (lead s.bytes) % 2 ^ 32 = k := by
  cases site with
  | terminate =>
    show _ ↔ (1 ≤ k ∧ k < 2 ^ 31) ∧ _
    rw [← atoi_pos]
    constructor
    · rintro ⟨rest, rest', id, htok, hc, rfl⟩
      obtain ⟨hpos, hid⟩ := (terminate_iff htok).1 hc
      exact ⟨hpos, by rw [hid]⟩
    · rintro ⟨hpos, rfl⟩
      have htok := strtok_last h.1 h.2
      exact ⟨s.bytes, [], _, htok, (terminate_iff htok).2 ⟨hpos, rfl⟩, rfl⟩
  | send =>
    show _ ↔ (1 ≤ k ∧ k < 2 ^ 31) ∧ _
    rw [← atoi_pos]
    constructor
    · rintro ⟨rest, msg, id, htok, hc, rfl⟩
      have hm : msg ≠ [] := by
        rintro rfl
        rw [command_send htok, if_pos rfl] at hc
        simp at hc
      obtain ⟨hpos, hid⟩ := (send_iff htok hm).1 hc
      exact ⟨hpos, by rw [hid]⟩
    · rintro ⟨hpos, rfl⟩
      have htok := strtok_word h.1 h.2 [120]
      exact ⟨_, [120], _, htok, (send_iff htok (by simp)).2 ⟨hpos, rfl⟩, rfl⟩
  | listen =>
    have hpos := atoi_pos (s := s.bytes) (k := k)
    show listenPort [s] = some k ↔ (1 ≤ k ∧ k ≤ 65535) ∧ _
    simp only [listenPort]
    by_cases hbad : (atoi s.bytes).toInt ≤ 0 ∨ 65535 < (atoi s.bytes).toInt
    · rw [if_pos hbad]
      simp only [reduceCtorEq, false_iff]
      omega
    · rw [if_neg hbad, Option.some.injEq]
      omega
  | priority =>
    have hval := atoi_unsigned s.bytes
    show (∃ task prio, Tasks.dispatcherArgs [s, task] = some (prio, task) ∧ (prio : ℤ) = k) ↔
      (0 ≤ k ∧ k ≤ 31) ∧ _
    simp only [Tasks.dispatcherArgs]
    rw [← hval]
    constructor
    · rintro ⟨task, prio, hargs, rfl⟩
      split at hargs
      · simp at hargs
      · simp only [Option.some.injEq, Prod.mk.injEq, and_true] at hargs
        omega
    · rintro ⟨hk, rfl⟩
      refine ⟨s, _, if_neg ?_, rfl⟩
      omega

/-- **Numbers mean what they say, exactly when**: at each of the four places a text is only
ever taken for the number it denotes if and only if it is a whole numeral whose value is
admitted there, or its leading numeral is modulo `2 ^ 32` none of the admitted numbers. -/
theorem numbers_iff {s : CStr} (h : site.Takes s) :
    (∀ k, site.Acts s k → Numeral s.bytes k) ↔
      Numeral s.bytes (lead s.bytes) ∧ site.Admits (lead s.bytes) ∨
        ¬ site.Admits (clip (lead s.bytes) % 2 ^ 32) := by
  constructor
  · intro hacts
    by_cases hadm : site.Admits (clip (lead s.bytes) % 2 ^ 32)
    · left
      have hnum := hacts _ ((acts_iff h).2 ⟨hadm, rfl⟩)
      rw [← hnum.lead_eq] at hadm hnum
      exact ⟨hnum, hadm⟩
    · exact Or.inr hadm
  · intro hor k hk
    obtain ⟨hadm, hmod⟩ := (acts_iff h).1 hk
    rcases hor with ⟨hnum, hlead⟩ | hno
    · -- no admitted number is changed by the limits or the wrap
      have hsmall : 0 ≤ lead s.bytes ∧ lead s.bytes < 2 ^ 31 := by
        cases site <;> simp only [Site.Admits] at hlead <;> omega
      have hk : k = lead s.bytes := by
        rw [← hmod]
        unfold clip
        omega
      rwa [hk]
    · rw [hmod] at hno
      exact absurd hadm hno

/-- The port `8080`. -/
def port8080 : CStr := ⟨[56, 48, 56, 48], by decide⟩

theorem numbers_iff_port8080 :
    (∀ k, Site.listen.Acts port8080 k → Numeral port8080.bytes k) ↔
      Numeral port8080.bytes (lead port8080.bytes) ∧ Site.listen.Admits (lead port8080.bytes) ∨
        ¬ Site.listen.Admits (clip (lead port8080.bytes) % 2 ^ 32) :=
  numbers_iff trivial

/-- `12abc`. -/
def trailing : CStr := ⟨[49, 50, 97, 98, 99], by decide⟩

/-- `4294967297`, that is `2 ^ 32 + 1`. -/
def wrapped : CStr := ⟨[52, 50, 57, 52, 57, 54, 55, 50, 57, 55], by decide⟩

/-- `abc`. -/
def noDigits : CStr := ⟨[97, 98, 99], by decide⟩

/-- **Texts taken for other numbers**: `12abc` terminates connection 12, `4294967297` sends
on connection 1, `abc` is priority 0. -/
theorem numbers_mistaken :
    (Site.terminate.Acts trailing 12 ∧ Site.send.Acts wrapped 1 ∧ Site.priority.Acts noDigits 0) ∧
      ¬ ∀ (site : Site) (s : CStr) (k : ℤ), site.Takes s → site.Acts s k → Numeral s.bytes k := by
  have htrail : Site.terminate.Acts trailing 12 := (acts_iff (by decide)).2 (by decide)
  refine ⟨⟨htrail, (acts_iff (by decide)).2 (by decide), (acts_iff (by decide)).2 (by decide)⟩, ?_⟩
  intro h
  have hnum := h .terminate trailing 12 (by decide) htrail
  rw [← hnum.lead_eq] at hnum
  exact absurd ((strtol_rest (by decide)).2 hnum) (by decide)

end Chat
