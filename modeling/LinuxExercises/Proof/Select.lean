import LinuxExercises.Spec.Select

/-!
# Signals lost by `ex4_select.c`

* `Good`: what the flags can be at each place, while every signal is delivered where the loop
  still sees it.
* `Exits`, `Waits`: what the process comes to without further signals.
* `no_lost_signal`: in the runs in which every signal is seen none is lost, and any other
  signal is lost if nothing else happens.
* `read_loses_term`: a `SIGTERM` that arrives while a line is read is lost.
-/

namespace Select

open Sync

variable {s s' t : State} {x : Signal} {l : Label}

/-! ## Runs in which every signal is seen -/

/-- **The flags at each place** of a run whose signals are all seen. -/
def State.Good (s : State) : Prop :=
  match s.pc with
  | .signalInt | .signalTerm | .greet | .fdZero | .fdSet | .select | .blocked | .returned .ready | .isSet | .fgets
  | .echo => s.sigterm = false ∧ s.sigint = false
  | .returned .error | .errno .error | .perror => s.sigterm = false
  | .errno .ready => False
  | .printInt | .ifTerm => s.sigterm = false → s.sigint = false
  | .ended e => s.sigterm = true → e = .exited
  | _ => True

/-- The instructions keep the flags good. -/
theorem good_mainStep (h : s.Good) (hst : s.mainStep = some s') : s'.Good := by
  obtain ⟨pc, i, b⟩ := s
  cases pc with
  | returned r =>
    cases r with
    | ready => cases hst; exact h
    | eintr => cases hst; trivial
    | error => cases hst; exact h
  | errno r =>
    cases r with
    | ready => exact h.elim
    | eintr => cases hst; trivial
    | error => cases hst; exact h
  | perror =>
    cases hst
    intro hb
    have hb' : b = false := h
    rw [show b = true from hb] at hb'; cases hb'
  | ifInt =>
    -- behind the test the flag is clear, or is about to be cleared
    cases i with
    | true => cases hst; trivial
    | false => cases hst; exact fun _ => rfl
  | clearInt => cases hst; exact fun _ => rfl
  | ifTerm =>
    cases b with
    | true => cases hst; trivial
    | false => cases hst; exact ⟨rfl, h rfl⟩
  | printTerm => cases hst; trivial
  | leave => cases hst; exact fun _ => rfl
  | select => cases hst
  | blocked => cases hst
  | fgets => cases hst
  | ended e => cases hst
  | _ => cases hst; exact h

/-- **What a signal does**: it ends the process, interrupts `select`, or sets its flag. -/
theorem deliver_cases (hst : s.deliver x = some s') :
    (s' = { s with pc := .ended .killed } ∧ (s.pc = .signalInt ∨ s.pc = .signalTerm ∧ x = .term)) ∨
    (s' = { s.handleSignal x with pc := .returned .eintr } ∧ s.pc = .blocked) ∨
    (s' = s.handleSignal x ∧ s.pc ≠ .signalInt ∧ (s.pc = .signalTerm → x ≠ .term) ∧ s.pc ≠ .blocked ∧
      ∀ e, s.pc ≠ .ended e) := by
  unfold State.deliver at hst
  split at hst
  · cases hst
  · exact .inl ⟨(Option.some.inj hst).symm, .inl (by assumption)⟩
  · exact .inl ⟨(Option.some.inj hst).symm, .inr ⟨by assumption, rfl⟩⟩
  · exact .inr (.inl ⟨(Option.some.inj hst).symm, by assumption⟩)
  · rename_i h1 h2 h3 h4
    exact .inr (.inr ⟨(Option.some.inj hst).symm, h2, fun hpc hx => h4 hpc hx, h3, h1⟩)

/-- A signal that is seen keeps the flags good. -/
theorem good_deliver (h : s.Good) (hx : Seen s (.signal x)) (hst : s.deliver x = some s') : s'.Good := by
  obtain ⟨pc, i, b⟩ := s
  rcases deliver_cases hst with ⟨rfl, hpc⟩ | ⟨rfl, -⟩ | ⟨rfl, hint, hterm, hpc, hend⟩
  · -- no flag is set before the handlers are installed
    have hb : b = false := by
      rcases hpc with hpc | ⟨hpc, -⟩ <;> cases hpc <;> exact h.1
    intro hb'
    rw [show b = true from hb'] at hb; cases hb
  · cases x <;> trivial
  · cases pc with
    | signalInt => exact absurd rfl hint
    | signalTerm => exact absurd hx (hterm rfl)
    | blocked => exact absurd rfl hpc
    | ended e => exact absurd rfl (hend e)
    | returned r =>
      cases r with
      | ready => exact hx.elim
      | eintr => cases x <;> trivial
      | error => obtain rfl : x = .int := hx; exact h
    | errno r =>
      cases r with
      | ready => exact h.elim
      | eintr => cases x <;> trivial
      | error => obtain rfl : x = .int := hx; exact h
    | perror => obtain rfl : x = .int := hx; exact h
    | printInt | ifTerm =>
      -- a new `SIGINT` is not looked at, but `g_sigterm` is
      rcases hx with rfl | hb
      · exact nofun
      · obtain rfl : b = true := hb
        cases x <;> exact nofun
    | ifInt | clearInt | printTerm | leave => cases x <;> trivial
    | _ => exact absurd hx (by simp [Seen])

/-- Every step that meets the condition keeps the flags good. -/
theorem good_step (h : s.Good) (hc : Seen s l) (hst : s.step l = some s') : s'.Good := by
  obtain ⟨pc, i, b⟩ := s
  cases l with
  | go => exact good_mainStep h hst
  | signal x => exact good_deliver h hc hst
  | select r =>
    cases r with
    | none =>
      simp only [State.step] at hst
      split at hst
      · rename_i hpc
        cases hpc; cases hst; exact h
      · cases hst
    | some r =>
      simp only [State.step] at hst
      split at hst
      · rename_i hpc
        obtain ⟨hpc, hr⟩ := hpc
        cases hpc; cases hst
        cases r with
        | ready => exact h
        | eintr => trivial
        | error => exact h.1
      · cases hst
  | readable =>
    simp only [State.step] at hst
    split at hst
    · rename_i hpc
      cases hpc; cases hst; exact h
    · cases hst
  | fgets line =>
    simp only [State.step] at hst
    split at hst
    · rename_i hpc
      cases hpc; cases hst
      cases line <;> exact h
    · cases hst

theorem good_init : State.init.Good := ⟨rfl, rfl⟩

theorem good_reach (h : ex4Select.Reach Seen s) : s.Good :=
  h.inv (I := State.Good) good_init fun _ _ _ _ hg hc hst => good_step hg hc hst

/-! ## What the process comes to on its own -/

/-- Without any event the process ends by the exit branch. -/
def State.Exits (s : State) : Prop := ∃ t, ex4Select.Leads (· = .go) s t ∧ t.pc = .ended .exited

theorem State.Exits.go (h : t.Exits) (hst : s.mainStep = some t) : s.Exits := by
  obtain ⟨u, hu, hpc⟩ := h
  exact ⟨u, hu.head rfl hst, hpc⟩

theorem exits_ended (i b : Bool) : State.Exits ⟨.ended .exited, i, b⟩ := ⟨_, .refl _ _, rfl⟩

theorem exits_leave (i b : Bool) : State.Exits ⟨.leave, i, b⟩ := (exits_ended i b).go rfl

theorem exits_printTerm (i b : Bool) : State.Exits ⟨.printTerm, i, b⟩ := (exits_leave i b).go rfl

theorem exits_ifTerm (i : Bool) : State.Exits ⟨.ifTerm, i, true⟩ := (exits_printTerm i true).go rfl

theorem exits_printInt (i : Bool) : State.Exits ⟨.printInt, i, true⟩ := (exits_ifTerm i).go rfl

theorem exits_clearInt (i : Bool) : State.Exits ⟨.clearInt, i, true⟩ := (exits_printInt false).go rfl

theorem exits_ifInt (i : Bool) : State.Exits ⟨.ifInt, i, true⟩ := by
  cases i with
  | false => exact (exits_ifTerm false).go rfl
  | true => exact (exits_clearInt true).go rfl

/-- **Good flags are safe**: where `g_sigterm` can be set the exit branch is ahead. -/
theorem State.Good.safe (h : s.Good) : s.Safe := by
  obtain ⟨pc, i, b⟩ := s
  refine ⟨fun hpc => ?_, fun hb => ?_⟩
  · cases hpc; exact h
  · obtain rfl : b = true := hb
    cases pc with
    | returned r =>
      cases r with
      | ready => cases h.1
      | eintr => exact ((exits_ifInt i).go (s := ⟨.errno .eintr, i, true⟩) rfl).go rfl
      | error => cases h
    | errno r =>
      cases r with
      | ready => exact h.elim
      | eintr => exact (exits_ifInt i).go rfl
      | error => cases h
    | perror => cases h
    | ifInt => exact exits_ifInt i
    | clearInt => exact exits_clearInt i
    | printInt => exact exits_printInt i
    | ifTerm => exact exits_ifTerm i
    | printTerm => exact exits_printTerm i true
    | leave => exact exits_leave i true
    | ended e =>
      obtain rfl : e = .exited := h rfl
      exact exits_ended i true
    | _ => cases h.1

/-! ## Signals that are not seen -/

/-- Without further signals the process may come to wait, with the same flags. -/
def State.Waits (s : State) : Prop :=
  ∃ t, ex4Select.Leads Label.Quiet s t ∧ t.pc = .blocked ∧ t.sigint = s.sigint ∧ t.sigterm = s.sigterm

theorem State.Waits.step (h : t.Waits) (hl : l.Quiet) (hst : s.step l = some t)
    (hf : t.sigint = s.sigint ∧ t.sigterm = s.sigterm) : s.Waits := by
  obtain ⟨u, hu, hpc, hi, hb⟩ := h
  exact ⟨u, hu.head hl hst, hpc, hi.trans hf.1, hb.trans hf.2⟩

/-- An instruction that leaves the flags alone. -/
theorem State.Waits.go {pc : Pc} (h : State.Waits { s with pc := pc }) (hst : s.mainStep = some { s with pc := pc }) :
    s.Waits := h.step (l := .go) nofun hst ⟨rfl, rfl⟩

theorem waits_blocked (i b : Bool) : State.Waits ⟨.blocked, i, b⟩ := ⟨_, .refl _ _, rfl, rfl, rfl⟩

theorem waits_select (i b : Bool) : State.Waits ⟨.select, i, b⟩ :=
  (waits_blocked i b).step (l := .select none) nofun rfl ⟨rfl, rfl⟩

theorem waits_fdSet (i b : Bool) : State.Waits ⟨.fdSet, i, b⟩ := (waits_select i b).go rfl

theorem waits_fdZero (i b : Bool) : State.Waits ⟨.fdZero, i, b⟩ := (waits_fdSet i b).go rfl

theorem waits_greet (i b : Bool) : State.Waits ⟨.greet, i, b⟩ := (waits_fdZero i b).go rfl

theorem waits_signalTerm (i b : Bool) : State.Waits ⟨.signalTerm, i, b⟩ := (waits_greet i b).go rfl

theorem waits_echo (i b : Bool) : State.Waits ⟨.echo, i, b⟩ := (waits_fdZero i b).go rfl

theorem waits_fgets (i b : Bool) : State.Waits ⟨.fgets, i, b⟩ :=
  (waits_echo i b).step (l := .fgets true) nofun rfl ⟨rfl, rfl⟩

theorem waits_isSet (i b : Bool) : State.Waits ⟨.isSet, i, b⟩ := (waits_fgets i b).go rfl

theorem waits_ready (i b : Bool) : State.Waits ⟨.returned .ready, i, b⟩ := (waits_isSet i b).go rfl

theorem waits_ifTerm (i : Bool) : State.Waits ⟨.ifTerm, i, false⟩ := (waits_fdZero i false).go rfl

theorem waits_printInt (i : Bool) : State.Waits ⟨.printInt, i, false⟩ := (waits_ifTerm i).go rfl

/-- A process that comes to wait with a flag set has lost a signal. -/
theorem State.Waits.lost (h : s.Waits) (hf : s.sigint = true ∨ s.sigterm = true) :
    ∃ t, ex4Select.Leads Label.Quiet s t ∧ ¬ t.Safe := by
  obtain ⟨t, ht, hpc, hi, hb⟩ := h
  refine ⟨t, ht, fun hsafe => ?_⟩
  obtain ⟨hb', hi'⟩ := hsafe.1 hpc
  rw [hi] at hi'
  rw [hb] at hb'
  rcases hf with hf | hf
  · rw [hf] at hi'; cases hi'
  · rw [hf] at hb'; cases hb'

/-- A process that has failed does not take the exit branch any more. -/
theorem failed_unsafe (i : Bool) : ¬ State.Safe ⟨.ended .failed, i, true⟩ := by
  intro hsafe
  obtain ⟨t, ⟨ls, hls, hrun⟩, hpc⟩ := hsafe.2 rfl
  cases ls with
  | nil =>
    obtain rfl := Option.some.inj hrun
    cases hpc
  | cons l ls =>
    obtain rfl := hls l (List.mem_cons_self ..)
    cases hrun

/-- After an error of `select` a `SIGTERM` does not lead to the exit branch. -/
theorem perror_lost (i : Bool) : ∃ t, ex4Select.Leads Label.Quiet ⟨.perror, i, true⟩ t ∧ ¬ t.Safe :=
  ⟨_, .head (l := .go) nofun rfl (.refl _ _), failed_unsafe i⟩

theorem errno_lost (i : Bool) : ∃ t, ex4Select.Leads Label.Quiet ⟨.errno .error, i, true⟩ t ∧ ¬ t.Safe := by
  obtain ⟨t, ht, hlost⟩ := perror_lost i
  exact ⟨t, ht.head (l := .go) nofun rfl, hlost⟩

theorem error_lost (i : Bool) : ∃ t, ex4Select.Leads Label.Quiet ⟨.returned .error, i, true⟩ t ∧ ¬ t.Safe := by
  obtain ⟨t, ht, hlost⟩ := errno_lost i
  exact ⟨t, ht.head (l := .go) nofun rfl, hlost⟩

theorem handleSignal_flag (s : State) (x : Signal) :
    (s.handleSignal x).sigint = true ∨ (s.handleSignal x).sigterm = true := by
  cases x with
  | int => exact .inl rfl
  | term => exact .inr rfl

/-- **A signal that is not seen is lost**, if nothing else happens. -/
theorem unseen_lost (hx : ¬ Seen s (.signal x)) (hst : s.deliver x = some s') :
    ∃ t, ex4Select.Leads Label.Quiet s' t ∧ ¬ t.Safe := by
  obtain ⟨pc, i, b⟩ := s
  have hflag := handleSignal_flag ⟨pc, i, b⟩ x
  rcases deliver_cases hst with ⟨rfl, hpc⟩ | ⟨rfl, hpc⟩ | ⟨rfl, -⟩
  · rcases hpc with hpc | ⟨hpc, rfl⟩ <;> cases hpc
    · exact absurd trivial hx
    · exact absurd rfl hx
  · cases hpc
    exact absurd trivial hx
  · cases pc with
    -- on the way to `select` nobody looks at the flags
    | signalTerm => cases x <;> exact (waits_signalTerm _ _).lost hflag
    | greet => cases x <;> exact (waits_greet _ _).lost hflag
    | fdZero => cases x <;> exact (waits_fdZero _ _).lost hflag
    | fdSet => cases x <;> exact (waits_fdSet _ _).lost hflag
    | select => cases x <;> exact (waits_select _ _).lost hflag
    | isSet => cases x <;> exact (waits_isSet _ _).lost hflag
    | fgets => cases x <;> exact (waits_fgets _ _).lost hflag
    | echo => cases x <;> exact (waits_echo _ _).lost hflag
    | returned r =>
      cases r with
      | ready => cases x <;> exact (waits_ready _ _).lost hflag
      | eintr => exact absurd trivial hx
      | error =>
        cases x with
        | int => exact absurd rfl hx
        | term => exact error_lost i
    | errno r =>
      cases r with
      | error =>
        cases x with
        | int => exact absurd rfl hx
        | term => exact errno_lost i
      | _ => exact absurd trivial hx
    | perror =>
      cases x with
      | int => exact absurd rfl hx
      | term => exact perror_lost i
    -- a `SIGINT` behind its own test, with no `SIGTERM` that would end the loop
    | printInt =>
      obtain ⟨hterm, hb⟩ := not_or.1 hx
      obtain rfl : b = false := by simpa using hb
      cases x with
      | int => exact (waits_printInt true).lost (.inl rfl)
      | term => exact absurd rfl hterm
    | ifTerm =>
      obtain ⟨hterm, hb⟩ := not_or.1 hx
      obtain rfl : b = false := by simpa using hb
      cases x with
      | int => exact (waits_ifTerm true).lost (.inl rfl)
      | term => exact absurd rfl hterm
    | _ => exact absurd trivial hx

/-- **Signals of `ex4_select`**: in every run in which each signal is delivered where the loop
still looks at its flag, the process never waits with a flag set, and after a `SIGTERM` it ends
by the exit branch on its own; any other signal is lost if no further one arrives. -/
theorem no_lost_signal (h : ex4Select.Reach Seen s) :
    s.Safe ∧
    ∀ x s', ¬ Seen s (.signal x) → ex4Select.step s (.signal x) = some s' →
      ∃ t, ex4Select.Leads Label.Quiet s' t ∧ ¬ t.Safe :=
  ⟨(good_reach h).safe, fun _ _ hx hst => unseen_lost hx hst⟩

/-- A line is read; then both signals interrupt `select`, `SIGTERM` while `SIGINT` is dealt with. -/
def interrupted : List Label :=
  .replicate 5 .go ++ [.select (some .ready), .go, .go, .fgets true] ++ .replicate 3 .go ++
    [.select none, .signal .int] ++ .replicate 4 .go ++ [.signal .term]

theorem no_lost_signal_interrupted :
    (ex4Select.after Seen interrupted).pc = .printInt ∧
    ∃ t, ex4Select.Leads (· = .go) (ex4Select.after Seen interrupted) t ∧ t.pc = .ended .exited :=
  ⟨by decide +kernel, (no_lost_signal (Sync.Trans.reach_after interrupted)).1.2 (by decide +kernel)⟩

/-- A `SIGTERM` while a line is read. -/
def readTerm : List Label :=
  .replicate 5 .go ++ [.select (some .ready), .go, .go, .signal .term, .fgets true] ++ .replicate 3 .go ++
    [.select none]

/-- **The process waits, and `SIGTERM` has been forgotten.** -/
theorem read_loses_term : ¬ ∀ s, ex4Select.Reachable s → s.Safe := by
  intro h
  have hreach := Sync.Trans.reach_after (T := ex4Select) (C := Sync.Trans.Free) readTerm
  have hfalse := ((h _ hreach).1 (by decide +kernel)).1
  have htrue : (ex4Select.after Sync.Trans.Free readTerm).sigterm = true := by decide +kernel
  rw [htrue] at hfalse; cases hfalse

end Select
