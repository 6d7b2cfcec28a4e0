import LinuxExercises.Spec.SelfConnect
import LinuxExercises.Proof.Sim

/-!
# Connections of the chat to itself

`cmd_connect` compares the address text with `local_ip` and `127.0.0.1`; the listener accepts
on every local address.

* `target_own`, `refuses_iff`: what the comparison decides.
* `Apart`: the invariant of a run whose commands name the own listener by a compared text.
* `self_connect_iff`: **a command for the own listener is refused exactly if its text is one
  of the two, and in the runs with such commands only the registry never holds both ends.**
* `self_connects`: `connect 127.0.0.2` with the own port gets through, and both ends are listed.
-/

namespace Chat

variable {E : Env} {H : Host} {m : Mem} {op : Op} {ch : Choice} {d : Dest} {ip portstr : Bytes} {x y : State × Wires}
  {l : Label × Option Sock}

/-! ## The check -/

/-- **The check on the own listener** compares two texts. -/
theorem target_own (h : H.Own ip portstr) :
    connectTarget H.env ip portstr =
      if ip = H.localIp ∨ ip = loopback then none else some ⟨ip, H.listenPort⟩ := by
  obtain ⟨hne, ⟨a, ha, -⟩, hport⟩ := h
  have hvalid : isValidIpv4 H.env ip = true := by
    unfold isValidIpv4
    rw [show H.env.inetPton ip = some a from ha]
    simpa using hne
  unfold connectTarget
  rw [if_pos hvalid, hport]
  by_cases hc : ip = H.localIp ∨ ip = loopback
  · rw [if_pos hc]
    exact if_pos ⟨hc, rfl⟩
  · rw [if_neg hc]
    exact if_neg fun h => hc h.1

/-- A target that reaches the own listener comes from texts for it, none of them compared. -/
theorem reaches_target (ht : connectTarget H.env ip portstr = some d) (hr : H.reaches d) : ¬ H.Compared ip portstr := by
  intro hc
  have hd : d.ip = ip ∧ parsePort portstr = some d.port ∧ isValidIpv4 H.env ip = true := by
    unfold connectTarget at ht
    split at ht
    · rename_i hv
      split at ht
      · rename_i port hp
        split at ht
        · cases ht
        · obtain rfl := Option.some.inj ht
          exact ⟨rfl, hp, hv⟩
      · cases ht
    · cases ht
  obtain ⟨hip, hport, hvalid⟩ := hd
  simp only [Host.reaches, Bool.and_eq_true, decide_eq_true_eq, Option.any_eq_true, hip] at hr
  obtain ⟨hlisten, a, ha, hl⟩ := hr
  have hne : ip ≠ [] := by
    simp only [isValidIpv4, decide_eq_true_eq] at hvalid
    exact hvalid.1
  have hown : H.Own ip portstr := ⟨hne, ⟨a, ha, hl⟩, hlisten ▸ hport⟩
  rw [target_own hown, if_pos (hc hown)] at ht
  cases ht

/-- A refused command stays refused. -/
theorem refuses_none (ht : connectTarget E ip portstr = none) : Refuses E ip portstr := by
  intro m s hs d fd c hpc
  have hleft : s.pc = .left false := by
    refine hs.inv (I := fun s => s.pc = .left false) ?_ ?_
    · simp only [settingUp, Attempt.start, ht]
    · intro s lab s' _ hi _ hst
      cases lab with
      | go ch =>
        obtain ⟨⟨op, pc⟩, hstep, -⟩ := Option.map_eq_some_iff.1 hst
        rw [hi] at hstep
        cases hstep
      | disturb a =>
        obtain ⟨-, he⟩ := Option.ite_none_right_eq_some.1 hst
        obtain rfl := Option.some.inj he
        exact hi
  rw [hleft] at hpc
  cases hpc

/-- **An admitted command gets to `connect()`**, on the empty registry. -/
theorem dials_some (ht : connectTarget E ip portstr = some d) : ¬ Refuses E ip portstr := by
  intro h
  let s₀ : SettingUp := ⟨.init, .connect (.lock d), none, [], [], []⟩
  have hstart : (settingUp E (.connect ip portstr) .init).init = s₀ := by
    simp only [settingUp, Attempt.start, ht]
    rfl
  let s₁ := s₀.did .lock (.connect (.scan d))
  let s₂ := s₁.did .skip (.connect (.unlock d))
  let s₃ := s₂.did .unlock (.connect (.socket d))
  let s₄ := s₃.did (.openConn 4) (.connect (.connect d 4 0))
  have h₀ : (settingUp E (.connect ip portstr) .init).Reachable s₀ := by
    rw [← hstart]
    exact .init
  have h₁ := h₀.step (l := .go .ok) trivial (show _ = some s₁ from rfl)
  have h₂ := h₁.step (l := .go .ok) trivial (show _ = some s₂ from rfl)
  have h₃ := h₂.step (l := .go .ok) trivial (show _ = some s₃ from rfl)
  have h₄ := h₃.step (l := .go (.fd 4)) trivial (show _ = some s₄ from rfl)
  exact h .init s₄ h₄ d 4 0 rfl

theorem refuses_iff (H : Host) (ip portstr : Bytes) :
    (H.Own ip portstr → Refuses H.env ip portstr) ↔ H.Compared ip portstr := by
  refine forall_congr' fun hown => ?_
  have ht := target_own hown
  by_cases hc : ip = H.localIp ∨ ip = loopback
  · rw [if_pos hc] at ht
    exact iff_of_true (refuses_none ht) hc
  · rw [if_neg hc] at ht
    exact iff_of_false (dials_some ht) hc

/-! ## Runs -/

/-- The destination that the main thread is about to call, or has checked. -/
def MainPc.dest : MainPc → Option Dest
  | .connect (.lock d) | .connect (.scan d) | .connect (.unlock d) | .connect (.socket d) | .connect (.connect d _ _) =>
    some d
  | _ => none

/-- The command line that the main thread has read and not dispatched. -/
def MainPc.line : MainPc → Option Cmd
  | .reap _ after => after
  | _ => none

/-- `cmd_connect` keeps its destination. -/
theorem connect_dest {c c' : ConnectPc} (h : cmdConnect E m ch c = some (op, .goto c'))
    (hd : MainPc.dest (.connect c') = some d) : MainPc.dest (.connect c) = some d := by
  cases c with
  | lock t =>
    obtain ⟨-, -, hf⟩ := lock_eq h
    cases hf
    exact hd
  | scan t =>
    simp only [cmdConnect] at h
    split at h
    · cases h
      cases hd
    · cases h
      exact hd
  | unlock t => cases h; exact hd
  | socket t =>
    cases ch with
    | fd n =>
      simp only [cmdConnect] at h
      split at h
      · cases h
        exact hd
      · cases h
    | _ => cases h
  | connect t fd c =>
    simp only [cmdConnect] at h
    split at h <;> cases h <;> cases hd
  | setup q =>
    obtain ⟨⟨op', f⟩, -, he⟩ := Option.map_eq_some_iff.1 h
    cases f <;> cases he
    cases hd
  | unlockDup p => cases h; cases hd
  | logDup p => cases h
  | abort fd c => cases h

/-- **A destination** is that of a dispatched line. -/
theorem main_dest {b : Bool} {c c' : MainPc} (h : mainStep E m b ch c = some (op, c')) (hd : c'.dest = some d) :
    c.dest = some d ∨ ∃ ip portstr, c.line = some (.connect ip portstr) ∧ connectTarget E ip portstr = some d := by
  cases c' with
  | connect q' =>
    rcases main_connect h with ⟨q, rfl, hq⟩ | ⟨x, ip, portstr, t, rfl, ht, rfl⟩
    · exact .inl (connect_dest hq hd)
    · cases hd
      exact .inr ⟨ip, portstr, rfl, ht⟩
  | _ => cases hd

/-- A command starts with no line in hand. -/
theorem dispatch_line (E : Env) (c : Option Cmd) : ((c.map (dispatch E)).getD .loop).line = none := by
  cases c with
  | none => rfl
  | some c =>
    simp only [Option.map_some, Option.getD_some]
    cases c with
    | connect ip port => simp only [dispatch]; split <;> rfl
    | send id msg => simp only [dispatch]; split <;> rfl
    | _ => rfl

/-- A line is the one that was read. -/
theorem main_line {b : Bool} {c c' : MainPc} {cmd : Cmd} (h : mainStep E m b ch c = some (op, c'))
    (hl : c'.line = some cmd) : c.line = some cmd ∨ ch = .line cmd := by
  cases c with
  | loop =>
    cases ch with
    | line cmd' =>
      cases h
      exact .inr (congrArg _ (Option.some.inj hl))
    | eof => cases h; cases hl
    | _ => cases h
  | reap x after =>
    obtain ⟨⟨op', f⟩, -, he⟩ := Option.map_eq_some_iff.1 h
    cases he
    cases f with
    | goto x' => exact .inl hl
    | ret => cases (dispatch_line E after).symm.trans hl
    | killed => cases hl
  | connect q =>
    obtain ⟨⟨op', f⟩, -, he⟩ := Option.map_eq_some_iff.1 h
    cases f <;> cases he <;> cases hl
  | list x =>
    obtain ⟨⟨op', f⟩, -, he⟩ := Option.map_eq_some_iff.1 h
    cases f <;> cases he <;> cases hl
  | terminate id x =>
    obtain ⟨⟨op', f⟩, -, he⟩ := Option.map_eq_some_iff.1 h
    cases f <;> cases he <;> cases hl
  | send id text x =>
    obtain ⟨⟨op', f⟩, -, he⟩ := Option.map_eq_some_iff.1 h
    cases f <;> cases he <;> cases hl
  | exit x =>
    obtain ⟨⟨op', f⟩, -, he⟩ := Option.map_eq_some_iff.1 h
    cases f <;> cases he <;> cases hl
  | ended => cases h

/-- **The invariant**: no destination of the run reaches the own listener. -/
structure Apart (H : Host) (x : State × Wires) : Prop where
  dest : ∀ d, x.1.main.dest = some d → H.reaches d = false
  line : ∀ ip portstr, x.1.main.line = some (.connect ip portstr) → H.Compared ip portstr
  dialled : ∀ z ∈ x.2.dialled, H.reaches z.2 = false
  ends : x.2.ends = []

/-- What the step leaves of the main thread's destination and line. -/
theorem apart_main (hI : Apart H x) {s : State} {l : Label} (hc : H.ComparedAt l)
    (hs : (chat H.env).step x.1 l = some s) :
    (∀ d, s.main.dest = some d → H.reaches d = false) ∧
      ∀ ip portstr, s.main.line = some (.connect ip portstr) → H.Compared ip portstr := by
  rcases (step_threads hs).2 with ⟨ch, op, c, rfl, hf, rfl⟩ | ⟨ch, op, r, rfl, -, rfl⟩ |
    ⟨q, ch, z, op, f, rfl, -, -, rfl⟩ | ⟨c, e, rfl, -, rfl⟩
  · refine ⟨fun d hd => ?_, fun ip portstr hl => ?_⟩
    · -- a new destination is that of the line in hand
      rcases main_dest hf hd with hd | ⟨ip, portstr, hl, ht⟩
      · exact hI.dest d hd
      · by_contra hr
        exact reaches_target ht (by simpa using hr) (hI.line ip portstr hl)
    · rcases main_line hf hl with hl | rfl
      · exact hI.line ip portstr hl
      · exact hc ip portstr rfl
  · exact ⟨hI.dest, hI.line⟩
  · exact ⟨hI.dest, hI.line⟩
  · exact ⟨hI.dest, hI.line⟩

theorem apart_step (hI : Apart H x) (hc : H.ComparedAt l.1) (hs : (wired H).step x l = some y) : Apart H y := by
  obtain ⟨s, hstep, hs⟩ := Option.bind_eq_some_iff.1 hs
  obtain ⟨hdest, hline⟩ := apart_main hI hc hstep
  cases hl : l.2 with
  | none =>
    rw [hl] at hs
    cases hs
    refine ⟨hdest, hline, fun z hz => ?_, hI.ends⟩
    simp only [noteDial] at hz
    split at hz
    · rename_i d n hmain _
      rcases List.mem_cons.1 hz with rfl | hz
      · exact hI.dest d (by rw [hmain]; rfl)
      · exact hI.dialled z hz
    · exact hI.dialled z hz
  | some c =>
    rw [hl] at hs
    obtain ⟨ha, -⟩ := Option.ite_none_right_eq_some.1 hs
    -- the socket would have been dialled for the own listener
    exfalso
    unfold Host.accepts at ha
    split at ha
    · obtain ⟨z, hz, hr⟩ := List.any_eq_true.1 (Bool.and_eq_true_iff.1 ha).1
      rw [decide_eq_true_eq, hI.dialled z hz] at hr
      cases hr.2
    · cases ha

theorem apart_reach (h : (wired H).Reach (fun _ l => H.ComparedAt l.1) x) : Apart H x := by
  refine h.inv (I := Apart H) ⟨?_, ?_, ?_, rfl⟩ fun _ _ _ _ hI hc hs => apart_step hI hc hs
  · intro d hd
    cases hd
  · intro ip portstr hl
    cases hl
  · intro z hz
    cases hz

/-- **Connections to itself**: a command for the own listener is refused before `connect()` if
and only if it gives the address by one of the two texts that `cmd_connect` compares with; and
in every run in which all such commands do, the registry never holds the two ends of one
connection. -/
theorem self_connect_iff (H : Host) :
    (∀ ip portstr, (H.Own ip portstr → Refuses H.env ip portstr) ↔ H.Compared ip portstr) ∧
      ∀ x, (wired H).Reach (fun _ l => H.ComparedAt l.1) x → ¬ BothEnds x.1.mem x.2 := by
  refine ⟨refuses_iff H, fun x hx hb => ?_⟩
  obtain ⟨p, -, q, -, hends⟩ := hb
  rw [(apart_reach hx).ends] at hends
  cases hends

/-- A host with the interface `10.0.0.1` that listens on port 5000. -/
def Host.demo : Host where
  inetPton := fun text => [peerAddr, 0x7F000001, 0x7F000002].find? fun a => dotted a = text
  inetNtop := dotted
  interfaces := [0x0A000001]
  sockname := some 0x0A000001
  listenPort := 5000

/-- `connect 127.0.0.1 5000` is refused. -/
theorem self_connect_iff_loopback : Refuses Host.demo.env loopback (decimal 5000) := by
  have hown : Host.demo.Own loopback (decimal 5000) :=
    ⟨by decide, ⟨0x7F000001, by decide +kernel, by decide +kernel⟩, by decide +kernel⟩
  exact ((self_connect_iff .demo).1 loopback (decimal 5000)).2 (fun _ => .inr rfl) hown

/-- `connect 127.0.0.2 5000`, up to its log line. -/
def dialsLoopback : List Label :=
  enters (.connect (dotted 0x7F000002) (decimal 5000)) ++ mains 3 ++ [.main (.fd 4), .main .ok] ++ mains 7

/-- The listener accepts the other end. -/
def dialsItself : List (Label × Option Sock) :=
  dialsLoopback.map (·, none) ++
    [(.listener .ok, none), (.listener (.peer 5 ⟨0x7F000001, 40000⟩), some 0)] ++ (listens 7).map (·, none)

/-- **A connection to itself**: the command gets to `connect()`, and both ends are listed. -/
theorem self_connects :
    (¬ ∀ (H : Host) ip portstr, H.Own ip portstr → Refuses H.env ip portstr) ∧
      ¬ ∀ (H : Host) x, (wired H).Reachable x → ¬ BothEnds x.1.mem x.2 := by
  constructor
  · intro h
    have hown : Host.demo.Own (dotted 0x7F000002) (decimal 5000) :=
      ⟨by decide +kernel, ⟨0x7F000002, by decide +kernel, by decide +kernel⟩, by decide +kernel⟩
    rcases (refuses_iff .demo (dotted 0x7F000002) (decimal 5000)).1 (h .demo _ _) hown with hc | hc
    · exact absurd hc (by decide +kernel)
    · exact absurd hc (by decide +kernel)
  · intro h
    -- the outgoing record is the first, the accepted one the second
    refine h .demo _ (Sync.Trans.reach_after dialsItself) ⟨0, ?_, 1, ?_, ?_⟩
    · decide +kernel
    · decide +kernel
    · decide +kernel

end Chat
