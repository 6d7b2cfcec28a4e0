import LinuxExercises.Spec.Talk
import LinuxExercises.Proof.Shutdown

/-!
# What a talk puts on the wire

* `SameWire`: what the other threads do leaves a connection's output alone
  (`others_wire`); so do the main thread's steps but `send()` and `shutdown()`.
* `TalkMove`: what a step of the main thread in a talk does (`talk_move`).
* `Talked`: what has been sent and what the command in hand still has to send is what the
  lines read so far have to send (`talked_step`, `talked_reach`).
* `Talks.sends`, `Talks.shut`: **a talk sends the texts of its lines, one call each and nothing
  else, and `terminate` shuts the connection down**.
-/

namespace Chat

open Sync

variable {E : Env} {m m' : Mem} {s s' t t' : State} {q : Ptr} {c : Sock} {l : Label} {op : Op} {pc pc' : MainPc}
  {ch : Choice} {cmds : List Cmd} {text : Bytes}

/-! ## The other threads -/

/-- Nothing was sent, and connection `c` was not shut down. -/
structure Mem.SameWire (c : Sock) (m m' : Mem) : Prop where
  sends : m'.sends = m.sends
  outbox : (m'.socks c).outbox = (m.socks c).outbox
  shut : (m'.socks c).shut = (m.socks c).shut
  opens : m.opens ≤ m'.opens

def Op.isWire : Op → Bool
  | .send .. | .shutdown _ => true
  | _ => false

theorem apply_wire {i : Tid} (hop : op.isWire = false) (hc : c < m.opens) : m.SameWire c (m.apply i op) := by
  refine ⟨?_, ?_, ?_, apply_opens op⟩
  all_goals
    cases op with
    | send | shutdown => cases hop
    | openConn fd => simp [Mem.apply, hc.ne]
    | take p c' n => by_cases h : c = c' <;> simp [Mem.apply, Mem.setSock, h]
    | _ => rfl

theorem setup_wire {q' : Option SetupPc} {q : SetupPc} (h : SetupMove m ch q op q') : op.isWire = false := by
  cases h <;> rfl

theorem recv_wire {p : Ptr} {q q' : RecvPc} (h : RecvMove m p q op q') : op.isWire = false := by
  cases h <;> rfl

theorem listener_wire {r r' : ListenerPc} (h : listenerThread E m ch r = some (op, r')) : op.isWire = false := by
  cases r with
  | check => cases h; rfl
  | accept =>
    simp only [listenerThread] at h
    split at h
    · split at h <;> cases h
      rfl
    · cases h; rfl
    · cases h
  | failed => cases h; rfl
  | setup x =>
    obtain ⟨⟨op', f⟩, hf, he⟩ := Option.map_eq_some_iff.1 h
    cases he
    exact setup_wire (setup_move hf).1
  | finished => cases h

/-- **The other threads and the peers** leave the connection's output and the main thread alone. -/
theorem others_wire (h : (chat E).step s l = some s') (hl : ∀ ch, l ≠ .main ch) (hc : c < s.mem.opens) :
    s.mem.SameWire c s'.mem ∧ s'.main = s.main := by
  obtain ⟨-, h⟩ := step_threads h
  rcases h with ⟨ch, op, pc, rfl, -, -⟩ | ⟨ch, op, r, rfl, hf, rfl⟩ | ⟨p, ch, q, op, f, rfl, hp, hf, rfl⟩ |
    ⟨c', e, rfl, hc', rfl⟩
  · exact absurd rfl (hl ch)
  · exact ⟨apply_wire (listener_wire hf) hc, rfl⟩
  · obtain ⟨h₁, h₂, h₃, h₄⟩ := apply_wire (i := .recv p) (recv_wire (recv_move hf)) hc
    exact ⟨⟨h₁, h₂, h₃, h₄⟩, rfl⟩
  · refine ⟨⟨rfl, ?_, ?_, le_rfl⟩, rfl⟩
    all_goals
      simp only [Mem.setSock]
      by_cases hcc : c = c'
      · subst hcc
        cases e <;> simp only [PeerEvent.on, Function.update_self]
        split <;> rfl
      · rw [Function.update_of_ne hcc]

/-! ## The main thread -/

/-- Where the main thread can be in a talk. -/
def MainPc.Talking : MainPc → Prop
  | .loop | .ended => True
  | .reap _ (some cmd) => cmd.text.isSome
  | .send _ _ q => q ≠ .unlockNone
  | .terminate _ q => q ≠ .unlockNone
  | _ => False

/-- What the command in hand still has to send. -/
def MainPc.unsent : MainPc → Option Bytes
  | .reap _ (some cmd) => cmd.text
  | .send _ text .lock | .send _ text .find | .send _ text (.send _) => some text
  | .terminate _ .lock | .terminate _ .find | .terminate _ (.send _) => some disconnect
  | _ => none

/-- The command in hand still has to shut the connection down. -/
def MainPc.owesShutdown : MainPc → Bool
  | .reap _ (some (.terminate _)) => true
  | .terminate _ .lock | .terminate _ .find | .terminate _ (.send _) | .terminate _ (.shutdown _) => true
  | _ => false

/-- **What a step of the main thread in a talk does**: it reads a line, sends what it has to send,
shuts the connection down, or does nothing to it. -/
inductive TalkMove (m : Mem) (c : Sock) (ch : Choice) : MainPc → Op → MainPc → Prop where
  | read (cmd : Cmd) : ch = .line cmd → TalkMove m c ch .loop .skip (.reap .lock (some cmd))
  | send (p : Ptr) (text : Bytes) {pc pc' : MainPc} : m.connOf p = some c → pc.unsent = some text →
      pc'.unsent = none → pc'.owesShutdown = pc.owesShutdown → pc ≠ .loop → pc'.Talking →
      TalkMove m c ch pc (.send p text true) pc'
  | shutdown (p : Ptr) {pc pc' : MainPc} : m.connOf p = some c → pc.unsent = none → pc'.unsent = none →
      pc ≠ .loop → pc'.Talking → TalkMove m c ch pc (.shutdown p) pc'
  | stay {pc pc' : MainPc} {op : Op} : op.isWire = false → pc'.unsent = pc.unsent →
      pc'.owesShutdown = pc.owesShutdown → (pc = .loop → ch = .eof) → pc'.Talking → TalkMove m c ch pc op pc'

/-- A send that the kernel takes. -/
theorem trySend_ok {α : Type} {p : Ptr} {k : Bool → α} (hch : ch = .ok) (hp : m.connOf p = some c)
    (hb : m.brokenPipe p = false) : m.trySend p text ch k = (.send p text true, .goto (k true)) := by
  simp [Mem.trySend, hb, hch, hp]

/-- A step within a command that does nothing to the connection. -/
theorem TalkMove.within (hop : op.isWire = false) (hp : pc'.unsent = pc.unsent)
    (ho : pc'.owesShutdown = pc.owesShutdown) (hne : pc ≠ .loop) (ht : pc'.Talking) : TalkMove m c ch pc op pc' :=
  .stay hop hp ho (fun h => absurd h hne) ht

theorem send_talk {id : BitVec 32} {x : SendPc} {f : Flow SendPc} (hx : x ≠ .unlockNone)
    (hC : Carries q c s (.main ch)) (hm : s.main = .send id text x) (h : cmdSend s.mem id text ch x = some (op, f)) :
    TalkMove s.mem c ch s.main op (f.lift (.send id text) .loop .ended) := by
  have hne : MainPc.send id text x ≠ .loop := by simp
  rw [hm]
  cases x with
  | lock =>
    obtain ⟨-, rfl, rfl⟩ := lock_eq h
    exact .within rfl rfl rfl hne (by simp [Flow.lift, MainPc.Talking])
  | find =>
    have hfind : (s.mem.listed.find? fun p => (s.mem.node p).id = id ∧ (s.mem.node p).active) = some q := by
      simpa only [Carries, hm] using hC
    simp only [cmdSend, hfind, Option.some.injEq, Prod.mk.injEq] at h
    obtain ⟨rfl, rfl⟩ := h
    exact .within rfl rfl rfl hne (by simp [Flow.lift, MainPc.Talking])
  | unlockNone => exact absurd rfl hx
  | send p =>
    obtain ⟨hch, hp, hb⟩ : ch = .ok ∧ s.mem.connOf p = some c ∧ s.mem.brokenPipe p = false := by
      simpa only [Carries, hm] using hC
    rw [cmdSend, trySend_ok hch hp hb] at h
    cases h
    exact .send p text hp rfl rfl rfl hne (by simp [Flow.lift, MainPc.Talking])
  | unlock p sent =>
    cases h
    cases sent
    · exact .within rfl rfl rfl hne trivial
    · exact .within rfl rfl rfl hne (by simp [Flow.lift, MainPc.Talking])
  | log p =>
    cases h
    exact .within rfl rfl rfl hne trivial

theorem terminate_talk {id : BitVec 32} {x : TermPc} {f : Flow TermPc} (hx : x ≠ .unlockNone)
    (hC : Carries q c s (.main ch)) (hm : s.main = .terminate id x) (h : cmdTerminate s.mem id ch x = some (op, f)) :
    TalkMove s.mem c ch s.main op (f.lift (.terminate id) .loop .ended) := by
  have hne : MainPc.terminate id x ≠ .loop := by simp
  rw [hm]
  cases x with
  | lock =>
    obtain ⟨-, rfl, rfl⟩ := lock_eq h
    exact .within rfl rfl rfl hne (by simp [Flow.lift, MainPc.Talking])
  | find =>
    have hfind : (s.mem.listed.find? fun p => (s.mem.node p).id = id) = some q := by
      simpa only [Carries, hm] using hC
    simp only [cmdTerminate, hfind, Option.some.injEq, Prod.mk.injEq] at h
    obtain ⟨rfl, rfl⟩ := h
    exact .within rfl rfl rfl hne (by simp [Flow.lift, MainPc.Talking])
  | unlockNone => exact absurd rfl hx
  | send p =>
    obtain ⟨hch, hp, hb⟩ : ch = .ok ∧ s.mem.connOf p = some c ∧ s.mem.brokenPipe p = false := by
      simpa only [Carries, hm] using hC
    rw [cmdTerminate, trySend_ok hch hp hb] at h
    cases h
    exact .send p disconnect hp rfl rfl rfl hne (by simp [Flow.lift, MainPc.Talking])
  | shutdown p =>
    have hp : s.mem.connOf p = some c := by simpa only [Carries, hm] using hC
    cases h
    exact .shutdown p hp rfl rfl hne (by simp [Flow.lift, MainPc.Talking])
  | close p => cases h; exact .within rfl rfl rfl hne (by simp [Flow.lift, MainPc.Talking])
  | clear p => cases h; exact .within rfl rfl rfl hne (by simp [Flow.lift, MainPc.Talking])
  | unlock p => cases h; exact .within rfl rfl rfl hne (by simp [Flow.lift, MainPc.Talking])
  | join p => cases h; exact .within rfl rfl rfl hne (by simp [Flow.lift, MainPc.Talking])
  | joining p t =>
    simp only [cmdTerminate] at h
    split at h <;> cases h
    exact .within rfl rfl rfl hne (by simp [Flow.lift, MainPc.Talking])
  | relock p =>
    obtain ⟨-, rfl, rfl⟩ := lock_eq h
    exact .within rfl rfl rfl hne (by simp [Flow.lift, MainPc.Talking])
  | find2 p =>
    simp only [cmdTerminate] at h
    split at h <;> cases h <;> exact .within rfl rfl rfl hne (by simp [Flow.lift, MainPc.Talking])
  | unlink p prev => cases h; exact .within rfl rfl rfl hne (by simp [Flow.lift, MainPc.Talking])
  | free p => cases h; exact .within rfl rfl rfl hne (by simp [Flow.lift, MainPc.Talking])
  | leave => cases h; exact .within rfl rfl rfl hne trivial

/-- `reap_connections` sends nothing. -/
theorem reap_wire {x : ReapPc} {f : Flow ReapPc} (h : reapConnections m x = some (op, f)) :
    op.isWire = false ∧ f ≠ .killed := by
  cases x with
  | lock | relock => obtain ⟨-, rfl, rfl⟩ := lock_eq h; exact ⟨rfl, fun h => by cases h⟩
  | scan | find =>
    simp only [reapConnections] at h
    split at h <;> cases h <;> exact ⟨rfl, fun h => by cases h⟩
  | joining p t =>
    simp only [reapConnections] at h
    split at h <;> cases h
    exact ⟨rfl, fun h => by cases h⟩
  | _ => cases h; exact ⟨rfl, fun h => by cases h⟩

/-- A command of a talk begins with all it has to send. -/
theorem dispatch_talk {cmd : Cmd} (h : cmd.text.isSome) : (dispatch E cmd).Talking ∧
    (dispatch E cmd).unsent = cmd.text ∧
    ∀ x, (dispatch E cmd).owesShutdown = (MainPc.reap x (some cmd)).owesShutdown := by
  cases cmd with
  | terminate id => exact ⟨fun h => (by cases h), rfl, fun _ => rfl⟩
  | send id msg =>
    obtain ⟨text, ht⟩ := Option.isSome_iff_exists.1 h
    have ht : sendText msg = some text := ht
    simp only [dispatch, Cmd.text, ht]
    exact ⟨fun h => (by cases h), rfl, fun _ => rfl⟩
  | _ => cases h

/-- **A step of the main thread in a talk.** -/
theorem talk_move {d : Bool} (hT : s.main.Talking) (hC : Carries q c s (.main ch))
    (h : mainStep E s.mem d ch s.main = some (op, pc')) : TalkMove s.mem c ch s.main op pc' := by
  cases hm : s.main with
  | loop =>
    rw [hm] at h
    cases ch with
    | line cmd => cases h; exact .read cmd rfl
    | eof => cases h; exact .stay rfl rfl rfl (fun _ => rfl) trivial
    | _ => cases h
  | reap x after =>
    rw [hm] at h hT
    obtain ⟨⟨op', f⟩, hf, he⟩ := Option.map_eq_some_iff.1 h
    cases he
    obtain ⟨hop, hf'⟩ := reap_wire hf
    cases after with
    | none => exact hT.elim
    | some cmd =>
      cases f with
      | goto y => exact .stay hop rfl (by cases cmd <;> rfl) (fun h => by cases h) hT
      | ret =>
        obtain ⟨h₁, h₂, h₃⟩ := dispatch_talk (E := E) hT
        exact .stay hop h₂ (h₃ x) (fun h => by cases h) h₁
      | killed => exact absurd rfl hf'
  | send id text x =>
    rw [hm] at h hT
    obtain ⟨⟨op', f⟩, hf, he⟩ := Option.map_eq_some_iff.1 h
    cases he
    exact hm ▸ send_talk hT hC hm hf
  | terminate id x =>
    rw [hm] at h hT
    obtain ⟨⟨op', f⟩, hf, he⟩ := Option.map_eq_some_iff.1 h
    cases he
    exact hm ▸ terminate_talk hT hC hm hf
  | connect | list | exit => rw [hm] at hT; exact hT.elim
  | ended => rw [hm] at h; cases h

/-! ## The run -/

/-- **What is known in a talk** after the lines `x.2`. -/
structure Talked (t : State) (c : Sock) (x : State × List Cmd) : Prop where
  opened : c < x.1.mem.opens
  talking : x.1.main.Talking
  sent : ∃ new, x.1.mem.sends = t.mem.sends ++ new ∧ (∀ k ∈ new, k.file = some (.conn c)) ∧
    new.map (·.text) ++ x.1.main.unsent.toList = x.2.filterMap Cmd.text ∧
    (x.1.mem.socks c).outbox = (t.mem.socks c).outbox ++ (new.map (·.text)).flatten
  shut : (∃ id, .terminate id ∈ x.2) → (x.1.mem.socks c).shut = true ∨ x.1.main.owesShutdown = true

theorem noteLine_mono {cmd : Cmd} (h : cmd ∈ cmds) : cmd ∈ noteLine s l cmds := by
  unfold noteLine
  split
  · exact List.mem_append_left _ h
  · exact h

theorem noteLine_keep (h : ∀ cmd, s.main = .loop → l ≠ .main (.line cmd)) : noteLine s l cmds = cmds := by
  unfold noteLine
  split
  · rename_i cmd hm
    exact absurd rfl (h cmd hm)
  · rfl

/-- Nothing happens to the connection. -/
theorem Talked.keep (h : Talked t c (s, cmds)) (hw : s.mem.SameWire c s'.mem) (ht : s'.main.Talking)
    (hp : s'.main.unsent = s.main.unsent) (ho : s'.main.owesShutdown = s.main.owesShutdown) :
    Talked t c (s', cmds) := by
  obtain ⟨new, hsends, hfile, htexts, hout⟩ := h.sent
  refine ⟨h.opened.trans_le hw.opens, ht, ⟨new, hw.sends.trans hsends, hfile, ?_, hw.outbox.trans hout⟩, fun hid => ?_⟩
  · rw [← htexts, hp]
  · show (s'.mem.socks c).shut = true ∨ s'.main.owesShutdown = true
    rw [hw.shut, ho]
    exact h.shut hid

/-- A line is read. -/
theorem Talked.read {cmd : Cmd} (h : Talked t c (s, cmds)) (hm : s.main = .loop) (hcmd : cmd.text.isSome)
    (hw : s.mem.SameWire c s'.mem) (hm' : s'.main = .reap .lock (some cmd)) : Talked t c (s', cmds ++ [cmd]) := by
  obtain ⟨new, hsends, hfile, htexts, hout⟩ := h.sent
  refine ⟨h.opened.trans_le hw.opens, ?_, ⟨new, hw.sends.trans hsends, hfile, ?_, hw.outbox.trans hout⟩, ?_⟩
  · show s'.main.Talking
    rw [hm']
    exact hcmd
  · simp only [hm, MainPc.unsent, Option.toList_none, List.append_nil] at htexts
    simp only [hm', MainPc.unsent, htexts, List.filterMap_append, List.filterMap_cons, List.filterMap_nil]
    cases cmd.text <;> rfl
  · rintro ⟨id, hid⟩
    rcases List.mem_append.1 hid with hid | hid
    · refine .inl (hw.shut.trans ?_)
      simpa [hm, MainPc.owesShutdown] using h.shut ⟨id, hid⟩
    · obtain rfl := List.mem_singleton.1 hid
      right
      simp only [hm', MainPc.owesShutdown]

theorem connOf_file {p : Ptr} (h : m.connOf p = some c) : m.files (m.node p).sockfd = some (.conn c) := by
  unfold Mem.connOf at h
  split at h
  · rename_i c' hf
    rw [hf, Option.some.inj h]
  · cases h

/-- The command in hand sends what it has to send. -/
theorem Talked.send {p : Ptr} (h : Talked t c (s, cmds)) (hp : s.mem.connOf p = some c)
    (hmem : s'.mem = s.mem.apply .main (.send p text true)) (hpend : s.main.unsent = some text)
    (hpend' : s'.main.unsent = none) (ho : s'.main.owesShutdown = s.main.owesShutdown) (ht : s'.main.Talking) :
    Talked t c (s', cmds) := by
  obtain ⟨new, hsends, hfile, htexts, hout⟩ := h.sent
  have hsends : s.mem.sends = t.mem.sends ++ new := hsends
  have hout : (s.mem.socks c).outbox = (t.mem.socks c).outbox ++ (new.map (·.text)).flatten := hout
  have hsocks : (s'.mem.socks c).outbox = (s.mem.socks c).outbox ++ text ∧
      (s'.mem.socks c).shut = (s.mem.socks c).shut := by
    simp [hmem, Mem.apply, hp]
  refine ⟨by rw [hmem]; exact h.opened, ht,
    ⟨new ++ [⟨p, (s.mem.node p).active, some (.conn c), text⟩], ?_, fun k hk => ?_, ?_, ?_⟩, fun hid => ?_⟩
  · simp only [hmem, Mem.apply, connOf_file hp, hsends, List.append_assoc]
  · rcases List.mem_append.1 hk with hk | hk
    · exact hfile k hk
    · obtain rfl := List.mem_singleton.1 hk
      rfl
  · simp only [hpend, Option.toList_some] at htexts
    simp [hpend', htexts]
  · simp [hsocks.1, hout]
  · simp only [hsocks.2, ho]
    exact h.shut hid

/-- The command in hand shuts the connection down. -/
theorem Talked.shutdown {p : Ptr} (h : Talked t c (s, cmds)) (hp : s.mem.connOf p = some c)
    (hmem : s'.mem = s.mem.apply .main (.shutdown p)) (hpend : s'.main.unsent = s.main.unsent)
    (ht : s'.main.Talking) : Talked t c (s', cmds) := by
  obtain ⟨new, hsends, hfile, htexts, hout⟩ := h.sent
  have hsocks : (s'.mem.socks c).outbox = (s.mem.socks c).outbox ∧ (s'.mem.socks c).shut = true := by
    simp [hmem, Mem.apply, hp]
  refine ⟨by rw [hmem]; exact h.opened, ht, ⟨new, by rw [hmem]; exact hsends, hfile, ?_, hsocks.1.trans hout⟩,
    fun _ => .inl hsocks.2⟩
  rw [← htexts, hpend]

/-- **One step of a talk.** -/
theorem talked_step (h : Talked t c (s, cmds)) (hC : Carries q c s l) (hst : (chat E).step s l = some s')
    (hcmds : ∀ cmd ∈ noteLine s l cmds, cmd.text.isSome) : Talked t c (s', noteLine s l cmds) := by
  by_cases hl : ∀ ch, l ≠ .main ch
  · -- another thread, or a peer
    obtain ⟨hw, hm⟩ := others_wire hst hl h.opened
    rw [noteLine_keep fun cmd _ => hl _]
    exact h.keep hw (hm ▸ h.talking) (by rw [hm]) (by rw [hm])
  · simp only [ne_eq, not_forall, not_not] at hl
    obtain ⟨ch, rfl⟩ := hl
    obtain ⟨-, ⟨ch', op, pc, heq, hf, rfl⟩ | ⟨_, _, _, heq, -⟩ | ⟨_, _, _, _, _, heq, -⟩ | ⟨_, _, heq, -⟩⟩ :=
      step_threads hst
    · obtain rfl := Label.main.inj heq
      have hmove := talk_move h.talking hC hf
      generalize hm : s.main = pc₀ at hmove
      cases hmove with
      | read cmd hch =>
        subst hch
        have hnote : noteLine s (.main (.line cmd)) cmds = cmds ++ [cmd] := by simp only [noteLine, hm]
        rw [hnote] at hcmds ⊢
        exact h.read hm (hcmds cmd (by simp)) ⟨rfl, rfl, rfl, le_rfl⟩ rfl
      | send p text hp hpend hpend' ho hne ht =>
        rw [noteLine_keep fun cmd h => absurd (hm.symm.trans h) hne]
        exact h.send hp rfl (by rw [hm]; exact hpend) hpend' (by rw [hm]; exact ho) ht
      | shutdown p hp hpend hpend' hne ht =>
        rw [noteLine_keep fun cmd h => absurd (hm.symm.trans h) hne]
        exact h.shutdown hp rfl (by rw [hm]; exact hpend'.trans hpend.symm) ht
      | stay hop hpend ho heof ht =>
        have hno : ∀ cmd, s.main = .loop → Label.main ch ≠ .main (.line cmd) := by
          intro cmd hloop heq
          rw [heof (hm.symm.trans hloop)] at heq
          cases heq
        rw [noteLine_keep hno]
        exact h.keep (apply_wire hop h.opened) ht (by rw [hm]; exact hpend) (by rw [hm]; exact ho)
    · cases heq
    · cases heq
    · cases heq

/-- **The run of a talk.** -/
theorem talked_reach {x : State × List Cmd} (ht : t.main = .loop) (hc : c < t.mem.opens)
    (h : (talking E t).Reach (fun x l => Carries q c x.1 l) x) (hcmds : ∀ cmd ∈ x.2, cmd.text.isSome) :
    Talked t c x := by
  refine h.inv (I := fun x => (∀ cmd ∈ x.2, cmd.text.isSome) → Talked t c x) ?_ ?_ hcmds
  · intro _
    refine ⟨hc, ?_, ⟨[], by simp [talking, Trans.ghost], by simp, ?_, by simp [talking, Trans.ghost]⟩, ?_⟩
    · simp [talking, Trans.ghost, ht, MainPc.Talking]
    · simp [talking, Trans.ghost, ht, MainPc.unsent]
    · simp [talking, Trans.ghost]
  · rintro ⟨s, cmds⟩ l y _ hI hC hst hcmds
    obtain ⟨s', hs', rfl⟩ := Option.map_eq_some_iff.1 hst
    exact talked_step (hI fun cmd hcmd => hcmds cmd (noteLine_mono hcmd)) hC hs' hcmds

/-- **What a talk has sent**: one call on the connection for each line, with its text. -/
theorem Talks.sends (h : Talks E t q c cmds t') (hcmds : ∀ cmd ∈ cmds, cmd.text.isSome) :
    ∃ new, t'.mem.sends = t.mem.sends ++ new ∧ (∀ k ∈ new, k.file = some (.conn c)) ∧
      new.map (·.text) = cmds.filterMap Cmd.text ∧
      (t'.mem.socks c).outbox = (t.mem.socks c).outbox ++ (cmds.filterMap Cmd.text).flatten := by
  obtain ⟨new, hsends, hfile, htexts, hout⟩ := (talked_reach h.idle h.opened h.run hcmds).sent
  simp only [h.back, MainPc.unsent, Option.toList_none, List.append_nil] at htexts
  exact ⟨new, hsends, hfile, htexts, htexts ▸ hout⟩

/-- **`terminate` shuts the connection down.** -/
theorem Talks.shut {id : BitVec 32} (h : Talks E t q c cmds t') (hcmds : ∀ cmd ∈ cmds, cmd.text.isSome)
    (hid : .terminate id ∈ cmds) : (t'.mem.socks c).shut = true := by
  have hshut := (talked_reach h.idle h.opened h.run hcmds).shut ⟨id, hid⟩
  simpa only [h.back, MainPc.owesShutdown, Bool.false_eq_true, or_false] using hshut

/-- The lines of a conversation. -/
theorem text_send (id : BitVec 32) {msgs : List CStr} (hm : ∀ msg ∈ msgs, msg.bytes.length ≤ maxMsgLen) :
    (∀ cmd ∈ msgs.map (Cmd.send id), cmd.text.isSome) ∧
      (msgs.map (Cmd.send id)).filterMap Cmd.text = msgs.map CStr.bytes := by
  have hsend : ∀ msg ∈ msgs, (Cmd.send id msg).text = some msg.bytes := fun msg hmsg =>
    if_neg (Nat.not_lt.2 (hm msg hmsg))
  constructor
  · rintro cmd hcmd
    obtain ⟨msg, hmsg, rfl⟩ := List.mem_map.1 hcmd
    rw [hsend msg hmsg]
    rfl
  · rw [List.filterMap_map, ← List.filterMap_eq_map]
    exact List.filterMap_congr fun msg hmsg => hsend msg hmsg

end Chat
