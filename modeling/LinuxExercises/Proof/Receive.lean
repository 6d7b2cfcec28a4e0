import LinuxExercises.Spec.Receive
import LinuxExercises.Proof.Framing

/-!
# p2pchat: what the receive thread makes of a stream

* `Fed`: the thread of one record has run alone; the lemmas below say what one result of
  `recv` does to it.
* `fed_loop`: the loop displays `shows` of the chunks, and goes on unless one of them is a
  control command.
* `receive_stream`: **the thread comes to its end on every list of results, has displayed the
  stream up to the first control command, and has marked its own record only**.
* `conversation_iff`: **what `send` lines bring is displayed unchanged, and the loop goes on behind it,
  if and only if no message starts like the control command**.
-/

namespace Chat

open Sync

variable {E : Env} {s₀ s : State} {p : Ptr} {c : Sock} {q : RecvPc} {inbox rest b : Bytes} {shown : List Shown}
  {rs tail : List RecvResult} {chunks : List Bytes}

/-! ## One result -/

/-- From `s₀` to `s` only the loop of thread `p` has run: it is at `q`, `inbox` is to come, and
`shown` was displayed. -/
structure Fed (s₀ s : State) (p : Ptr) (c : Sock) (q : RecvPc) (inbox : Bytes) (shown : List Shown) : Prop where
  running : s.main ≠ .ended
  pc : s.mem.recv p = some q
  conn : s.mem.connOf p = some c
  inbox : (s.mem.socks c).inbox = inbox
  closed : (s.mem.socks c).fin = (s₀.mem.socks c).fin ∧ (s.mem.socks c).shut = (s₀.mem.socks c).shut
  screen : s.mem.screen = s₀.mem.screen ++ shown.map (p, ·)
  mutex : s.mem.connMutex = none
  node : s.mem.node = s₀.mem.node
  list : s.mem.connHead = s₀.mem.connHead ∧ s.mem.next = s₀.mem.next

theorem fed_step {all : List RecvResult} {s' : State} {rs' : List RecvResult}
    (h : (fed E p s₀ all).Reachable (s, rs)) (hs : feed E p s rs = some (s', rs')) :
    (fed E p s₀ all).Reachable (s', rs') := h.step (l := ()) trivial hs

/-- What the thread prints at the end of the stream. -/
def endLine : RecvResult → Shown
  | .eof => .closedConnection
  | _ => .recvFailed

theorem fed_call (h : Fed s₀ s p c .top inbox shown) (rs : List RecvResult) :
    ∃ s', feed E p s rs = some (s', rs) ∧ Fed s₀ s' p c (.inRecv c) inbox shown := by
  refine ⟨⟨s.mem.setRecv p (.inRecv c), s.main, s.listener⟩, ?_, ?_⟩
  · simp [feed, h.pc, State.step, h.running, connRecvThread, h.conn, Flow.lift, Mem.apply]
  · exact ⟨h.running, by simp [Mem.setRecv], h.conn, h.inbox, h.closed, h.screen, h.mutex, h.node, h.list⟩

theorem fed_take (h : Fed s₀ s p c (.inRecv c) (b ++ rest) shown) (hb : IsChunk b) (rs : List RecvResult) :
    ∃ s', feed E p s (.data b :: rs) = some (s', rs) ∧ Fed s₀ s' p c (.got b) rest shown := by
  have hlen : 0 < b.length ∧ b.length ≤ bufSize - 1 ∧ b.length ≤ (s.mem.socks c).inbox.length :=
    ⟨List.length_pos_of_ne_nil hb.1, hb.2, by simp [h.inbox]⟩
  have htake : (s.mem.socks c).inbox.take b.length = b := by simp [h.inbox]
  refine ⟨⟨(s.mem.apply (.recv p) (.take p c b.length)).setRecv p (.got b), s.main, s.listener⟩, ?_, ?_⟩
  · simp only [feed, h.pc, State.step, h.running, if_false, RecvResult.choice, connRecvThread, if_pos hlen, htake,
      Option.map_some, Flow.lift, id_eq]
  · refine ⟨h.running, by simp [Mem.setRecv], h.conn, ?_, ?_, h.screen, h.mutex, h.node, h.list⟩
    · simp [Mem.setRecv, Mem.apply, Mem.setSock, h.inbox]
    · simpa [Mem.setRecv, Mem.apply, Mem.setSock] using h.closed

theorem fed_show (h : Fed s₀ s p c (.got b) inbox shown) (rs : List RecvResult) :
    ∃ s', feed E p s rs = some (s', rs) ∧
      Fed s₀ s' p c (if (onData b).2 then .top else .lock) inbox (shown ++ [(onData b).1]) := by
  refine ⟨⟨(s.mem.apply (.recv p) (.print p (onData b).1)).setRecv p (if (onData b).2 then .top else .lock),
    s.main, s.listener⟩, ?_, ?_⟩
  · simp only [feed, h.pc, State.step, h.running, if_false, connRecvThread, Option.map_some, Flow.lift, id_eq]
  · refine ⟨h.running, by simp [Mem.setRecv], h.conn, h.inbox, h.closed, ?_, h.mutex, h.node, h.list⟩
    simp [Mem.setRecv, Mem.apply, h.screen]

/-- An interrupted call is made again. -/
theorem fed_eintr (h : Fed s₀ s p c (.inRecv c) inbox shown) (rs : List RecvResult) :
    ∃ s', feed E p s (.eintr :: rs) = some (s', rs) ∧ Fed s₀ s' p c .top inbox shown := by
  refine ⟨⟨s.mem.setRecv p .top, s.main, s.listener⟩, ?_, ?_⟩
  · simp [feed, h.pc, State.step, h.running, connRecvThread, RecvResult.choice, Flow.lift, Mem.apply]
  · exact ⟨h.running, by simp [Mem.setRecv], h.conn, h.inbox, h.closed, h.screen, h.mutex, h.node, h.list⟩

theorem fed_end {e : RecvResult} (h : Fed s₀ s p c (.inRecv c) [] shown) (he : Final s₀ c e) (rs : List RecvResult) :
    ∃ s', feed E p s (e :: rs) = some (s', rs) ∧ Fed s₀ s' p c .lock [] (shown ++ [endLine e]) := by
  refine ⟨⟨(s.mem.apply (.recv p) (.print p (endLine e))).setRecv p .lock, s.main, s.listener⟩, ?_, ?_⟩
  · cases e with
    | data b => exact absurd he (by simp [Final])
    | eintr => exact absurd he (by simp [Final])
    | eof =>
      have hclosed : (s.mem.socks c).inbox = [] ∧ ((s.mem.socks c).fin ∨ (s.mem.socks c).shut) := by
        rw [h.closed.1, h.closed.2]
        exact ⟨h.inbox, he⟩
      simp only [feed, h.pc, State.step, h.running, if_false, connRecvThread, RecvResult.choice, if_pos hclosed,
        Option.map_some, Flow.lift, id_eq, endLine]
    | fail => simp [feed, h.pc, State.step, h.running, connRecvThread, RecvResult.choice, Flow.lift, endLine]
  · refine ⟨h.running, by simp [Mem.setRecv], h.conn, h.inbox, h.closed, ?_, h.mutex, h.node, h.list⟩
    simp [Mem.setRecv, Mem.apply, h.screen]

/-! ## The loop -/

/-- No chunk ends the loop. -/
def Quiet (chunks : List Bytes) : Prop := ∀ b ∈ chunks, (onData b).2 = true

instance (chunks : List Bytes) : Decidable (Quiet chunks) := inferInstanceAs (Decidable (∀ b ∈ chunks, _))

theorem quiet_cons : Quiet (b :: chunks) ↔ (onData b).2 = true ∧ Quiet chunks := List.forall_mem_cons

/-- **The loop on chunks and interruptions.** -/
theorem fed_loop {all : List RecvResult} : ∀ {rs : List RecvResult} {s : State} {shown : List Shown},
    (∀ r ∈ rs, IsMiddle r) → (fed E p s₀ all).Reachable (s, rs ++ tail) →
    Fed s₀ s p c .top ((chunksOf rs).flatten ++ rest) shown →
    ∃ s' rs' inbox, (fed E p s₀ all).Reachable (s', rs') ∧
      Fed s₀ s' p c (if Quiet (chunksOf rs) then .top else .lock) inbox (shown ++ shows (chunksOf rs)) ∧
      (Quiet (chunksOf rs) → rs' = tail ∧ inbox = rest) := by
  intro rs
  induction rs with
  | nil =>
    intro s shown _ hts h
    have hq : Quiet (chunksOf []) := by simp [Quiet, chunksOf]
    refine ⟨s, tail, rest, hts, ?_, fun _ => ⟨rfl, rfl⟩⟩
    rw [if_pos hq]
    simpa [chunksOf, shows] using h
  | cons r rs ih =>
    intro s shown hrs hts h
    have hrs' : ∀ r ∈ rs, IsMiddle r := fun x hx => hrs x (List.mem_cons_of_mem _ hx)
    obtain ⟨s₁, hs₁, h₁⟩ := fed_call (E := E) h (r :: rs ++ tail)
    have ht₁ := fed_step hts hs₁
    rcases hrs r List.mem_cons_self with rfl | ⟨b, rfl, hb⟩
    · -- interrupted: nothing has changed
      obtain ⟨s₂, hs₂, h₂⟩ := fed_eintr (E := E) h₁ (rs ++ tail)
      exact ih hrs' (fed_step ht₁ hs₂) h₂
    · have h₁' : Fed s₀ s₁ p c (.inRecv c) (b ++ ((chunksOf rs).flatten ++ rest)) shown := by
        simpa [chunksOf] using h₁
      obtain ⟨s₂, hs₂, h₂⟩ := fed_take (E := E) h₁' hb (rs ++ tail)
      obtain ⟨s₃, hs₃, h₃⟩ := fed_show (E := E) h₂ (rs ++ tail)
      have ht₃ := fed_step (fed_step ht₁ hs₂) hs₃
      cases hon : (onData b).2 with
      | true =>
        rw [hon] at h₃
        obtain ⟨s', rs', inbox, ht', h', hq'⟩ := ih hrs' ht₃ h₃
        have hquiet : Quiet (chunksOf (.data b :: rs)) ↔ Quiet (chunksOf rs) := by
          simp [chunksOf, quiet_cons, hon]
        refine ⟨s', rs', inbox, ht', ?_, fun hq => hq' (hquiet.1 hq)⟩
        simpa [quiet_cons, chunksOf, shows, hon] using h'
      | false =>
        -- the control command: the loop is left
        have hquiet : ¬ Quiet (chunksOf (.data b :: rs)) := by simp [chunksOf, quiet_cons, hon]
        refine ⟨s₃, rs ++ tail, (chunksOf rs).flatten ++ rest, ht₃, ?_, fun hq => absurd hq hquiet⟩
        rw [if_neg hquiet]
        simpa [chunksOf, shows, hon] using h₃

/-! ## The marking block -/

/-- **Every exit of the loop marks the record**, and no other. -/
theorem fed_mark {all : List RecvResult} (ht : (fed E p s₀ all).Reachable (s, rs)) (h : Fed s₀ s p c .lock inbox shown) :
    ∃ s', (fed E p s₀ all).Reachable (s', rs) ∧ s'.mem.recv p = some .finished ∧
      s'.mem.screen = s₀.mem.screen ++ shown.map (p, ·) ∧
      s'.mem.node = Function.update s₀.mem.node p { s₀.mem.node p with active := false, shouldRemove := true } ∧
      s'.mem.connHead = s₀.mem.connHead ∧ s'.mem.next = s₀.mem.next := by
  let m₁ := (s.mem.apply (.recv p) .lock).setRecv p .mark
  let m₂ := (m₁.apply (.recv p) (.mark p)).setRecv p .unlock
  let m₃ := (m₂.apply (.recv p) .unlock).setRecv p .finished
  have hp₁ : m₁.recv p = some .mark := by simp [m₁, Mem.setRecv]
  have hp₂ : m₂.recv p = some .unlock := by simp [m₂, Mem.setRecv]
  have h₁ : feed E p s rs = some (⟨m₁, s.main, s.listener⟩, rs) := by
    simp [feed, h.pc, State.step, h.running, connRecvThread, Mem.lock, h.mutex, Flow.lift, m₁]
  have h₂ : feed E p ⟨m₁, s.main, s.listener⟩ rs = some (⟨m₂, s.main, s.listener⟩, rs) := by
    simp [feed, hp₁, State.step, h.running, connRecvThread, Flow.lift, m₂]
  have h₃ : feed E p ⟨m₂, s.main, s.listener⟩ rs = some (⟨m₃, s.main, s.listener⟩, rs) := by
    simp [feed, hp₂, State.step, h.running, connRecvThread, Flow.lift, m₃]
  refine ⟨_, fed_step (fed_step (fed_step ht h₁) h₂) h₃, ?_, h.screen, ?_, h.list⟩
  · simp [m₃, Mem.setRecv]
  · have hnode : m₁.node = s₀.mem.node := h.node
    show Function.update m₁.node p _ = _
    rw [hnode]

/-! ## What is displayed -/

theorem onData_eq (h : 0 ∉ b) :
    (disconnect <+: b → onData b = (.requestedDisconnect, false)) ∧
      (¬ disconnect <+: b → onData b = (.message b, true)) := by
  have hpre : disconnect <+: b ↔ b.take 14 = disconnect := by
    rw [List.prefix_iff_eq_take, eq_comm]
    rfl
  unfold onData
  rw [cstr_eq h, hpre]
  exact ⟨fun hd => if_pos hd, fun hd => if_neg hd⟩

/-- The loop is left at the first control command. -/
theorem quiet_iff (h0 : ∀ b ∈ chunks, 0 ∉ b) : Quiet chunks ↔ ∀ b ∈ chunks, ¬ disconnect <+: b := by
  refine forall₂_congr fun b hb => ?_
  obtain ⟨hctl, hmsg⟩ := onData_eq (h0 b hb)
  constructor
  · intro hon hd
    rw [hctl hd] at hon
    simp at hon
  · intro hd
    rw [hmsg hd]

theorem shows_quiet (h0 : ∀ b ∈ chunks, 0 ∉ b) (hq : ∀ b ∈ chunks, ¬ disconnect <+: b) :
    shows chunks = chunks.map .message := by
  induction chunks with
  | nil => rfl
  | cons b chunks ih =>
    have hb := (onData_eq (h0 b List.mem_cons_self)).2 (hq b List.mem_cons_self)
    have hrest := ih (fun x hx => h0 x (List.mem_cons_of_mem _ hx)) fun x hx => hq x (List.mem_cons_of_mem _ hx)
    simp [shows, hb, hrest]

theorem shows_control {pre post : List Bytes} (h0 : ∀ x ∈ pre ++ b :: post, 0 ∉ x)
    (hq : ∀ x ∈ pre, ¬ disconnect <+: x) (hd : disconnect <+: b) :
    shows (pre ++ b :: post) = pre.map .message ++ [.requestedDisconnect] := by
  induction pre with
  | nil =>
    have hb := (onData_eq (h0 b (by simp))).1 hd
    simp [shows, hb]
  | cons x pre ih =>
    have hx := (onData_eq (h0 x (by simp))).2 (hq x List.mem_cons_self)
    have hrest := ih (fun y hy => h0 y (List.mem_cons_of_mem _ hy)) fun y hy => hq y (List.mem_cons_of_mem _ hy)
    simp [shows, hx, hrest]

theorem texts_append (xs ys : List Shown) : texts (xs ++ ys) = texts xs ++ texts ys := by
  induction xs with
  | nil => rfl
  | cons x xs ih => cases x <;> simp [texts, ih]

theorem texts_message (chunks : List Bytes) : texts (chunks.map .message) = chunks := by
  induction chunks with
  | nil => rfl
  | cons b chunks ih => simp [texts, ih]

theorem texts_endLine (e : RecvResult) : texts [endLine e] = [] := by
  cases e <;> rfl

/-! ## The stream -/

/-- The thread of record `p` is before a `recv`, the mutex is free, and these bytes are to come. -/
theorem fed_start (h : s₀.Reads p .top c inbox) (hfree : s₀.mem.connMutex = none) : Fed s₀ s₀ p c .top inbox [] :=
  ⟨h.running, h.pc, h.conn, h.inbox, ⟨rfl, rfl⟩, by simp, hfree, rfl, rfl, rfl⟩

/-- **Stream fidelity**: on any chunks and interruptions and a final end the receive thread
comes to its end; what it has displayed is the stream, or the chunks before the first one that
starts like the control command; and it has marked its record and changed no other. -/
theorem receive_stream {e : RecvResult} (h : s₀.Reads p .top c (chunksOf rs).flatten) (hfree : s₀.mem.connMutex = none)
    (hrs : ∀ r ∈ rs, IsMiddle r) (h0 : ∀ b ∈ chunksOf rs, 0 ∉ b) (he : Final s₀ c e) :
    ∃ s' rs' shown, (fed E p s₀ (rs ++ [e])).Reachable (s', rs') ∧ s'.mem.recv p = some .finished ∧
      s'.mem.screen = s₀.mem.screen ++ shown.map (p, ·) ∧
      ((∀ b ∈ chunksOf rs, ¬ disconnect <+: b) → (texts shown).flatten = (chunksOf rs).flatten) ∧
      (∀ pre b post, chunksOf rs = pre ++ b :: post → (∀ x ∈ pre, ¬ disconnect <+: x) → disconnect <+: b →
        (texts shown).flatten = pre.flatten) ∧
      s'.mem.node = Function.update s₀.mem.node p { s₀.mem.node p with active := false, shouldRemove := true } ∧
      s'.mem.connHead = s₀.mem.connHead ∧ s'.mem.next = s₀.mem.next := by
  have hstart := fed_start h hfree
  rw [← List.append_nil (chunksOf rs).flatten] at hstart
  have hinit : (fed E p s₀ (rs ++ [e])).Reachable (s₀, rs ++ [e]) := .init
  obtain ⟨s₁, rs₁, inbox, ht₁, h₁, hq₁⟩ := fed_loop hrs hinit hstart
  rw [List.nil_append] at h₁
  by_cases hq : Quiet (chunksOf rs)
  · -- the loop goes on to the end of the stream
    obtain ⟨rfl, rfl⟩ := hq₁ hq
    rw [if_pos hq] at h₁
    have hno := (quiet_iff h0).1 hq
    obtain ⟨s₂, hs₂, h₂⟩ := fed_call (E := E) h₁ [e]
    obtain ⟨s₃, hs₃, h₃⟩ := fed_end (E := E) h₂ he []
    obtain ⟨s', ht', hpc, hscreen, hnode, hlist⟩ := fed_mark (fed_step (fed_step ht₁ hs₂) hs₃) h₃
    refine ⟨s', [], _, ht', hpc, hscreen, ?_, ?_, hnode, hlist⟩
    · intro _
      rw [texts_append, shows_quiet h0 hno, texts_message, texts_endLine, List.append_nil]
    · intro pre b post heq _ hd
      exact absurd hd (hno b (by simp [heq]))
  · rw [if_neg hq] at h₁
    obtain ⟨s', ht', hpc, hscreen, hnode, hlist⟩ := fed_mark ht₁ h₁
    refine ⟨s', rs₁, _, ht', hpc, hscreen, ?_, ?_, hnode, hlist⟩
    · intro hno
      exact absurd ((quiet_iff h0).2 hno) hq
    · intro pre b post heq hpre hd
      rw [heq] at h0 ⊢
      rw [shows_control h0 hpre hd, texts_append, texts_message]
      simp [texts]

/-- An interrupted `recv`, a message, and an error. -/
theorem receive_stream_one :
    ∃ s' rs' shown, (fed .demo 0 (streamed msgHi.bytes) ([.eintr, .data msgHi.bytes] ++ [.fail])).Reachable (s', rs') ∧
      s'.mem.recv 0 = some .finished ∧ s'.mem.screen = (streamed msgHi.bytes).mem.screen ++ shown.map (0, ·) ∧
      (texts shown).flatten = msgHi.bytes ∧ (s'.mem.node 0).active = false ∧ (s'.mem.node 0).shouldRemove = true := by
  have hread : (streamed msgHi.bytes).Reads 0 .top 0 (chunksOf [.eintr, .data msgHi.bytes]).flatten :=
    ⟨by decide +kernel, by decide +kernel, by decide +kernel, by decide +kernel⟩
  obtain ⟨s', rs', shown, ht, hpc, hscreen, htext, -, hnode, -⟩ :=
    receive_stream (E := .demo) (e := .fail) hread (by decide +kernel)
      (by simp [IsMiddle, IsChunk, msgHi, bufSize]) (by simp [chunksOf, msgHi]) trivial
  have hno : ∀ b ∈ chunksOf [.eintr, .data msgHi.bytes], ¬ disconnect <+: b := by decide
  exact ⟨s', rs', shown, ht, hpc, hscreen, htext hno, by simp [hnode], by simp [hnode]⟩

/-! ## Conversations -/

variable {E₀ : Env} {t t' : State} {p₀ : Ptr} {c₀ : Sock} {id : BitVec 32} {msgs : List CStr}

theorem chunksOf_data (chunks : List Bytes) : chunksOf (chunks.map .data) = chunks := by
  induction chunks with
  | nil => rfl
  | cons b chunks ih => rw [List.map_cons, chunksOf, ih]

/-- **What a talk of `send` lines brings to the peer.** -/
theorem handed_talk (ht : Talks E₀ t p₀ c₀ (msgs.map (.send id)) t') (hm : ∀ msg ∈ msgs, Admitted msg) :
    handed t t' c₀ = (msgs.map CStr.bytes).map .data := by
  obtain ⟨hsome, htext⟩ := text_send id fun msg hmsg => (hm msg hmsg).2
  obtain ⟨new, hsends, hfile, htexts, -⟩ := ht.sends hsome
  have hall : new.filter (fun k => decide (k.file = some (.conn c₀))) = new :=
    List.filter_eq_self.2 fun k hk => decide_eq_true (hfile k hk)
  unfold handed
  rw [hsends, List.drop_left, hall, ← htext, ← htexts, List.map_map]
  rfl

theorem data_middle (hm : ∀ msg ∈ msgs, Admitted msg) :
    ∀ r ∈ (msgs.map CStr.bytes).map RecvResult.data, IsMiddle r := by
  intro r hr
  rw [List.map_map] at hr
  obtain ⟨msg, hmsg, rfl⟩ := List.mem_map.1 hr
  obtain ⟨hne, hlen⟩ := hm msg hmsg
  refine Or.inr ⟨_, rfl, hne, ?_⟩
  simp only [maxMsgLen, bufSize] at *
  omega

/-- A thread that has left its loop does not come back. -/
theorem left_step {x y : State × List RecvResult} (hq : x.1.mem.recv p = some q) (hout : ¬ q.InLoop)
    (h : feed E p x.1 x.2 = some y) : ∃ q', y.1.mem.recv p = some q' ∧ ¬ q'.InLoop := by
  obtain ⟨s, rs⟩ := x
  simp only at hq h
  have hstep : ∀ op q', connRecvThread s.mem p .ok q = some (op, .goto q') →
      y.1.mem.recv p = some q' := by
    intro op q' hc
    cases q <;> simp only [RecvPc.InLoop, not_true] at hout
    all_goals
      simp only [feed, hq, State.step, hc] at h
      split at h
      · simp at h
      · simp only [Option.map_some, Option.some.injEq] at h
        subst h
        simp [Mem.setRecv, Flow.lift]
  cases q with
  | top | inRecv c | got b => exact absurd trivial hout
  | lock =>
    by_cases hfree : s.mem.connMutex = none
    · exact ⟨.mark, hstep .lock .mark (by simp [connRecvThread, Mem.lock, hfree]), by simp [RecvPc.InLoop]⟩
    · simp [feed, hq, State.step, connRecvThread, Mem.lock, hfree] at h
  | mark => exact ⟨.unlock, hstep (.mark p) .unlock rfl, by simp [RecvPc.InLoop]⟩
  | unlock => exact ⟨.finished, hstep .unlock .finished rfl, by simp [RecvPc.InLoop]⟩
  | finished => simp [feed, hq, State.step, connRecvThread] at h

theorem left_later {x y : State × List RecvResult} {all : List RecvResult} (hq : x.1.mem.recv p = some q)
    (hout : ¬ q.InLoop) (h : (fed E p s₀ all).Later x y) : ∃ q', y.1.mem.recv p = some q' ∧ ¬ q'.InLoop := by
  refine h.inv (I := fun z => ∃ q', z.1.mem.recv p = some q' ∧ ¬ q'.InLoop) ?_ ⟨q, hq, hout⟩
  rintro z l z' ⟨q', hq', hout'⟩ hz
  exact left_step hq' hout' hz

/-- **Data and control, exactly when**: a user's messages were sent by `send` lines on one
connection. With what every `send()` has sent in a chunk of its own, the peer displays the
conversation unchanged and its loop goes on if and only if no message starts like the control
command. -/
theorem conversation_iff (ht : Talks E₀ t p₀ c₀ (msgs.map (.send id)) t')
    (h : s₀.Reads p .top c (chunksOf (handed t t' c₀)).flatten) (hfree : s₀.mem.connMutex = none)
    (hm : ∀ msg ∈ msgs, Admitted msg) :
    Converses E p s₀ (handed t t' c₀) msgs ↔ ∀ msg ∈ msgs, ¬ disconnect <+: msg.bytes := by
  rw [handed_talk ht hm] at h ⊢
  rw [chunksOf_data] at h
  have h0 : ∀ b ∈ msgs.map CStr.bytes, 0 ∉ b := by
    intro b hb
    obtain ⟨msg, -, rfl⟩ := List.mem_map.1 hb
    exact msg.noNul
  have hquiet : Quiet (msgs.map CStr.bytes) ↔ ∀ msg ∈ msgs, ¬ disconnect <+: msg.bytes := by
    rw [quiet_iff h0, List.forall_mem_map]
  have hmiddle := data_middle hm
  have hchunks := chunksOf_data (msgs.map CStr.bytes)
  generalize hrs : (msgs.map CStr.bytes).map RecvResult.data = rs at hmiddle hchunks ⊢
  have hstart := fed_start h hfree
  rw [← hchunks, ← List.append_nil (chunksOf rs).flatten] at hstart
  have hinit : (fed E p s₀ rs).Reachable (s₀, rs ++ []) := by
    rw [List.append_nil]
    exact .init
  obtain ⟨s₁, rs₁, inbox, ht₁, h₁, hq₁⟩ := fed_loop (E := E) hmiddle hinit hstart
  rw [List.nil_append, hchunks] at h₁
  rw [hchunks] at hq₁
  rw [← hquiet]
  constructor
  · -- a control command among the messages would take the thread out of its loop
    intro hconv
    by_contra hq
    rw [if_neg hq] at h₁
    exact hconv.1 _ ht₁ .lock h₁.pc
  · intro hq
    obtain ⟨rfl, rfl⟩ := hq₁ hq
    rw [if_pos hq] at h₁
    refine ⟨?_, s₁, ht₁, h₁.pc, ?_, by rw [h₁.node]⟩
    · -- the thread ends up waiting in `recv`; what comes before is in the loop too
      obtain ⟨s₂, hs₂, h₂⟩ := fed_call (E := E) h₁ []
      have ht₂ := fed_step ht₁ hs₂
      have hstuck : feed E p s₂ [] = none := by simp [feed, h₂.pc]
      intro x hx
      have hlater : (fed E p s₀ rs).Later x (s₂, []) := by
        rcases hx.later ht₂ with hl | ⟨ls, hls⟩
        · exact hl
        · cases ls with
          | nil =>
            obtain rfl : (s₂, []) = x := Option.some.inj hls
            exact ⟨[], rfl⟩
          | cons l ls => simp [Sync.Trans.run, Sync.Trans.Free, fed, hstuck] at hls
      intro q hpc
      by_contra hout
      obtain ⟨q', hpc', hout'⟩ := left_later hpc hout hlater
      rw [h₂.pc] at hpc'
      obtain rfl := Option.some.inj hpc'
      exact hout' trivial
    · rw [h₁.screen, shows_quiet h0 ((quiet_iff h0).1 hq)]
      simp

/-- Two messages that are no commands. -/
theorem conversation_iff_two :
    Converses .demo 0 (streamed (msgHi.bytes ++ msgOk.bytes))
        (handed (streamed []) (spoken (utters msgHi ++ utters msgOk)).1 0) [msgHi, msgOk] ↔
      ∀ msg ∈ [msgHi, msgOk], ¬ disconnect <+: msg.bytes := by
  have ht : Talks .demo (streamed []) 0 0 ([msgHi, msgOk].map (.send 1)) (spoken (utters msgHi ++ utters msgOk)).1 :=
    spoken_talks (by decide +kernel) (by decide +kernel)
  exact conversation_iff (c := 0) ht ⟨by decide +kernel, by decide +kernel, by decide +kernel, by decide +kernel⟩
    (by decide +kernel) (by simp [Admitted, msgHi, msgOk, maxMsgLen])

/-- The message `CMD:DISCONNECT`. -/
def msgCommand : CStr := ⟨disconnect, by decide⟩

/-- **A message that ends the conversation.** -/
theorem message_disconnects : ¬ ∀ (E₀ E : Env) (t t' : State) (p₀ : Ptr) (c₀ : Sock) (id : BitVec 32)
    (msgs : List CStr) (s : State) (p : Ptr) (c : Sock), Talks E₀ t p₀ c₀ (msgs.map (.send id)) t' →
    s.Reads p .top c (chunksOf (handed t t' c₀)).flatten → s.mem.connMutex = none → (∀ msg ∈ msgs, Admitted msg) →
    Converses E p s (handed t t' c₀) msgs := by
  intro h
  have hadm : ∀ msg ∈ [msgCommand], Admitted msg := by simp [Admitted, msgCommand, disconnect, maxMsgLen]
  have ht : Talks .demo (streamed []) 0 0 ([msgCommand].map (.send 1)) (spoken (utters msgCommand)).1 :=
    spoken_talks (by decide +kernel) (by decide +kernel)
  have hrs := handed_talk ht hadm
  have hread : (streamed disconnect).Reads 0 .top 0 disconnect :=
    ⟨by decide +kernel, by decide +kernel, by decide +kernel, by decide +kernel⟩
  have hfree : (streamed disconnect).mem.connMutex = none := by decide +kernel
  have hconv := h .demo .demo _ _ 0 0 1 [msgCommand] _ 0 0 ht (by rw [hrs]; exact hread) hfree hadm
  rw [hrs] at hconv
  obtain ⟨s₁, hs₁, h₁⟩ := fed_call (E := .demo) (fed_start hread hfree) [.data disconnect]
  have h₁' : Fed _ s₁ 0 0 (.inRecv 0) (disconnect ++ []) [] := h₁
  obtain ⟨s₂, hs₂, h₂⟩ := fed_take (E := .demo) h₁' (by decide) []
  obtain ⟨s₃, hs₃, h₃⟩ := fed_show (E := .demo) h₂ []
  exact hconv.1 _ (fed_step (fed_step (fed_step .init hs₁) hs₂) hs₃) .lock h₃.pc

end Chat
