import LinuxExercises.Proof.Talk

/-!
# Message boundaries

`cmd_send` writes a message's bytes and no more; `conn_recv_thread` takes what one `recv`
returns for one message.

* `receive_run`: what the receive thread displays for a stream that comes in given chunks.
* `delivers_iff`: **after a talk of `send` lines and `terminate` it is the messages and then the
  requested disconnect if and only if every `recv` returns the bytes of exactly one `send()`**.
* `merged_chunks`: TCP does not promise that.
-/

namespace Chat

/-- What is displayed for a stream in these chunks. -/
def shows : List Bytes → List Shown
  | [] => []
  | b :: chunks => (onData b).1 :: if (onData b).2 then shows chunks else []

/-! ## The receiver -/

variable {E : Env} {s : State} {p : Ptr} {c : Sock} {b : Bytes} {chunks : List Bytes}

theorem step_call (h : s.Reads p .top c b) :
    ∃ s', (chat E).step s (.recv p .ok) = some s' ∧ s'.Reads p (.inRecv c) c b ∧ s'.mem.screen = s.mem.screen := by
  refine ⟨⟨s.mem.setRecv p (.inRecv c), s.main, s.listener⟩, ?_, ⟨h.running, ?_, h.conn, h.inbox⟩, rfl⟩
  · simp [chat, State.step, h.running, h.pc, connRecvThread, h.conn, Flow.lift, Mem.apply]
  · simp [Mem.setRecv]

theorem step_take {rest : Bytes} (h : s.Reads p (.inRecv c) c (b ++ rest)) (hb : IsChunk b) :
    ∃ s', (chat E).step s (.recv p (.bytes b.length)) = some s' ∧ s'.Reads p (.got b) c rest ∧
      s'.mem.screen = s.mem.screen := by
  have hlen : 0 < b.length ∧ b.length ≤ bufSize - 1 ∧ b.length ≤ (s.mem.socks c).inbox.length :=
    ⟨List.length_pos_of_ne_nil hb.1, hb.2, by simp [h.inbox]⟩
  have htake : (s.mem.socks c).inbox.take b.length = b := by simp [h.inbox]
  refine ⟨⟨(s.mem.apply (.recv p) (.take p c b.length)).setRecv p (.got b), s.main, s.listener⟩, ?_,
    ⟨h.running, ?_, h.conn, ?_⟩, rfl⟩
  · simp only [chat, State.step, h.running, if_false, h.pc, connRecvThread, if_pos hlen, htake, Option.map_some,
      Flow.lift, id_eq]
  · simp [Mem.setRecv]
  · simp [Mem.setRecv, Mem.apply, Mem.setSock, h.inbox]

theorem step_show {rest : Bytes} (h : s.Reads p (.got b) c rest) :
    ∃ s', (chat E).step s (.recv p .ok) = some s' ∧ s'.Reads p (if (onData b).2 then .top else .lock) c rest ∧
      s'.mem.screen = s.mem.screen ++ [(p, (onData b).1)] := by
  refine ⟨⟨(s.mem.apply (.recv p) (.print p (onData b).1)).setRecv p (if (onData b).2 then .top else .lock),
    s.main, s.listener⟩, ?_, ⟨h.running, ?_, h.conn, h.inbox⟩, rfl⟩
  · simp only [chat, State.step, h.running, if_false, h.pc, connRecvThread, Option.map_some, Flow.lift, id_eq]
  · simp [Mem.setRecv]

/-- **The receive thread on a stream**: it displays `shows chunks`. -/
theorem receive_run : ∀ {chunks : List Bytes} {s : State}, s.Reads p .top c chunks.flatten →
    (∀ b ∈ chunks, IsChunk b) → ∃ s', (chat E).run Sync.Trans.Free s (receives p chunks) = some s' ∧
      s'.mem.screen = s.mem.screen ++ (shows chunks).map (p, ·) := by
  intro chunks
  induction chunks with
  | nil => intro s h _; exact ⟨s, rfl, by simp [shows]⟩
  | cons b chunks ih =>
    intro s h hb
    rw [List.flatten_cons] at h
    obtain ⟨s₁, h₁, hr₁, hs₁⟩ := step_call (E := E) h
    obtain ⟨s₂, h₂, hr₂, hs₂⟩ := step_take (E := E) hr₁ (hb b List.mem_cons_self)
    obtain ⟨s₃, h₃, hr₃, hs₃⟩ := step_show (E := E) hr₂
    -- the thread goes on with the rest, or is out of its loop
    have hrest : ∃ s', (chat E).run Sync.Trans.Free s₃ (if (onData b).2 then receives p chunks else []) = some s' ∧
        s'.mem.screen = s₃.mem.screen ++ (if (onData b).2 then shows chunks else []).map (p, ·) := by
      cases hon : (onData b).2 with
      | false => exact ⟨s₃, rfl, by simp⟩
      | true =>
        rw [hon] at hr₃
        exact ih hr₃ fun x hx => hb x (List.mem_cons_of_mem _ hx)
    obtain ⟨s', hrun, hscreen⟩ := hrest
    refine ⟨s', ?_, ?_⟩
    · simp only [receives, Sync.Trans.run, Sync.Trans.Free, if_true, h₁, Option.bind_some, h₂, h₃]
      exact hrun
    · rw [hscreen, hs₃, hs₂, hs₁]; simp [shows]

/-! ## What the chunks show -/

theorem onData_message {msg : CStr} (h : IsMessage msg) : onData msg.bytes = (.message msg.bytes, true) := by
  unfold onData
  rw [CStr.cstr_bytes, if_neg h.2.2]

theorem onData_shows_message {text : Bytes} (h : 0 ∉ b) (hs : (onData b).1 = .message text) :
    b = text ∧ (onData b).2 = true := by
  unfold onData at hs ⊢
  rw [cstr_eq h] at hs ⊢
  split at hs
  · cases hs
  · rename_i hn
    rw [if_neg hn]
    exact ⟨Shown.message.inj hs, rfl⟩

theorem onData_shows_disconnect (h : 0 ∉ b) (hs : (onData b).1 = .requestedDisconnect) :
    b.take 14 = disconnect ∧ (onData b).2 = false := by
  unfold onData at hs ⊢
  rw [cstr_eq h] at hs ⊢
  split at hs
  · rename_i hd
    rw [if_pos hd]
    exact ⟨hd, rfl⟩
  · cases hs

/-- **The display is the transcript exactly when the chunks are the sends.** -/
theorem shows_iff : ∀ {msgs : List CStr} {chunks : List Bytes}, (∀ msg ∈ msgs, IsMessage msg) →
    (∀ b ∈ chunks, IsChunk b) → chunks.flatten = (msgs.map CStr.bytes).flatten ++ disconnect →
    (shows chunks = transcript msgs ↔ chunks = msgs.map CStr.bytes ++ [disconnect]) := by
  intro msgs
  induction msgs with
  | nil =>
    intro chunks _ hb hflat
    constructor
    · intro hshow
      cases chunks with
      | nil => cases hshow
      | cons b chunks =>
        have hflat : b ++ chunks.flatten = disconnect := by simpa using hflat
        have hnul : 0 ∉ b := fun h0 => absurd (hflat ▸ List.mem_append_left _ h0) (by decide)
        have hfirst : (onData b).1 = .requestedDisconnect := (List.cons.inj hshow).1
        obtain ⟨htake, -⟩ := onData_shows_disconnect hnul hfirst
        have hlen : b.length + chunks.flatten.length = 14 := by
          rw [← List.length_append, hflat]; rfl
        have hge : 14 ≤ b.length := by
          have := congrArg List.length htake
          simp only [List.length_take, disconnect, List.length_cons, List.length_nil] at this
          omega
        have hrest : chunks.flatten = [] := List.eq_nil_of_length_eq_zero (by omega)
        have hnone : chunks = [] := by
          cases chunks with
          | nil => rfl
          | cons x chunks =>
            have hx := (hb x (by simp)).1
            exact absurd (List.append_eq_nil_iff.1 hrest).1 hx
        subst hnone
        simpa using hflat
    · rintro rfl
      decide
  | cons msg msgs ih =>
    intro chunks hm hb hflat
    have hmsg := hm msg List.mem_cons_self
    have htail : ∀ x ∈ msgs, IsMessage x := fun x hx => hm x (List.mem_cons_of_mem _ hx)
    constructor
    · intro hshow
      cases chunks with
      | nil => cases hshow
      | cons b chunks =>
        have hb' : ∀ x ∈ chunks, IsChunk x := fun x hx => hb x (List.mem_cons_of_mem _ hx)
        have hnul : 0 ∉ b := by
          intro h0
          have hin : 0 ∈ ((msg :: msgs).map CStr.bytes).flatten ++ disconnect := by
            rw [← hflat]; exact List.mem_append_left _ h0
          rcases List.mem_append.1 hin with hin | hin
          · obtain ⟨l, hl, h0⟩ := List.mem_flatten.1 hin
            obtain ⟨x, -, rfl⟩ := List.mem_map.1 hl
            exact x.noNul h0
          · exact absurd hin (by decide)
        have hfirst : (onData b).1 = .message msg.bytes := (List.cons.inj hshow).1
        obtain ⟨rfl, hon⟩ := onData_shows_message hnul hfirst
        have hrest : shows chunks = transcript msgs := by
          have := (List.cons.inj hshow).2
          rwa [if_pos hon] at this
        have hflat' : chunks.flatten = (msgs.map CStr.bytes).flatten ++ disconnect := by simpa using hflat
        rw [(ih htail hb' hflat').1 hrest]
        simp
    · rintro rfl
      have hb' : ∀ x ∈ msgs.map CStr.bytes ++ [disconnect], IsChunk x := fun x hx => hb x (List.mem_cons_of_mem _ hx)
      have hrest := (ih htail hb' (by simp)).2 rfl
      have hon := onData_message hmsg
      simp only [List.map_cons, List.cons_append, shows, hon, if_true, hrest]
      rfl

/-! ## The talk -/

variable {E₀ : Env} {t t' : State} {q : Ptr} {c₀ : Sock} {id : BitVec 32} {msgs : List CStr}

/-- The lines of a talk that `terminate` ends. -/
theorem text_talk (id : BitVec 32) (hm : ∀ msg ∈ msgs, IsMessage msg) :
    (∀ cmd ∈ msgs.map (Cmd.send id) ++ [Cmd.terminate id], cmd.text.isSome) ∧
      (msgs.map (Cmd.send id) ++ [Cmd.terminate id]).filterMap Cmd.text = msgs.map CStr.bytes ++ [disconnect] := by
  obtain ⟨hsome, htext⟩ := text_send id fun msg hmsg => (hm msg hmsg).2.1
  constructor
  · intro cmd hcmd
    rcases List.mem_append.1 hcmd with hcmd | hcmd
    · exact hsome cmd hcmd
    · obtain rfl := List.mem_singleton.1 hcmd
      rfl
  · rw [List.filterMap_append, htext]
    rfl

/-- **Message framing**: when the main thread of a process has worked off the `send` lines for
these messages and a `terminate` on one connection, the connection is shut down; and on a stream
that brings in chunks what was written, the peer's receive thread displays the messages, one
display each, and then the requested disconnect, if and only if every chunk is what one `send()`
wrote. -/
theorem delivers_iff (ht : Talks E₀ t q c₀ (msgs.map (.send id) ++ [.terminate id]) t')
    (hm : ∀ msg ∈ msgs, IsMessage msg) (hb : ∀ b ∈ chunks, IsChunk b)
    (hwire : (t'.mem.socks c₀).outbox = (t.mem.socks c₀).outbox ++ chunks.flatten)
    (hs : s.Reads p .top c chunks.flatten) :
    (t'.mem.socks c₀).shut = true ∧ (Delivers E s p chunks msgs ↔ chunks = msgs.map CStr.bytes ++ [disconnect]) := by
  obtain ⟨hsome, htext⟩ := text_talk id hm
  refine ⟨ht.shut hsome (List.mem_append_right _ List.mem_cons_self), ?_⟩
  have hflat : chunks.flatten = (msgs.map CStr.bytes).flatten ++ disconnect := by
    obtain ⟨-, -, -, -, hout⟩ := ht.sends hsome
    rw [htext, List.flatten_append, List.flatten_singleton] at hout
    exact List.append_cancel_left (hwire.symm.trans hout)
  obtain ⟨s', hrun, hscreen⟩ := receive_run (E := E) hs hb
  rw [← shows_iff hm hb hflat]
  constructor
  · rintro ⟨s₁, hrun₁, hscreen₁⟩
    obtain rfl : s' = s₁ := Option.some.inj (hrun.symm.trans hrun₁)
    have hmap := List.append_cancel_left (hscreen.symm.trans hscreen₁)
    exact List.map_injective_iff.2 (fun x y h => (Prod.mk.inj h).2) hmap
  · intro hshow
    exact ⟨s', hrun, by rw [hscreen, hshow]⟩

/-- A host with one connection, whose peer has sent a stream. -/
def streamed (stream : Bytes) : State :=
  (chat .demo).after Sync.Trans.Free (accepts 4 ++ listens 7 ++ [.peer 0 (.send stream)])

def msgOk : CStr := ⟨[111, 107], by decide⟩

/-- The main thread reads `send 1 …` and sends the message. -/
def utters (msg : CStr) : List Label := enters (.send 1 msg) ++ mains 5

/-- The main thread reads `terminate 1`; it waits for the receive thread, and removes the record. -/
def hangsUp : List Label := enters (.terminate 1) ++ mains 8 ++ .replicate 4 (.recv 0 .ok) ++ mains 6

/-- A host with one connection, behind these steps of a talk on it. -/
def spoken (ls : List Label) : State × List Cmd :=
  (talking .demo (streamed [])).after (fun x l => Carries 0 0 x.1 l) ls

theorem spoken_talks {ls : List Label} {cmds : List Cmd} (hcmds : (spoken ls).2 = cmds)
    (hback : (spoken ls).1.main = .loop) : Talks .demo (streamed []) 0 0 cmds (spoken ls).1 where
  reach := Sync.Trans.reach_after _
  idle := by decide +kernel
  opened := by decide +kernel
  run := hcmds ▸ Sync.Trans.reach_after ls
  back := hback

/-- Two messages, each in a chunk of its own. -/
theorem delivers_iff_two :
    ((spoken (utters msgHi ++ utters msgOk ++ hangsUp)).1.mem.socks 0).shut = true ∧
      (Delivers .demo (streamed (msgHi.bytes ++ msgOk.bytes ++ disconnect)) 0 [msgHi.bytes, msgOk.bytes, disconnect]
        [msgHi, msgOk] ↔ [msgHi.bytes, msgOk.bytes, disconnect] = [msgHi, msgOk].map CStr.bytes ++ [disconnect]) := by
  have ht : Talks .demo (streamed []) 0 0 ([msgHi, msgOk].map (.send 1) ++ [.terminate 1])
      (spoken (utters msgHi ++ utters msgOk ++ hangsUp)).1 := spoken_talks (by decide +kernel) (by decide +kernel)
  exact delivers_iff (c := 0) ht (by decide) (by decide) (by decide +kernel)
    ⟨by decide +kernel, by decide +kernel, by decide +kernel, by decide +kernel⟩

/-- **Merged chunks**: one message and the disconnect text come in one chunk, and the protocol
text is displayed as chat. -/
theorem merged_chunks : ¬ ∀ (E₀ E : Env) (t t' : State) (q : Ptr) (c₀ : Sock) (id : BitVec 32) (msgs : List CStr)
    (s : State) (p : Ptr) (c : Sock) (chunks : List Bytes),
    Talks E₀ t q c₀ (msgs.map (.send id) ++ [.terminate id]) t' → (∀ msg ∈ msgs, IsMessage msg) →
    (∀ b ∈ chunks, IsChunk b) → (t'.mem.socks c₀).outbox = (t.mem.socks c₀).outbox ++ chunks.flatten →
    s.Reads p .top c chunks.flatten → Delivers E s p chunks msgs := by
  intro h
  have ht : Talks .demo (streamed []) 0 0 ([msgHi].map (.send 1) ++ [.terminate 1]) (spoken (utters msgHi ++ hangsUp)).1 :=
    spoken_talks (by decide +kernel) (by decide +kernel)
  obtain ⟨s', hrun, hscreen⟩ := h .demo .demo _ _ 0 0 1 [msgHi] (streamed (msgHi.bytes ++ disconnect)) 0 0
    [msgHi.bytes ++ disconnect] ht (by decide) (by decide) (by decide +kernel)
    ⟨by decide +kernel, by decide +kernel, by decide +kernel, by decide +kernel⟩
  have hshown := congrArg (Option.map fun s => s.mem.screen) hrun
  rw [Option.map_some, hscreen] at hshown
  exact absurd hshown (by decide +kernel)

end Chat
