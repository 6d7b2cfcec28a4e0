import LinuxExercises.Spec.Echo
import Mathlib.Tactic.Common

/-!
# The echo pairs over a stream

* `phase_reachable`: when every response fits the client's buffer, a session is a sequence
  of exchanges, each complete before the next one begins.
* `measure_step`: each step uses up input, bytes or a stage of an exchange, so that every
  session comes to an end.
* `echo_iff`: **a session echoes if and only if no chunk is so long that its response fills
  more than the client's buffer**; `long_chunk_shifts` is a session in which the end of one
  response is displayed as the response to the next message.
-/

namespace Echo

open Chat (Bytes cstr cstr_eq)

/-- The stages of an exchange, with the responses displayed before it and the chunks whose
response is still to be displayed. -/
inductive Phase (P : StreamPair) (d : List Bytes) : List (Chunk P.bufferSize) → Session → Prop where
  | idle (l) : Phase P d l ⟨l.map (·.bytes), .fgets, .receive, [], [], d⟩
  | sending (c l) : Phase P d (c :: l) ⟨l.map (·.bytes), .send c.bytes, .receive, [], [], d⟩
  | sent (c l) : Phase P d (c :: l) ⟨l.map (·.bytes), .receive, .receive, c.bytes, [], d⟩
  | answering (c l) : Phase P d (c :: l) ⟨l.map (·.bytes), .receive, .send c.bytes, [], [], d⟩
  | answered (c l) : Phase P d (c :: l) ⟨l.map (·.bytes), .receive, .receive, [], P.response c, d⟩
  | display (c l) : Phase P d (c :: l) ⟨l.map (·.bytes), .display (P.response c), .receive, [], [], d⟩
  | leaving : Phase P d [] ⟨[], .closed, .receive, [], [], d⟩
  | closed : Phase P d [] ⟨[], .closed, .closed, [], [], d⟩

variable {P : StreamPair} {chunks done left : List (Chunk P.bufferSize)} {c : Chunk P.bufferSize}
variable {s s' : Session} {side : Side}

/-! ## What the programs do with a chunk -/

theorem length_cstr_le (b : Bytes) : (cstr b).length ≤ b.length := (List.takeWhile_prefix _).length_le

theorem noNul_response : 0 ∉ P.response c := by
  rw [StreamPair.response, List.mem_append, not_or]
  exact ⟨P.noNul, c.noNul⟩

theorem response_ne_nil : P.response c ≠ [] := by
  rw [StreamPair.response, Ne, List.append_eq_nil_iff, not_and]
  exact fun _ => c.nonempty

/-- The response buffer cuts nothing off. -/
theorem snprintf_eq : snprintf P.responseSize P.header c.bytes = P.response c := by
  have hroom := P.roomy
  have hfits := c.fits
  rw [snprintf, cstr_eq c.noNul, StreamPair.response, List.take_of_length_le]
  rw [List.length_append]
  omega

/-! ## One exchange after the other -/

/-- The session is in an exchange, and all exchanges before it are complete. -/
def InPhase (P : StreamPair) (chunks : List (Chunk P.bufferSize)) (s : Session) : Prop :=
  ∃ l l', chunks = l ++ l' ∧ Phase P (l.map P.response) l' s

theorem phase_step (hfit : ∀ c ∈ chunks, (P.response c).length ≤ P.bufferSize - 1) (h : InPhase P chunks s)
    (hs : s.step P side = some s') : InPhase P chunks s' := by
  obtain ⟨done, left, rfl, hph⟩ := h
  cases hph with
  | idle left =>
    cases side with
    | client =>
      cases left with
      | nil =>
        -- the end of the input: the client closes its socket
        simp only [Session.step, Session.clientStep, List.map_nil, Option.some.injEq] at hs
        subst hs
        exact ⟨done, [], rfl, .leaving⟩
      | cons c left =>
        simp only [Session.step, Session.clientStep, List.map_cons, Option.some.injEq] at hs
        subst hs
        exact ⟨done, c :: left, rfl, .sending _ _⟩
    | server => simp [Session.step, Session.serverStep] at hs
  | sending c left =>
    cases side with
    | client =>
      simp only [Session.step, Session.clientStep, List.nil_append, cstr_eq c.noNul, Option.some.injEq] at hs
      subst hs
      exact ⟨done, c :: left, rfl, .sent _ _⟩
    | server => simp [Session.step, Session.serverStep] at hs
  | sent c left =>
    cases side with
    | client => simp [Session.step, Session.clientStep] at hs
    | server =>
      -- the whole chunk is in the stream, and fits the server's buffer
      have htake : c.bytes.take (P.bufferSize - 1) = c.bytes := List.take_of_length_le c.fits
      have hdrop : c.bytes.drop (P.bufferSize - 1) = [] := List.drop_eq_nil_of_le c.fits
      simp only [Session.step, Session.serverStep, ne_eq, c.nonempty, not_false_eq_true, if_true, htake,
        hdrop, Option.some.injEq] at hs
      subst hs
      exact ⟨done, c :: left, rfl, .answering _ _⟩
  | answering c left =>
    cases side with
    | client => simp [Session.step, Session.clientStep] at hs
    | server =>
      simp only [Session.step, Session.serverStep, List.nil_append, snprintf_eq, Option.some.injEq] at hs
      subst hs
      exact ⟨done, c :: left, rfl, .answered _ _⟩
  | answered c left =>
    cases side with
    | client =>
      -- the only step that needs the response to fit
      have hlen := hfit c (by simp)
      have htake : (P.response c).take (P.bufferSize - 1) = P.response c := List.take_of_length_le hlen
      have hdrop : (P.response c).drop (P.bufferSize - 1) = [] := List.drop_eq_nil_of_le hlen
      simp only [Session.step, Session.clientStep, ne_eq, response_ne_nil, not_false_eq_true, if_true, htake,
        hdrop, Option.some.injEq] at hs
      subst hs
      exact ⟨done, c :: left, rfl, .display _ _⟩
    | server => simp [Session.step, Session.serverStep] at hs
  | display c left =>
    cases side with
    | client =>
      simp only [Session.step, Session.clientStep, cstr_eq noNul_response, Option.some.injEq] at hs
      subst hs
      refine ⟨done ++ [c], left, by simp, ?_⟩
      rw [List.map_append]
      exact .idle _
    | server => simp [Session.step, Session.serverStep] at hs
  | leaving =>
    cases side with
    | client => simp [Session.step, Session.clientStep] at hs
    | server =>
      simp only [Session.step, Session.serverStep, ne_eq, not_true_eq_false, if_false, if_true,
        Option.some.injEq] at hs
      subst hs
      exact ⟨done, [], rfl, .closed⟩
  | closed =>
    cases side with
    | client => simp [Session.step, Session.clientStep] at hs
    | server => simp [Session.step, Session.serverStep] at hs

/-- **One exchange at a time**, as long as the responses fit the client's buffer. -/
theorem phase_reachable (hfit : ∀ c ∈ chunks, (P.response c).length ≤ P.bufferSize - 1)
    (h : (echo P chunks).Reachable s) : InPhase P chunks s :=
  h.inv ⟨[], chunks, rfl, .idle _⟩ fun _ _ _ _ hI _ hs => phase_step hfit hI hs

/-- Only at the end is nothing left to do. -/
theorem left_of_stuck {d : List Bytes} (h : Phase P d left s) (hs : (echo P chunks).Stuck s) : left = [] := by
  have hc : s.clientStep P = none := hs .client
  have hsrv : s.serverStep P = none := hs .server
  cases h with
  | idle left =>
    cases left with
    | nil => rfl
    | cons c left => simp [Session.clientStep] at hc
  | sending => simp [Session.clientStep] at hc
  | sent c left => simp [Session.serverStep, c.nonempty] at hsrv
  | answering => simp [Session.serverStep] at hsrv
  | answered => simp [Session.clientStep, response_ne_nil] at hc
  | display => simp [Session.clientStep] at hc
  | leaving => rfl
  | closed => rfl

/-- If the responses fit, the session echoes. -/
theorem echoes_of_fit (hfit : ∀ c ∈ chunks, (P.response c).length ≤ P.bufferSize - 1) : Echoes P chunks := by
  intro s hr
  obtain ⟨done, left, rfl, hph⟩ := phase_reachable hfit hr
  have hd : s.displayed = done.map P.response := by cases hph <;> rfl
  refine ⟨?_, fun hs => ?_⟩
  · rw [hd, List.map_append]
    exact List.prefix_append _ _
  · rw [hd, left_of_stuck hph hs, List.append_nil]

/-! ## Every session ends -/

/-- The steps of the client in its current round. -/
def ClientPc.rounds : ClientPc → ℕ
  | .fgets => 1
  | .send _ => 4
  | .receive => 3
  | .display _ => 2
  | .closed => 0

/-- The bytes the client is about to write. -/
def ClientPc.pending : ClientPc → ℕ
  | .send buffer => buffer.length
  | _ => 0

def ServerPc.rounds : ServerPc → ℕ
  | .receive => 1
  | .send _ => 2
  | .closed => 0

/-- What is left to do: the rounds of the client, and twice the bytes that the server may
still read. -/
def Session.size (s : Session) : ℕ :=
  4 * s.input.length + s.client.rounds + s.server.rounds +
    2 * (s.input.flatten.length + s.client.pending + s.toServer.length)

theorem measure_step (hs : s.step P side = some s') : s'.size < s.size := by
  have hpos := P.readable
  cases side with
  | client =>
    simp only [Session.step, Session.clientStep] at hs
    split at hs
    · split at hs
      · simp only [Option.some.injEq] at hs
        subst hs
        simp_all [Session.size, ClientPc.rounds, ClientPc.pending]
      · -- the line moves from the input to the buffer
        simp only [Option.some.injEq] at hs
        subst hs
        simp_all [Session.size, ClientPc.rounds, ClientPc.pending]
        omega
    · rename_i buffer hpc
      have hlen := length_cstr_le buffer
      simp only [Option.some.injEq] at hs
      subst hs
      simp only [Session.size, hpc, ClientPc.rounds, ClientPc.pending, List.length_append]
      omega
    · rename_i hpc
      split at hs
      · simp only [Option.some.injEq] at hs
        subst hs
        simp only [Session.size, hpc, ClientPc.rounds, ClientPc.pending]
        omega
      · split at hs
        · simp only [Option.some.injEq] at hs
          subst hs
          simp only [Session.size, hpc, ClientPc.rounds, ClientPc.pending]
          omega
        · simp at hs
    · rename_i hpc
      simp only [Option.some.injEq] at hs
      subst hs
      simp only [Session.size, hpc, ClientPc.rounds, ClientPc.pending]
      omega
    · simp at hs
  | server =>
    simp only [Session.step, Session.serverStep] at hs
    split at hs
    · rename_i hpc
      split at hs
      · -- each read takes at least a byte, which pays for the answer
        rename_i hne
        have hlen := List.length_pos_iff.2 hne
        simp only [Option.some.injEq] at hs
        subst hs
        simp only [Session.size, hpc, ServerPc.rounds, List.length_drop]
        omega
      · split at hs
        · simp only [Option.some.injEq] at hs
          subst hs
          simp only [Session.size, hpc, ServerPc.rounds]
          omega
        · simp at hs
    · rename_i hpc
      simp only [Option.some.injEq] at hs
      subst hs
      simp only [Session.size, hpc, ServerPc.rounds]
      omega
    · simp at hs

/-! ## What the client's buffer can show -/

/-- Nothing longer than the client's buffer is displayed. -/
def Shown (P : StreamPair) (s : Session) : Prop :=
  (∀ b ∈ s.displayed, b.length ≤ P.bufferSize - 1) ∧
    ∀ buffer, s.client = .display buffer → buffer.length ≤ P.bufferSize - 1

theorem shown_step (h : Shown P s) (hs : s.step P side = some s') : Shown P s' := by
  obtain ⟨hd, hb⟩ := h
  cases side with
  | client =>
    simp only [Session.step, Session.clientStep] at hs
    split at hs
    · split at hs <;> simp only [Option.some.injEq] at hs <;> subst hs <;> exact ⟨hd, by simp⟩
    · simp only [Option.some.injEq] at hs
      subst hs
      exact ⟨hd, by simp⟩
    · split at hs
      · simp only [Option.some.injEq] at hs
        subst hs
        refine ⟨hd, ?_⟩
        rintro buffer ⟨⟩
        exact List.length_take_le _ _
      · split at hs
        · simp only [Option.some.injEq] at hs
          subst hs
          exact ⟨hd, by simp⟩
        · simp at hs
    · rename_i buffer hpc
      simp only [Option.some.injEq] at hs
      subst hs
      refine ⟨fun b hm => ?_, by simp⟩
      rcases List.mem_append.1 hm with hm | hm
      · exact hd b hm
      · rw [List.mem_singleton.1 hm]
        exact (length_cstr_le buffer).trans (hb buffer hpc)
    · simp at hs
  | server =>
    simp only [Session.step, Session.serverStep] at hs
    split at hs
    · split at hs
      · simp only [Option.some.injEq] at hs
        subst hs
        exact ⟨hd, hb⟩
      · split at hs
        · simp only [Option.some.injEq] at hs
          subst hs
          exact ⟨hd, hb⟩
        · simp at hs
    · simp only [Option.some.injEq] at hs
      subst hs
      exact ⟨hd, hb⟩
    · simp at hs

/-- A session that echoes has displayed all responses at its end, so they fit. -/
theorem fit_of_echoes (h : Echoes P chunks) (hc : c ∈ chunks) : (P.response c).length ≤ P.bufferSize - 1 := by
  obtain ⟨s, hr, hs⟩ := (echo P chunks).exists_stuck Session.size (fun _ _ _ => measure_step) .init
  have hshown : Shown P s := by
    refine hr.inv ⟨?_, ?_⟩ fun _ _ _ _ hI _ hs => shown_step hI hs
    · simp [echo]
    · simp [echo]
  apply hshown.1
  rw [(h s hr).2 hs]
  exact List.mem_map_of_mem hc

/-- **A session echoes exactly when all responses fit the client's buffer.** -/
theorem echoes_iff : Echoes P chunks ↔ ∀ c ∈ chunks, (P.response c).length ≤ P.bufferSize - 1 :=
  ⟨fun h _ hc => fit_of_echoes h hc, echoes_of_fit⟩

/-- **When the two pairs echo**: the TCP pair up to 1007 bytes a chunk, the Unix pair, whose
header is a byte longer, up to 1006. -/
theorem echo_iff (chunks : List (Chunk 1024)) :
    (Echoes tcp chunks ↔ ∀ c ∈ chunks, c.bytes.length ≤ 1007) ∧
      (Echoes unixStream chunks ↔ ∀ c ∈ chunks, c.bytes.length ≤ 1006) := by
  constructor
  · refine (@echoes_iff tcp chunks).trans (forall₂_congr fun c _ => ?_)
    simp only [StreamPair.response, List.length_append, tcp, serverReceive, List.length_cons, List.length_nil]
    omega
  · refine (@echoes_iff unixStream chunks).trans (forall₂_congr fun c _ => ?_)
    simp only [StreamPair.response, List.length_append, unixStream, serverReceived, List.length_cons, List.length_nil]
    omega

/-- A line of `n` letters, with its newline. -/
def letters (n : ℕ) (h : n < 1023) : Chunk 1024 where
  bytes := .replicate n 120 ++ [10]
  nonempty := by simp
  fits := by rw [List.length_append, List.length_replicate]; exact h
  noNul := by simp [List.mem_replicate]

/-- A line of 1008 bytes. -/
def longChunk : Chunk 1024 := letters 1007 (by decide)

/-- The line `hi`. -/
def shortChunk : Chunk 1024 where
  bytes := [104, 105, 10]
  nonempty := by simp
  fits := by simp
  noNul := by simp

/-- Two exchanges, in which the server always answers before the client reads. -/
def twoExchanges : List Side :=
  [.client, .client, .server, .server, .client, .client, .client, .client, .server, .server, .client, .client]

/-- **A long line shifts the responses**: the first response is cut after 1023 bytes, and its
end is displayed as the start of the response to `hi`. -/
theorem long_chunk_shifts :
    ((echo tcp [longChunk, shortChunk]).after Sync.Trans.Free twoExchanges).displayed =
        [(serverReceive ++ longChunk.bytes).take 1023, 10 :: (serverReceive ++ shortChunk.bytes)] ∧
      ((echo unixStream [longChunk, shortChunk]).after Sync.Trans.Free twoExchanges).displayed =
        [(serverReceived ++ longChunk.bytes).take 1023, 120 :: 10 :: (serverReceived ++ shortChunk.bytes)] ∧
      ¬ Echoes tcp [longChunk, shortChunk] ∧ ¬ Echoes unixStream [longChunk, shortChunk] := by
  have htcp : ((echo tcp [longChunk, shortChunk]).after Sync.Trans.Free twoExchanges).displayed =
      [(serverReceive ++ longChunk.bytes).take 1023, 10 :: (serverReceive ++ shortChunk.bytes)] := by
    decide +kernel
  have hunix : ((echo unixStream [longChunk, shortChunk]).after Sync.Trans.Free twoExchanges).displayed =
      [(serverReceived ++ longChunk.bytes).take 1023, 120 :: 10 :: (serverReceived ++ shortChunk.bytes)] := by
    decide +kernel
  refine ⟨htcp, hunix, fun h => ?_, fun h => ?_⟩
  · have hd := (h _ (Sync.Trans.reach_after twoExchanges)).1
    rw [htcp] at hd
    exact absurd hd (by decide +kernel)
  · have hd := (h _ (Sync.Trans.reach_after twoExchanges)).1
    rw [hunix] at hd
    exact absurd hd (by decide +kernel)

end Echo
