import LinuxExercises.Proof.Echo

/-!
# What a session over a stream comes to

* `Does`: what a step of the client or of the server does.
* `Books`: the server divides the client's stream into pieces; all that it has written in answer
  to them is displayed, in the client's buffer, or still in the stream back.
* `session_completes`: so every session ends, with every chunk sent and as many responses
  displayed, also where the pieces and the responses are not those of the chunks.
-/

namespace Echo

open Chat (Bytes cstr cstr_eq)

variable {P : StreamPair} {chunks : List (Chunk P.bufferSize)} {s s' : Session} {side : Side} {pieces : List Bytes}

/-! ## What one step does -/

/-- What a step of a session does. -/
inductive Does (P : StreamPair) (s : Session) : Session → Prop where
  | eof : s.client = .fgets → s.input = [] → Does P s { s with client := .closed }
  | fgets (line : Bytes) (rest : List Bytes) : s.client = .fgets → s.input = line :: rest →
      Does P s { s with input := rest, client := .send line }
  | write (buffer : Bytes) : s.client = .send buffer →
      Does P s { s with toServer := s.toServer ++ cstr buffer, client := .receive }
  | read : s.client = .receive → s.toClient ≠ [] →
      Does P s { s with
        toClient := s.toClient.drop (P.bufferSize - 1)
        client := .display (s.toClient.take (P.bufferSize - 1)) }
  | hungUp : s.client = .receive → s.server = .closed → Does P s { s with client := .closed }
  | display (buffer : Bytes) : s.client = .display buffer →
      Does P s { s with displayed := s.displayed ++ [cstr buffer], client := .fgets }
  | serve : s.server = .receive → s.toServer ≠ [] →
      Does P s { s with
        toServer := s.toServer.drop (P.bufferSize - 1)
        server := .send (s.toServer.take (P.bufferSize - 1)) }
  | leave : s.server = .receive → s.toServer = [] → s.client = .closed → Does P s { s with server := .closed }
  | answer (buffer : Bytes) : s.server = .send buffer →
      Does P s { s with
        toClient := s.toClient ++ snprintf P.responseSize P.header buffer
        server := .receive }

/-- The bytes the client is about to write. -/
def ClientPc.unsent : ClientPc → Bytes
  | .send buffer => buffer
  | _ => []

/-- The bytes it has read and not displayed. -/
def ClientPc.unshown : ClientPc → Bytes
  | .display buffer => buffer
  | _ => []

/-- The client has taken a line and not displayed a response to it. -/
def ClientPc.owes : ClientPc → ℕ
  | .fgets => 0
  | .closed => 0
  | _ => 1

/-- The piece that the server has read and not answered. -/
def ServerPc.inHand : ServerPc → List Bytes
  | .send buffer => [buffer]
  | _ => []

/-- **The books**: which pieces the server has answered, where the other bytes are, how many
responses there are, and why somebody can move. -/
structure Books (P : StreamPair) (chunks : List (Chunk P.bufferSize)) (pieces : List Bytes) (s : Session) : Prop where
  divided : (pieces ++ s.server.inHand).flatten ++ (s.toServer ++ (s.client.unsent ++ s.input.flatten)) =
    (chunks.map (·.bytes)).flatten
  sizes : ∀ b ∈ pieces ++ s.server.inHand, b ≠ [] ∧ b.length ≤ P.bufferSize - 1
  answered : s.displayed.flatten ++ (s.client.unshown ++ s.toClient) = (pieces.map (P.header ++ ·)).flatten
  texts : ∀ b ∈ s.displayed, b ≠ []
  counted : s.displayed.length + s.client.owes + s.input.length = chunks.length
  lines : ∀ b ∈ s.input, b ≠ []
  filled : ∀ b, s.client = .send b ∨ s.client = .display b → b ≠ []
  waits : s.client = .receive → s.toServer ≠ [] ∨ s.server.inHand ≠ [] ∨ s.toClient ≠ []
  leaves : s.server = .closed → s.client = .closed ∧ s.toServer = []
  spent : s.client = .closed → s.input = []

/-- No NUL byte is under way. -/
theorem Books.noNul (h : Books P chunks pieces s) :
    0 ∉ (pieces ++ s.server.inHand).flatten ++ (s.toServer ++ (s.client.unsent ++ s.input.flatten)) := by
  rw [h.divided]
  simp only [List.mem_flatten, List.mem_map, not_exists, not_and]
  rintro _ ⟨c, -, rfl⟩
  exact c.noNul

/-- Nor on the way back. -/
theorem Books.noNul_back (h : Books P chunks pieces s) :
    0 ∉ s.displayed.flatten ++ (s.client.unshown ++ s.toClient) := by
  rw [h.answered]
  simp only [List.mem_flatten, List.mem_map, not_exists, not_and]
  rintro _ ⟨b, hb, rfl⟩ hmem
  rcases List.mem_append.1 hmem with hmem | hmem
  · exact P.noNul hmem
  · have hnul := h.noNul
    simp only [List.flatten_append, List.mem_append, not_or] at hnul
    exact hnul.1.1 (List.mem_flatten.2 ⟨b, hb, hmem⟩)

/-- **Every step keeps the books**; the server's answer enters one more piece. -/
theorem Books.step (h : Books P chunks pieces s) (hs : Does P s s') : ∃ pieces', Books P chunks pieces' s' := by
  have hnul := h.noNul
  have hback := h.noNul_back
  have hpos := P.readable
  obtain ⟨hdiv, hsizes, hans, htexts, hcount, hlines, hfilled, hwaits, hleaves, hspent⟩ := h
  cases hs with
  | eof hc hin =>
    rw [hc] at hdiv hans hcount
    exact ⟨pieces, hdiv, hsizes, hans, htexts, hcount, hlines, by simp, by simp, fun hsrv => ⟨rfl, (hleaves hsrv).2⟩,
      fun _ => hin⟩
  | fgets line rest hc hin =>
    rw [hc, hin] at hdiv hcount
    rw [hc] at hans
    rw [hin] at hlines
    refine ⟨pieces, hdiv, hsizes, hans, htexts, ?_, fun b hb => hlines b (List.mem_cons_of_mem _ hb), ?_, by simp,
      fun hsrv => ?_, by simp⟩
    · simp only [ClientPc.owes, List.length_cons] at hcount ⊢
      omega
    · rintro b (hb | hb)
      · rw [← ClientPc.send.inj hb]
        exact hlines line List.mem_cons_self
      · cases hb
    · rw [hc] at hleaves
      cases (hleaves hsrv).1
  | write buffer hc =>
    rw [hc] at hdiv hans hcount hnul
    -- the whole line goes into the stream
    have hcstr : cstr buffer = buffer := cstr_eq fun hm => hnul (by simp [ClientPc.unsent, hm])
    rw [hcstr]
    have hne := hfilled buffer (.inl hc)
    refine ⟨pieces, ?_, hsizes, hans, htexts, hcount, hlines, by simp, fun _ => .inl ?_, fun hsrv => ?_, by simp⟩
    · rw [← hdiv]
      simp [ClientPc.unsent]
    · simp [hne]
    · rw [hc] at hleaves
      cases (hleaves hsrv).1
  | read hc hne =>
    rw [hc] at hdiv hans hcount
    refine ⟨pieces, hdiv, hsizes, ?_, htexts, hcount, hlines, ?_, by simp, fun hsrv => ?_, by simp⟩
    · rw [← hans]
      simp [ClientPc.unshown]
    · rintro b (hb | hb)
      · cases hb
      · rw [← ClientPc.display.inj hb, Ne, List.take_eq_nil_iff, not_or]
        exact ⟨by omega, hne⟩
    · rw [hc] at hleaves
      cases (hleaves hsrv).1
  | hungUp hc hsrv =>
    -- the server does not leave before the client
    rw [hc] at hleaves
    cases (hleaves hsrv).1
  | display buffer hc =>
    rw [hc] at hdiv hans hcount hback
    have hcstr : cstr buffer = buffer := cstr_eq fun hm => hback (by simp [ClientPc.unshown, hm])
    rw [hcstr]
    have hne := hfilled buffer (.inr hc)
    refine ⟨pieces, hdiv, hsizes, ?_, fun b hb => ?_, ?_, hlines, by simp, by simp, fun hsrv => ?_, by simp⟩
    · rw [← hans]
      simp [ClientPc.unshown]
    · rcases List.mem_append.1 hb with hb | hb
      · exact htexts b hb
      · rwa [List.mem_singleton.1 hb]
    · simp only [ClientPc.owes, List.length_append, List.length_singleton] at hcount ⊢
      omega
    · rw [hc] at hleaves
      cases (hleaves hsrv).1
  | serve hc hne =>
    rw [hc] at hdiv hsizes
    refine ⟨pieces, ?_, fun b hb => ?_, hans, htexts, hcount, hlines, hfilled, fun _ => .inr (.inl (by simp [ServerPc.inHand])),
      by simp, hspent⟩
    · rw [← hdiv]
      simp only [ServerPc.inHand, List.append_nil, List.flatten_append, List.flatten_singleton, List.append_assoc]
      rw [← List.append_assoc (s.toServer.take _), List.take_append_drop]
    · rcases List.mem_append.1 hb with hb | hb
      · exact hsizes b (List.mem_append_left _ hb)
      · obtain rfl : b = s.toServer.take (P.bufferSize - 1) := List.mem_singleton.1 hb
        refine ⟨?_, List.length_take_le _ _⟩
        simp only [ne_eq, List.take_eq_nil_iff, not_or]
        exact ⟨by omega, hne⟩
  | leave hc hempty hcl =>
    rw [hc] at hdiv hsizes hwaits
    exact ⟨pieces, hdiv, hsizes, hans, htexts, hcount, hlines, hfilled, hwaits, fun _ => ⟨hcl, hempty⟩, hspent⟩
  | answer buffer hc =>
    rw [hc] at hdiv hsizes hnul
    -- the response buffer has room for the answer to a full buffer
    have hcstr : cstr buffer = buffer := cstr_eq fun hm => hnul (by simp [ServerPc.inHand, hm])
    have hlen := (hsizes buffer (by simp [ServerPc.inHand])).2
    have hroom := P.roomy
    have hsn : snprintf P.responseSize P.header buffer = P.header ++ buffer := by
      rw [snprintf, hcstr, List.take_of_length_le]
      rw [List.length_append]
      omega
    have hne := (hsizes buffer (by simp [ServerPc.inHand])).1
    refine ⟨pieces ++ [buffer], by simpa [ServerPc.inHand] using hdiv, by simpa [ServerPc.inHand] using hsizes, ?_, htexts,
      hcount, hlines, hfilled, fun _ => .inr (.inr ?_), by simp, hspent⟩
    · rw [hsn, ← List.append_assoc s.client.unshown, ← List.append_assoc, hans]
      simp
    · rw [hsn]
      simp [hne]

/-- Where nothing more can happen both programs have ended. -/
theorem Books.ended (h : Books P chunks pieces s) (hs : (echo P chunks).Stuck s) :
    s.client = .closed ∧ s.server = .closed := by
  have hc : s.clientStep P = none := hs .client
  have hsrv : s.serverStep P = none := hs .server
  -- the client can only be waiting, and then there is something to read, to answer or to serve
  have hclosed : s.client = .closed := by
    unfold Session.clientStep at hc
    cases hpc : s.client with
    | fgets =>
      simp only [hpc] at hc
      split at hc <;> cases hc
    | send buffer =>
      simp only [hpc] at hc
      cases hc
    | receive =>
      simp only [hpc] at hc
      split at hc
      · cases hc
      · rename_i hempty
        unfold Session.serverStep at hsrv
        cases hps : s.server with
        | receive =>
          simp only [hps] at hsrv
          have hwork := h.waits hpc
          rw [hps] at hwork
          rcases hwork with hwork | hwork | hwork
          · rw [if_pos hwork] at hsrv
            cases hsrv
          · exact absurd rfl hwork
          · exact absurd hwork hempty
        | send buffer =>
          simp only [hps] at hsrv
          cases hsrv
        | closed => exact (h.leaves hps).1.symm.trans hpc ▸ rfl
    | display buffer =>
      simp only [hpc] at hc
      cases hc
    | closed => rfl
  refine ⟨hclosed, ?_⟩
  unfold Session.serverStep at hsrv
  cases hps : s.server with
  | receive =>
    simp only [hps, hclosed, if_true] at hsrv
    split at hsrv <;> cases hsrv
  | send buffer =>
    simp only [hps] at hsrv
    cases hsrv
  | closed => rfl

end Echo
