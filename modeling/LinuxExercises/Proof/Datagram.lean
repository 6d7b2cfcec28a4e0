import LinuxExercises.Spec.Datagram
import LinuxExercises.Proof.Echo

/-!
# The echo pairs over datagrams

* `Stage`: where the datagrams of one client are, with what it has asked and displayed.
* `inv_step`: a step of a client or of the server moves one client from one stage to the
  next, and `CLIENT_PATH` stays the path of the client that needs it.
* `datagrams_answered`: **every datagram is answered, to its sender and in full**, when the
  messages have a good length and no client unlinks the path another one needs;
  `unanswered` has a run for each way to fail.
-/

namespace Datagram

open Chat (Bytes cstr cstr_eq)
open Echo (Chunk serverReceived snprintf)

variable {ι : Type*} [DecidableEq ι] {P : Pair} {s s' : State ι} {i j : ι} {m : Bytes}

/-! ## A message and its answer -/

/-- A message that is answered in full. -/
structure Good (P : Pair) (m : Bytes) : Prop where
  fits : P.Fits m
  noNul : 0 ∉ m

theorem Good.not_skips (h : Good P m) : P.skips m = false := by
  have hf := h.fits
  cases P with
  | udp => rfl
  | unix =>
    simp only [Pair.Fits] at hf
    simp only [Pair.skips, decide_eq_false_iff_not]
    omega

/-- The answer to a message. -/
def answer (m : Bytes) : Bytes := serverReceived ++ m

theorem Good.answer_length (h : Good P m) : (answer m).length ≤ P.bufferSize - 1 := by
  have hf := h.fits
  simp only [answer, List.length_append, serverReceived, List.length_cons, List.length_nil]
  cases P with
  | udp =>
    simp only [Pair.Fits] at hf
    simp only [Pair.bufferSize]
    omega
  | unix =>
    simp only [Pair.Fits] at hf
    simp only [Pair.bufferSize]
    omega

theorem Good.length_le (h : Good P m) : m.length ≤ P.bufferSize - 1 := by
  have hle := h.answer_length
  rw [answer, List.length_append] at hle
  omega

theorem Good.snprintf_eq (h : Good P m) : snprintf P.responseSize serverReceived m = answer m := by
  have hlen := h.answer_length
  have hsize : P.bufferSize - 1 ≤ P.responseSize - 1 := by cases P <;> decide
  rw [snprintf, cstr_eq h.noNul]
  exact List.take_of_length_le (hlen.trans hsize)

theorem Good.cstr_answer (h : Good P m) : cstr (answer m) = answer m := by
  refine cstr_eq ?_
  rw [answer, List.mem_append, not_or]
  exact ⟨by decide, h.noNul⟩

theorem answer_ne_nil : answer m ≠ [] := by simp [answer, serverReceived]

/-- A message has no NUL byte. -/
theorem message_noNul {b : Bytes} (h : 0 ∉ b) : 0 ∉ P.message b := by
  cases P with
  | udp => rwa [Pair.message, cstr_eq h]
  | unix =>
    rw [Pair.message, cstr_eq h]
    exact fun hm => h ((List.takeWhile_prefix _).subset hm)

/-! ## The stages of a client -/

/-- The messages of client `i` at the server: the one in hand and those in the queue. -/
def State.requests (s : State ι) (i : ι) : List Bytes :=
  ((s.job.toList ++ s.queue).filter (·.1 = i)).map Prod.snd

/-- Where the datagrams of a client are: its program counter, its messages at the server,
its inbox, what it has asked and what it has displayed. -/
inductive Stage (P : Pair) : ClientPc → List Bytes → List Bytes → List Bytes → List Bytes → Prop where
  | quiet {pc ms} : pc.inExchange = false → (∀ m, pc = .send m → 0 ∉ m) → Stage P pc [] [] ms (ms.map answer)
  | asked {m ms} : Good P m → Stage P .receive [m] [] (ms ++ [m]) (ms.map answer)
  | answered {m ms} : Good P m → Stage P .receive [] [answer m] (ms ++ [m]) (ms.map answer)
  | display {m ms} : Good P m → Stage P (.display (answer m)) [] [] (ms ++ [m]) (ms.map answer)

def State.stage (s : State ι) (P : Pair) (i : ι) : Prop :=
  Stage P (s.client i) (s.requests i) (s.inbox i) (s.asked i) (s.shown i)

/-- Each client is at a stage, the server has answered in turn, and the client that needs
`CLIENT_PATH` has it. -/
structure Inv (P : Pair) (s : State ι) : Prop where
  stages : ∀ i, s.stage P i
  lines : ∀ i, ∀ b ∈ s.input i, 0 ∉ b
  answers : s.received.map Prod.fst = s.sent.map Prod.fst ++ (s.job.map Prod.fst).toList
  named : P = .unix → ∀ i, s.needsPath i = true → s.path = some i

theorem Stage.quiet_inv {pc : ClientPc} {r b a w : List Bytes} (h : Stage P pc r b a w)
    (hq : pc.inExchange = false) : r = [] ∧ b = [] ∧ w = a.map answer ∧ ∀ m, pc = .send m → 0 ∉ m := by
  cases h with
  | quiet _ hm => exact ⟨rfl, rfl, rfl, hm⟩
  | asked => simp [ClientPc.inExchange] at hq
  | answered => simp [ClientPc.inExchange] at hq
  | display => simp [ClientPc.inExchange] at hq

/-- A client with a message at the server waits for its answer. -/
theorem Stage.asked_inv {pc : ClientPc} {r b a w : List Bytes} (h : Stage P pc (m :: r) b a w) :
    pc = .receive ∧ r = [] ∧ b = [] ∧ Good P m ∧ ∃ ms, a = ms ++ [m] ∧ w = ms.map answer := by
  cases h with
  | @asked m ms hg => exact ⟨rfl, rfl, rfl, hg, ms, rfl, rfl⟩

/-! ## One client moves -/

/-- The state holds the same for client `j`. -/
structure Same (s s' : State ι) (j : ι) : Prop where
  client : s'.client j = s.client j
  requests : s'.requests j = s.requests j
  inbox : s'.inbox j = s.inbox j
  asked : s'.asked j = s.asked j
  shown : s'.shown j = s.shown j

theorem Same.stage (h : Same s s' j) (hs : s.stage P j) : s'.stage P j := by
  unfold State.stage at *
  rwa [h.client, h.requests, h.inbox, h.asked, h.shown]

theorem Same.needsPath (h : Same s s' j) : s'.needsPath j = s.needsPath j := by
  unfold State.needsPath
  rw [h.client, h.inbox]

/-- A client's own step: it keeps what the others have, and the server's part. -/
theorem Inv.client_move (h : Inv P s) (hsame : ∀ j, j ≠ i → Same s s' j) (hstage : s'.stage P i)
    (hlines : ∀ j, s'.input j ⊆ s.input j) (hrec : s'.received = s.received) (hsent : s'.sent = s.sent)
    (hjob : s'.job = s.job) (hnamed : P = .unix → ∀ j, s'.needsPath j = true → s'.path = some j) : Inv P s' where
  stages := fun j => by
    by_cases hj : j = i
    · subst hj
      exact hstage
    · exact (hsame j hj).stage (h.stages j)
  lines := fun j b hb => h.lines j b (hlines j hb)
  answers := by
    rw [hrec, hsent, hjob]
    exact h.answers
  named := hnamed

/-- A step that leaves the path alone, of a client that needed it if it needs it now. -/
theorem Inv.named_keep (h : Inv P s) (hsame : ∀ j, j ≠ i → Same s s' j) (hpath : s'.path = s.path)
    (hi : s'.needsPath i = true → s.needsPath i = true) :
    P = .unix → ∀ j, s'.needsPath j = true → s'.path = some j := by
  intro hP j hj
  rw [hpath]
  by_cases hji : j = i
  · subst hji
    exact h.named hP j (hi hj)
  · exact h.named hP j ((hsame j hji).needsPath ▸ hj)

/-- A step that unlinks the path when no other client needs it. -/
theorem named_unlink (hsame : ∀ j, j ≠ i → Same s s' j) (hother : ∀ j, j ≠ i → s.needsPath j = false)
    (hi : s'.needsPath i = false) : P = .unix → ∀ j, s'.needsPath j = true → s'.path = some j := by
  intro _ j hj
  by_cases hji : j = i
  · subst hji
    simp [hi] at hj
  · rw [(hsame j hji).needsPath, hother j hji] at hj
    simp at hj

/-- Another client, at a step that changes the path and the input at most. -/
theorem same_goto {pc : ClientPc} {path : Option ι} {input : ι → List Bytes} (hj : j ≠ i) :
    Same s { s.goto i pc with path, input } j := ⟨Function.update_of_ne hj _ _, rfl, rfl, rfl, rfl⟩

/-- **A step outside the exchanges.** -/
theorem Inv.quiet_move (h : Inv P s) {pc : ClientPc} {path : Option ι} {input : ι → List Bytes}
    (hq : (s.client i).inExchange = false) (hpc : pc.inExchange = false) (hm : ∀ m, pc = .send m → 0 ∉ m)
    (hlines : ∀ j, input j ⊆ s.input j)
    (hnamed : P = .unix → ∀ j, State.needsPath { s.goto i pc with path, input } j = true → path = some j) :
    Inv P { s.goto i pc with path, input } := by
  refine h.client_move (fun j hj => same_goto hj) ?_ hlines rfl rfl rfl hnamed
  obtain ⟨hr, hb, hw, -⟩ := (h.stages i).quiet_inv hq
  show Stage P (Function.update s.client i pc i) (s.requests i) (s.inbox i) (s.asked i) (s.shown i)
  rw [Function.update_self, hr, hb, hw]
  exact .quiet hpc hm

/-- `bind`. -/
theorem inv_bind (h : Inv P s) (hpc : s.client i = .bind) (hs : s.clientStep P i = some s') : Inv P s' := by
  have hq : (s.client i).inExchange = false := by rw [hpc]; rfl
  simp only [State.clientStep, hpc] at hs
  by_cases hpath : s.path = none
  · rw [if_pos hpath, Option.some.injEq] at hs
    subst hs
    refine h.quiet_move hq rfl (by simp) (fun _ => List.Subset.refl _) fun hP j hj => ?_
    by_cases hji : j = i
    · rw [hji]
    · -- nobody else can need the path that is free
      have := h.named hP j ((same_goto hji).needsPath ▸ hj)
      simp [hpath] at this
  · rw [if_neg hpath, Option.some.injEq] at hs
    subst hs
    refine h.quiet_move hq rfl (by simp) (fun _ => List.Subset.refl _)
      (h.named_keep (fun j hj => same_goto hj) rfl ?_)
    simp [State.needsPath, State.goto]

/-- `fgets`. -/
theorem inv_fgets (h : Inv P s) (hpc : s.client i = .fgets) (hs : s.clientStep P i = some s') : Inv P s' := by
  have hq : (s.client i).inExchange = false := by rw [hpc]; rfl
  have hneed : s.needsPath i = true := by simp [State.needsPath, hpc]
  simp only [State.clientStep, hpc] at hs
  cases hin : s.input i with
  | nil =>
    simp only [hin] at hs
    cases P with
    | udp =>
      rw [Option.some.injEq] at hs
      subst hs
      exact h.quiet_move hq rfl (by simp) (fun _ => List.Subset.refl _)
        (h.named_keep (fun j hj => same_goto hj) rfl fun _ => hneed)
    | unix => simp at hs
  | cons line lines =>
    simp only [hin, Option.some.injEq] at hs
    subst hs
    refine h.quiet_move hq rfl ?_ (fun j => ?_) (h.named_keep (fun j hj => same_goto hj) rfl fun _ => hneed)
    · intro m hm
      rw [ClientPc.send.injEq] at hm
      subst hm
      exact message_noNul (h.lines i line (by simp [hin]))
    · by_cases hj : j = i
      · subst hj
        rw [Function.update_self, hin]
        exact List.subset_cons_self _ _
      · rw [Function.update_of_ne hj]
        exact List.Subset.refl _

/-- `sendto`, with a message that fits. -/
theorem inv_send (h : Inv P s) (hpc : s.client i = .send m) (hfit : P.Fits m) (hs : s.clientStep P i = some s') :
    Inv P s' := by
  have hst := h.stages i
  unfold State.stage at hst
  rw [hpc] at hst
  simp only [State.clientStep, hpc, Option.some.injEq] at hs
  subst hs
  obtain ⟨hr, hb, hw, hm⟩ := hst.quiet_inv rfl
  have hsame : ∀ j, j ≠ i → Same s
      { s.goto i .receive with
        queue := s.queue ++ [(i, m)]
        asked := Function.update s.asked i (s.asked i ++ [m]) } j := fun j hj => by
    refine ⟨Function.update_of_ne hj _ _, ?_, rfl, Function.update_of_ne hj _ _, rfl⟩
    simp [State.requests, State.goto, Ne.symm hj]
  have hneed : s.needsPath i = true := by simp [State.needsPath, hpc]
  refine h.client_move hsame ?_ (fun _ => List.Subset.refl _) rfl rfl rfl (h.named_keep hsame rfl fun _ => hneed)
  have hreq : ((s.job.toList ++ (s.queue ++ [(i, m)])).filter (·.1 = i)).map Prod.snd = [m] := by
    rw [← List.append_assoc, List.filter_append, List.map_append]
    change s.requests i ++ _ = _
    rw [hr]
    simp
  show Stage P (Function.update s.client i .receive i) (((s.job.toList ++ (s.queue ++ [(i, m)])).filter
    (·.1 = i)).map Prod.snd) (s.inbox i) (Function.update s.asked i (s.asked i ++ [m]) i) (s.shown i)
  rw [Function.update_self, Function.update_self, hreq, hb, hw]
  exact .asked ⟨hfit, hm m rfl⟩

/-- `recvfrom`: the answer has arrived, and it fits the buffer. -/
theorem inv_receive (h : Inv P s) (hpc : s.client i = .receive) (hs : s.clientStep P i = some s') : Inv P s' := by
  have hst := h.stages i
  unfold State.stage at hst
  rw [hpc] at hst
  simp only [State.clientStep, hpc] at hs
  cases hin : s.inbox i with
  | nil => simp [hin] at hs
  | cons datagram inbox =>
    simp only [hin, Option.some.injEq] at hs
    rw [hin] at hst
    generalize hreq : s.requests i = r, hask : s.asked i = a, hshow : s.shown i = w at hst
    cases hst with
    | @answered m ms hg =>
      have htake : (answer m).take (P.bufferSize - 1) = answer m := List.take_of_length_le hg.answer_length
      rw [if_neg (fun hc => answer_ne_nil hc.2), htake] at hs
      subst hs
      have hsame : ∀ j, j ≠ i → Same s
          { s.goto i (.display (answer m)) with inbox := Function.update s.inbox i [] } j := fun j hj =>
        ⟨Function.update_of_ne hj _ _, rfl, Function.update_of_ne hj _ _, rfl, rfl⟩
      refine h.client_move hsame ?_ (fun _ => List.Subset.refl _) rfl rfl rfl (h.named_keep hsame rfl ?_)
      · show Stage P (Function.update s.client i (.display (answer m)) i) (s.requests i)
          (Function.update s.inbox i [] i) (s.asked i) (s.shown i)
        rw [Function.update_self, Function.update_self, hreq, hask, hshow]
        exact .display hg
      · simp [State.needsPath, State.goto]

/-- `printf` of the answer. -/
theorem inv_display {buffer : Bytes} (h : Inv P s) (hpc : s.client i = .display buffer)
    (hs : s.clientStep P i = some s') : Inv P s' := by
  have hst := h.stages i
  unfold State.stage at hst
  rw [hpc] at hst
  simp only [State.clientStep, hpc, Option.some.injEq] at hs
  generalize hreq : s.requests i = r, hbox : s.inbox i = b, hask : s.asked i = a, hshow : s.shown i = w at hst hs
  cases hst with
  | quiet hq _ => simp [ClientPc.inExchange] at hq
  | @display m ms hg =>
    rw [hg.cstr_answer] at hs
    subst hs
    have hsame : ∀ j, j ≠ i → Same s
        { s.goto i (if P = .udp then .fgets else .close) with
          shown := Function.update s.shown i (ms.map answer ++ [answer m]) } j := fun j hj =>
      ⟨Function.update_of_ne hj _ _, rfl, rfl, rfl, Function.update_of_ne hj _ _⟩
    refine h.client_move hsame ?_ (fun _ => List.Subset.refl _) rfl rfl rfl ?_
    · show Stage P (Function.update s.client i (if P = .udp then .fgets else .close) i) (s.requests i)
        (s.inbox i) (s.asked i) (Function.update s.shown i (ms.map answer ++ [answer m]) i)
      rw [Function.update_self, Function.update_self, hreq, hbox, hask]
      have hmap : ms.map answer ++ [answer m] = (ms ++ [m]).map answer := by simp
      rw [hmap]
      cases P with
      | udp => exact .quiet rfl (by simp)
      | unix => exact .quiet rfl (by simp)
    · intro hP
      refine h.named_keep hsame rfl ?_ hP
      simp [State.needsPath, State.goto, hP]

/-- **A step of a client.** -/
theorem inv_client (h : Inv P s) (hU : Undisturbed P s (.client i)) (hs : s.clientStep P i = some s') :
    Inv P s' := by
  simp only [Undisturbed] at hU
  have hsub : ∀ j, s.input j ⊆ s.input j := fun _ => List.Subset.refl _
  cases hpc : s.client i with
  | unlink =>
    have hq : (s.client i).inExchange = false := by rw [hpc]; rfl
    simp only [hpc] at hU
    simp only [State.clientStep, hpc, Option.some.injEq] at hs
    subst hs
    refine h.quiet_move hq rfl (by simp) hsub (named_unlink (fun j hj => same_goto hj) hU ?_)
    simp [State.needsPath, State.goto]
  | bind => exact inv_bind h hpc hs
  | fgets => exact inv_fgets h hpc hs
  | send message =>
    simp only [hpc] at hU
    exact inv_send h hpc hU hs
  | receive => exact inv_receive h hpc hs
  | display buffer => exact inv_display h hpc hs
  | close =>
    have hq : (s.client i).inExchange = false := by rw [hpc]; rfl
    simp only [State.clientStep, hpc, Option.some.injEq] at hs
    subst hs
    refine h.quiet_move hq rfl (by simp) hsub (h.named_keep (fun j hj => same_goto hj) rfl ?_)
    simp [State.needsPath, State.goto]
  | unlinkEnd =>
    have hq : (s.client i).inExchange = false := by rw [hpc]; rfl
    simp only [hpc] at hU
    simp only [State.clientStep, hpc, Option.some.injEq] at hs
    subst hs
    refine h.quiet_move hq rfl (by simp) hsub (named_unlink (fun j hj => same_goto hj) hU ?_)
    simp [State.needsPath, State.goto]
  | ended => simp [State.clientStep, hpc] at hs

/-! ## The server moves -/

/-- The answer goes to the client that asked. -/
theorem Inv.dest_eq (h : Inv P s) (hpc : s.client i = .receive) (hbox : s.inbox i = []) : s.dest P i = some i := by
  cases hP : P with
  | udp => rfl
  | unix =>
    have hpath := h.named hP i (by simp [State.needsPath, hpc, hbox])
    simp [State.dest, hpath, hpc]

theorem inv_server (h : Inv P s) (hs : s.serverStep P = some s') : Inv P s' := by
  simp only [State.serverStep] at hs
  cases hjob : s.job with
  | none =>
    cases hqueue : s.queue with
    | nil => simp [hjob, hqueue] at hs
    | cons d queue =>
      obtain ⟨i, datagram⟩ := d
      -- the datagram is the message of a client that waits for its answer
      have hreq : s.requests i = datagram :: (queue.filter (·.1 = i)).map Prod.snd := by
        simp [State.requests, hjob, hqueue]
      have hst := h.stages i
      unfold State.stage at hst
      rw [hreq] at hst
      obtain ⟨-, -, -, hg, -⟩ := hst.asked_inv
      have htake : datagram.take (P.bufferSize - 1) = datagram := List.take_of_length_le hg.length_le
      simp only [hjob, hqueue, htake, hg.not_skips, Bool.false_eq_true, if_false, Option.some.injEq] at hs
      subst hs
      refine ⟨fun j => ?_, h.lines, ?_, h.named⟩
      · -- it is in hand now, and was the first of the queue
        have hsame : Same s { s with
            queue, received := s.received ++ [(i, datagram)], job := some (i, datagram) } j :=
          ⟨rfl, by simp [State.requests, hjob, hqueue], rfl, rfl, rfl⟩
        exact hsame.stage (h.stages j)
      · have := h.answers
        simp only [hjob, Option.map_none, Option.toList_none, List.append_nil] at this
        simp [this]
  | some d =>
    obtain ⟨i, buffer⟩ := d
    have hreq : s.requests i = buffer :: (s.queue.filter (·.1 = i)).map Prod.snd := by
      simp [State.requests, hjob]
    have hst := h.stages i
    unfold State.stage at hst
    rw [hreq] at hst
    obtain ⟨hpc, hnone, hbox, hg, ms, hask, hshow⟩ := hst.asked_inv
    simp only [hjob, h.dest_eq hpc hbox, hg.snprintf_eq, Option.some.injEq] at hs
    subst hs
    have hsame : ∀ j, j ≠ i → Same s { s with
        job := none
        inbox := Function.update s.inbox i (s.inbox i ++ [answer buffer])
        sent := s.sent ++ [(i, answer buffer)] } j := fun j hj =>
      ⟨rfl, by simp [State.requests, hjob, Ne.symm hj], Function.update_of_ne hj _ _, rfl, rfl⟩
    refine ⟨fun j => ?_, h.lines, ?_, ?_⟩
    · by_cases hj : j = i
      · subst hj
        show Stage P (s.client j) ((s.queue.filter (·.1 = j)).map Prod.snd)
          (Function.update s.inbox j (s.inbox j ++ [answer buffer]) j) (s.asked j) (s.shown j)
        rw [Function.update_self, hpc, hnone, hbox, hask, hshow]
        exact .answered hg
      · exact (hsame j hj).stage (h.stages j)
    · have := h.answers
      simp only [hjob, Option.map_some, Option.toList_some] at this
      simp [this]
    · intro hP j hj
      by_cases hji : j = i
      · subst hji
        simp [State.needsPath, hpc] at hj
      · exact h.named hP j ((hsame j hji).needsPath ▸ hj)

/-! ## Every run -/

theorem inv_init (input : ι → List (Chunk P.bufferSize)) : Inv P (.init P input) where
  stages := fun i => by
    show Stage P (if P = .udp then .fgets else .unlink) [] [] [] ([].map answer)
    cases P with
    | udp => exact .quiet rfl (by simp)
    | unix => exact .quiet rfl (by simp)
  lines := fun i b hb => by
    obtain ⟨c, -, rfl⟩ := List.mem_map.1 hb
    exact c.noNul
  answers := rfl
  named := by
    rintro rfl i hi
    simp [State.needsPath, State.init] at hi

theorem inv_reachable {input : ι → List (Chunk P.bufferSize)} (h : (exchange P input).Reach (Undisturbed P) s) :
    Inv P s :=
  h.inv (inv_init input) fun s l s' _ hI hU hs => by
    cases l with
    | client i => exact inv_client hI hU hs
    | server => exact inv_server hI hs

/-- A line of `n` letters. -/
def line (size n : ℕ) (h : n + 1 ≤ size - 1) : Chunk size where
  bytes := .replicate n 104 ++ [10]
  nonempty := by simp
  fits := by rw [List.length_append, List.length_replicate]; exact h
  noNul := by simp [List.mem_replicate]

/-- `n` steps of client `i`. -/
def clients (i : Bool) (n : ℕ) : List (Label (Bool)) := .replicate n (.client i)

/-- Two Unix clients, each with a line of two letters. -/
def twoLines (_ : Bool) : List (Chunk Pair.unix.bufferSize) := [line 256 2 (by decide)]

/-- A line of 1007 bytes to the UDP server. -/
def longLine (_ : Bool) : List (Chunk Pair.udp.bufferSize) := [line 1024 1006 (by decide)]

/-- The second client starts while the first one has not sent its message yet. -/
def overlapping : List (Label (Bool)) := clients false 3 ++ clients true 2 ++ clients false 1 ++ [.server, .server]

end Datagram
