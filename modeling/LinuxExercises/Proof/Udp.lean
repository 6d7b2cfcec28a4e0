import LinuxExercises.Proof.Datagram
import LinuxExercises.Sync.Weight

/-!
# What the UDP clients come to

* `Round`: where the datagrams of one UDP client are, whatever the length of its lines.
* `round_client`, `round_server`: each step moves one client on, and leaves the others.
* `udp_outcome`: so every client comes to its end, and has displayed for each of its lines, in
  their order, as much of the answer as its buffer takes.
-/

namespace Datagram

open Chat (Bytes cstr cstr_eq)
open Echo (Chunk serverReceived snprintf)
open Sync (total total_update)

variable {ι : Type*} [DecidableEq ι] {s s' : State ι} {i j : ι} {m : Bytes}
variable {c : Chunk Pair.udp.bufferSize} {lines : List (Chunk Pair.udp.bufferSize)}
variable {input : ι → List (Chunk Pair.udp.bufferSize)}

/-! ## A line and its answer -/

/-- What a client displays for a line: the start of the answer, as much as its buffer takes. -/
def excerpt (c : Chunk Pair.udp.bufferSize) : Bytes := (answer c.bytes).take (Pair.udp.bufferSize - 1)

theorem message_bytes : Pair.udp.message c.bytes = c.bytes := cstr_eq c.noNul

theorem take_bytes : c.bytes.take (Pair.udp.bufferSize - 1) = c.bytes := List.take_of_length_le c.fits

/-- The server's response buffer cuts nothing off. -/
theorem snprintf_bytes : snprintf Pair.udp.responseSize serverReceived c.bytes = answer c.bytes := by
  have hfits : c.bytes.length ≤ 1023 := c.fits
  rw [snprintf, cstr_eq c.noNul, answer, List.take_of_length_le]
  simp only [List.length_append, serverReceived, List.length_cons, List.length_nil, Pair.responseSize]
  omega

theorem cstr_excerpt : cstr (excerpt c) = excerpt c := by
  refine cstr_eq fun hm => ?_
  have hm := List.mem_of_mem_take hm
  rcases List.mem_append.1 hm with hm | hm
  · exact absurd hm (by decide)
  · exact c.noNul hm

/-! ## The rounds of a client -/

/-- Where the datagrams of a client are: its program counter, its messages at the server, its
inbox, what it has displayed, and its input. -/
inductive Round (lines : List (Chunk Pair.udp.bufferSize)) :
    ClientPc → List Bytes → List Bytes → List Bytes → List Bytes → Prop where
  | fgets (done rest) : lines = done ++ rest → Round lines .fgets [] [] (done.map excerpt) (rest.map (·.bytes))
  | send (done c rest) : lines = done ++ c :: rest →
      Round lines (.send c.bytes) [] [] (done.map excerpt) (rest.map (·.bytes))
  | asked (done c rest) : lines = done ++ c :: rest →
      Round lines .receive [c.bytes] [] (done.map excerpt) (rest.map (·.bytes))
  | answered (done c rest) : lines = done ++ c :: rest →
      Round lines .receive [] [answer c.bytes] (done.map excerpt) (rest.map (·.bytes))
  | display (done c rest) : lines = done ++ c :: rest →
      Round lines (.display (excerpt c)) [] [] (done.map excerpt) (rest.map (·.bytes))
  | ended : Round lines .ended [] [] (lines.map excerpt) []

/-- Client `i` is in one of its rounds. -/
def State.round (s : State ι) (lines : List (Chunk Pair.udp.bufferSize)) (i : ι) : Prop :=
  Round lines (s.client i) (s.requests i) (s.inbox i) (s.shown i) (s.input i)

/-- What a message at the server says of its client. -/
theorem Round.asked_inv {pc : ClientPc} {r b w rest : List Bytes} (h : Round lines pc (m :: r) b w rest) :
    ∃ done c left, lines = done ++ c :: left ∧ pc = .receive ∧ m = c.bytes ∧ r = [] ∧ b = [] ∧ w = done.map excerpt ∧
      rest = left.map (·.bytes) := by
  cases h with
  | asked done c left hl => exact ⟨done, c, left, hl, rfl, rfl, rfl, rfl, rfl, rfl⟩

/-- A client in a round has displayed the excerpts of its first lines. -/
theorem Round.shown {pc : ClientPc} {r b w rest : List Bytes} (h : Round lines pc r b w rest) :
    w <+: lines.map excerpt := by
  cases h with
  | ended => exact List.prefix_rfl
  | _ =>
    rename_i hl
    rw [hl, List.map_append]
    exact List.prefix_append _ _

/-- The state holds the same for client `j`, and its input too. -/
structure Still (s s' : State ι) (j : ι) : Prop extends Same s s' j where
  input : s'.input j = s.input j

theorem Still.round (h : Still s s' j) (hr : s.round lines j) : s'.round lines j := by
  unfold State.round at hr ⊢
  rwa [h.client, h.requests, h.inbox, h.shown, h.input]

/-- One client moves, and the others are left alone. -/
theorem round_move (h : ∀ j, s.round (input j) j) (hstill : ∀ j, j ≠ i → Still s s' j) (hi : s'.round (input i) i) :
    ∀ j, s'.round (input j) j := by
  intro j
  by_cases hj : j = i
  · subst hj
    exact hi
  · exact (hstill j hj).round (h j)

/-- **A step of a client** takes it on in its round. -/
theorem round_client (h : ∀ j, s.round (input j) j) (hs : s.clientStep .udp i = some s') :
    ∀ j, s'.round (input j) j := by
  have hi := h i
  unfold State.round at hi
  generalize hpc : s.client i = pc, hreq : s.requests i = r, hbox : s.inbox i = b, hshown : s.shown i = w,
    hin : s.input i = rest at hi
  unfold State.clientStep at hs
  simp only [hpc] at hs
  cases hi with
  | fgets done rest hl =>
    cases rest with
    | nil =>
      -- the end of the input
      simp only [hin, List.map_nil, Option.some.injEq] at hs
      subst hs
      refine round_move h (fun j hj => ⟨same_goto hj, rfl⟩) ?_
      show Round (input i) (Function.update s.client i .ended i) (s.requests i) (s.inbox i) (s.shown i) (s.input i)
      rw [Function.update_self, hreq, hbox, hshown, hin, ← List.append_nil done, ← hl]
      exact .ended
    | cons c rest =>
      simp only [hin, List.map_cons, message_bytes, Option.some.injEq] at hs
      subst hs
      refine round_move h (fun j hj => ⟨same_goto hj, Function.update_of_ne hj _ _⟩) ?_
      show Round (input i) (Function.update s.client i (.send c.bytes) i) (s.requests i) (s.inbox i) (s.shown i)
        (Function.update s.input i (rest.map (·.bytes)) i)
      rw [Function.update_self, Function.update_self, hreq, hbox, hshown]
      exact .send done c rest hl
  | send done c rest hl =>
    simp only [Option.some.injEq] at hs
    subst hs
    refine round_move h (fun j hj => ⟨⟨Function.update_of_ne hj _ _, ?_, rfl, Function.update_of_ne hj _ _, rfl⟩, rfl⟩) ?_
    · simp [State.requests, State.goto, Ne.symm hj]
    · have hsent : ((s.job.toList ++ (s.queue ++ [(i, c.bytes)])).filter (·.1 = i)).map Prod.snd = [c.bytes] := by
        rw [← List.append_assoc, List.filter_append, List.map_append]
        change s.requests i ++ _ = _
        rw [hreq]
        simp
      show Round (input i) (Function.update s.client i .receive i)
        (((s.job.toList ++ (s.queue ++ [(i, c.bytes)])).filter (·.1 = i)).map Prod.snd) (s.inbox i) (s.shown i) (s.input i)
      rw [Function.update_self, hsent, hbox, hshown, hin]
      exact .asked done c rest hl
  | asked done c rest hl =>
    simp only [hbox] at hs
    cases hs
  | answered done c rest hl =>
    simp only [hbox, answer_ne_nil, and_false, if_false, Option.some.injEq] at hs
    subst hs
    refine round_move h (fun j hj => ⟨⟨Function.update_of_ne hj _ _, rfl, Function.update_of_ne hj _ _, rfl, rfl⟩, rfl⟩) ?_
    show Round (input i) (Function.update s.client i (.display (excerpt c)) i) (s.requests i)
      (Function.update s.inbox i [] i) (s.shown i) (s.input i)
    rw [Function.update_self, Function.update_self, hreq, hshown, hin]
    exact .display done c rest hl
  | display done c rest hl =>
    simp only [cstr_excerpt, hshown, if_true, Option.some.injEq] at hs
    subst hs
    refine round_move h (fun j hj => ⟨⟨Function.update_of_ne hj _ _, rfl, rfl, rfl, Function.update_of_ne hj _ _⟩, rfl⟩) ?_
    show Round (input i) (Function.update s.client i .fgets i) (s.requests i) (s.inbox i)
      (Function.update s.shown i (done.map excerpt ++ [excerpt c]) i) (s.input i)
    have hmap : done.map excerpt ++ [excerpt c] = (done ++ [c]).map excerpt := by simp
    rw [Function.update_self, Function.update_self, hreq, hbox, hin, hmap]
    exact .fgets (done ++ [c]) rest (by simp [hl])
  | ended => cases hs

/-- **A step of the server** takes the client on whose message it has. -/
theorem round_server (h : ∀ j, s.round (input j) j) (hs : s.serverStep .udp = some s') :
    ∀ j, s'.round (input j) j := by
  unfold State.serverStep at hs
  cases hjob : s.job with
  | none =>
    simp only [hjob] at hs
    cases hqueue : s.queue with
    | nil =>
      simp only [hqueue] at hs
      cases hs
    | cons d queue =>
      obtain ⟨i, datagram⟩ := d
      have hreq : s.requests i = datagram :: (queue.filter (·.1 = i)).map Prod.snd := by
        simp [State.requests, hjob, hqueue]
      have hi := h i
      unfold State.round at hi
      rw [hreq] at hi
      obtain ⟨done, c, rest, -, -, rfl, -⟩ := hi.asked_inv
      simp only [hqueue, take_bytes, Pair.skips, Bool.false_eq_true, if_false, Option.some.injEq] at hs
      subst hs
      -- it is in hand now, and was the first of the queue
      have hstill (j : ι) : Still s { s with
          queue, received := s.received ++ [(i, c.bytes)], job := some (i, c.bytes) } j :=
        ⟨⟨rfl, by simp [State.requests, hjob, hqueue], rfl, rfl, rfl⟩, rfl⟩
      exact fun j => (hstill j).round (h j)
  | some d =>
    obtain ⟨i, buffer⟩ := d
    have hreq : s.requests i = buffer :: (s.queue.filter (·.1 = i)).map Prod.snd := by
      simp [State.requests, hjob]
    have hi := h i
    unfold State.round at hi
    rw [hreq] at hi
    obtain ⟨done, c, rest, hl, hpc, rfl, hnone, hbox, hshown, hin⟩ := hi.asked_inv
    simp only [hjob, State.dest, snprintf_bytes, hbox, List.nil_append, Option.some.injEq] at hs
    subst hs
    refine round_move h (i := i) (fun j hj => ⟨⟨rfl, ?_, Function.update_of_ne hj _ _, rfl, rfl⟩, rfl⟩) ?_
    · simp [State.requests, hjob, Ne.symm hj]
    · show Round (input i) (s.client i) ((s.queue.filter (·.1 = i)).map Prod.snd)
        (Function.update s.inbox i [answer c.bytes] i) (s.shown i) (s.input i)
      rw [Function.update_self, hpc, hnone, hshown, hin]
      exact .answered done c rest hl

theorem round_reachable (h : (exchange .udp input).Reachable s) : ∀ j, s.round (input j) j := by
  refine h.inv (I := fun s => ∀ j, s.round (input j) j) (fun j => ?_) fun _ l _ _ hi _ hs => ?_
  · exact .fgets [] (input j) rfl
  · cases l with
    | client i => exact round_client hi hs
    | server => exact round_server hi hs

/-! ## The end -/

/-- Where nothing more can happen every client has ended. -/
theorem ended_of_stuck (h : ∀ j, s.round (input j) j) (hs : (exchange .udp input).Stuck s) (i : ι) :
    s.client i = .ended := by
  have hc : s.clientStep .udp i = none := hs (.client i)
  have hsrv : s.serverStep .udp = none := hs .server
  have hi := h i
  unfold State.round at hi
  generalize hpc : s.client i = pc, hreq : s.requests i = r, hbox : s.inbox i = b, s.shown i = w,
    hin : s.input i = rest at hi
  unfold State.clientStep at hc
  simp only [hpc] at hc
  cases hi with
  | fgets done rest hl =>
    simp only [hin] at hc
    split at hc <;> cases hc
  | send done c rest hl => cases hc
  | asked done c rest hl =>
    -- the server has the message in its queue or in hand
    unfold State.serverStep at hsrv
    cases hjob : s.job with
    | none =>
      simp only [hjob] at hsrv
      cases hqueue : s.queue with
      | nil => simp [State.requests, hjob, hqueue] at hreq
      | cons d queue =>
        simp only [hqueue] at hsrv
        cases hsrv
    | some d =>
      simp only [hjob, State.dest] at hsrv
      cases hsrv
  | answered done c rest hl =>
    simp only [hbox] at hc
    cases hc
  | display done c rest hl => cases hc
  | ended => rfl

/-- And where all have ended nothing more can happen, once the server has no datagram left. -/
theorem stuck_of_ended (hend : ∀ i, s.client i = .ended) (hjob : s.job = none) (hqueue : s.queue = []) :
    (exchange .udp input).Stuck s := by
  intro l
  cases l with
  | client i => simp [exchange, State.step, State.clientStep, hend i]
  | server => simp [exchange, State.step, State.serverStep, hjob, hqueue]

/-- The steps of a client to the end of its round. -/
def ClientPc.left : ClientPc → ℕ
  | .send _ => 6
  | .unlink => 3
  | .receive => 3
  | .bind => 2
  | .display _ => 2
  | .close => 2
  | .fgets => 1
  | .unlinkEnd => 1
  | .ended => 0

/-- What a client's step costs: a step, or a message for the server, or a line of input. -/
theorem client_cost (hs : s.clientStep .udp i = some s') : ∃ pc, s'.client = Function.update s.client i pc ∧ s'.job = s.job ∧
    ((pc.left < (s.client i).left ∧ s'.input = s.input ∧ s'.queue.length = s.queue.length) ∨
      (pc.left + 2 < (s.client i).left ∧ s'.input = s.input ∧ s'.queue.length = s.queue.length + 1) ∨
      (pc.left < (s.client i).left + 6 ∧ s'.queue.length = s.queue.length ∧
        ∃ line rest, s.input i = line :: rest ∧ s'.input = Function.update s.input i rest)) := by
  unfold State.clientStep at hs
  cases hpc : s.client i with
  | unlink =>
    simp only [hpc, Option.some.injEq] at hs
    subst hs
    exact ⟨.bind, rfl, rfl, .inl ⟨by decide, rfl, rfl⟩⟩
  | bind =>
    simp only [hpc] at hs
    split at hs
    · obtain rfl := Option.some.inj hs
      exact ⟨.fgets, rfl, rfl, .inl ⟨by decide, rfl, rfl⟩⟩
    · obtain rfl := Option.some.inj hs
      exact ⟨.ended, rfl, rfl, .inl ⟨by decide, rfl, rfl⟩⟩
  | fgets =>
    simp only [hpc] at hs
    split at hs
    · obtain rfl := Option.some.inj hs
      exact ⟨.ended, rfl, rfl, .inl ⟨by decide, rfl, rfl⟩⟩
    · rename_i line rest hin
      obtain rfl := Option.some.inj hs
      exact ⟨_, rfl, rfl, .inr (.inr ⟨by simp [ClientPc.left], rfl, line, rest, hin, rfl⟩)⟩
  | send m =>
    simp only [hpc, Option.some.injEq] at hs
    subst hs
    exact ⟨.receive, rfl, rfl, .inr (.inl ⟨by simp [ClientPc.left], rfl, by simp⟩)⟩
  | receive =>
    simp only [hpc] at hs
    split at hs
    · cases hs
    · obtain rfl := Option.some.inj hs
      refine ⟨_, rfl, rfl, .inl ⟨?_, rfl, rfl⟩⟩
      split
      · decide
      · simp [ClientPc.left]
  | display buffer =>
    simp only [hpc, if_true, Option.some.injEq] at hs
    subst hs
    exact ⟨.fgets, rfl, rfl, .inl ⟨by simp [ClientPc.left], rfl, rfl⟩⟩
  | close =>
    simp only [hpc, Option.some.injEq] at hs
    subst hs
    exact ⟨.unlinkEnd, rfl, rfl, .inl ⟨by decide, rfl, rfl⟩⟩
  | unlinkEnd =>
    simp only [hpc, Option.some.injEq] at hs
    subst hs
    exact ⟨.ended, rfl, rfl, .inl ⟨by decide, rfl, rfl⟩⟩
  | ended =>
    simp only [hpc] at hs
    cases hs

/-- What a step of the server costs: a message of the queue, or the one in hand. -/
theorem server_cost (hs : s.serverStep .udp = some s') : s'.client = s.client ∧ s'.input = s.input ∧
    2 * s'.queue.length + s'.job.toList.length < 2 * s.queue.length + s.job.toList.length := by
  unfold State.serverStep at hs
  cases hjob : s.job with
  | none =>
    simp only [hjob] at hs
    split at hs
    · cases hs
    · rename_i hqueue
      obtain rfl := Option.some.inj hs
      refine ⟨rfl, rfl, ?_⟩
      simp only [hqueue, Pair.skips, Bool.false_eq_true, if_false, Option.toList_some, Option.toList_none,
        List.length_cons, List.length_nil]
      omega
  | some d =>
    simp only [hjob, State.dest] at hs
    obtain rfl := Option.some.inj hs
    exact ⟨rfl, rfl, by simp⟩

variable [Fintype ι]

/-- The steps that are left: six for a line, of which two are the server's. -/
def State.left (s : State ι) : ℕ :=
  total ClientPc.left s.client + 6 * total List.length s.input + 2 * s.queue.length + s.job.toList.length

/-- **Every step leaves fewer steps.** -/
theorem left_step {l : Label ι} (hs : s.step .udp l = some s') : s'.left < s.left := by
  unfold State.left
  cases l with
  | client i =>
    obtain ⟨pc, hclient, hjob, hcost⟩ := client_cost (show s.clientStep .udp i = some s' from hs)
    have hleft := total_update (w := ClientPc.left) (f := s.client) i pc
    rw [hclient, hjob]
    rcases hcost with ⟨hpc, hin, hqueue⟩ | ⟨hpc, hin, hqueue⟩ | ⟨hpc, hqueue, line, rest, hline, hin⟩
    · rw [hin]
      omega
    · rw [hin]
      omega
    · have hinput := total_update (w := List.length) (f := s.input) i rest
      rw [hline, List.length_cons] at hinput
      rw [hin]
      omega
  | server =>
    obtain ⟨hclient, hin, hcost⟩ := server_cost (show s.serverStep .udp = some s' from hs)
    rw [hclient, hin]
    omega

/-- **The outcome with UDP**: whatever the schedule and the length of the lines, a run has at most
six steps for each line and one for each client; what a client has displayed is the start of the
answer to each of its first lines; and where nothing more can happen every client has ended and
displayed an answer to each of its lines. -/
theorem udp_outcome {ls : List (Label ι)}
    (h : (exchange .udp input).run Sync.Trans.Free (exchange .udp input).init ls = some s) :
    ls.length ≤ Fintype.card ι + 6 * ∑ i, (input i).length ∧
    (∀ i, s.shown i <+: (input i).map excerpt) ∧
    ((exchange .udp input).Stuck s → ∀ i, s.client i = .ended ∧ s.shown i = (input i).map excerpt) := by
  have hround := round_reachable (Sync.Trans.reach_of_run h)
  refine ⟨?_, fun i => (hround i).shown, fun hs i => ?_⟩
  · have hlen := Sync.Trans.run_length_le State.left (fun _ _ _ => left_step) h
    simpa [exchange, State.left, State.init, total, ClientPc.left] using hlen
  · have hend := ended_of_stuck hround hs i
    refine ⟨hend, ?_⟩
    have hi := hround i
    unfold State.round at hi
    rw [hend] at hi
    generalize s.requests i = r, s.inbox i = b, s.shown i = w, s.input i = rest at hi ⊢
    cases hi with
    | ended => rfl

/-- Two clients, each with a line of 1007 bytes, one after the other. -/
def longInTurn : List (Label Bool) :=
  clients false 2 ++ [.server, .server] ++ clients false 3 ++ clients true 2 ++ [.server, .server] ++ clients true 3

theorem udp_outcome_long :
    ((exchange .udp longLine).after Sync.Trans.Free longInTurn).shown true = [excerpt (line 1024 1006 (by decide))] := by
  have hrun : (exchange .udp longLine).run Sync.Trans.Free (exchange .udp longLine).init longInTurn =
      some ((exchange .udp longLine).after Sync.Trans.Free longInTurn) := Sync.Trans.run_eq_after (by decide +kernel)
  have hend : (∀ i, ((exchange .udp longLine).after Sync.Trans.Free longInTurn).client i = .ended) ∧
      ((exchange .udp longLine).after Sync.Trans.Free longInTurn).job = none ∧
      ((exchange .udp longLine).after Sync.Trans.Free longInTurn).queue = [] := by decide +kernel
  exact ((udp_outcome hrun).2.2 (stuck_of_ended hend.1 hend.2.1 hend.2.2) true).2

end Datagram
