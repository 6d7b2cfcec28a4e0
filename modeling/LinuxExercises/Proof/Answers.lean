import LinuxExercises.Proof.Datagram
import LinuxExercises.Sync.Weight

/-!
# No answer is displayed twice

The Unix clients take each other's path, so an answer may arrive at another client, or nowhere.
Still, under every interleaving:

* `Moves`, `Serves`: what a step of a client or of the server does with the datagrams.
* `asked_typed`: a client has asked the messages of its first lines.
* `answered_once`: each text is displayed, by all clients together, at most as often as a message
  with this answer has been asked.
-/

namespace Datagram

open Chat (Bytes cstr)
open Echo (Chunk serverReceived snprintf)
open Sync (total total_update)

variable {ι : Type*} [DecidableEq ι] {P : Pair} {s s' : State ι} {i : ι} {t : Bytes}

/-! ## What one step does -/

/-- The client has no datagram in its buffer. -/
def ClientPc.bare : ClientPc → Bool
  | .send _ => false
  | .display _ => false
  | _ => true

/-- What a step of client `i` does. -/
inductive Moves (P : Pair) (s : State ι) (i : ι) : State ι → Prop where
  | goto (pc : ClientPc) (path : Option ι) : (s.client i).bare = true → pc.bare = true →
      Moves P s i { s.goto i pc with path }
  | fgets (line : Bytes) (lines : List Bytes) : s.client i = .fgets → s.input i = line :: lines →
      Moves P s i { s.goto i (.send (P.message line)) with input := Function.update s.input i lines }
  | send (message : Bytes) : s.client i = .send message →
      Moves P s i { s.goto i .receive with
        queue := s.queue ++ [(i, message)]
        asked := Function.update s.asked i (s.asked i ++ [message]) }
  | drop (datagram : Bytes) (inbox : List Bytes) : s.client i = .receive → s.inbox i = datagram :: inbox →
      Moves P s i { s.goto i .fgets with inbox := Function.update s.inbox i inbox }
  | receive (datagram : Bytes) (inbox : List Bytes) : s.client i = .receive → s.inbox i = datagram :: inbox →
      Moves P s i { s.goto i (.display (datagram.take (P.bufferSize - 1))) with
        inbox := Function.update s.inbox i inbox }
  | display (buffer : Bytes) (pc : ClientPc) : s.client i = .display buffer → pc.bare = true →
      Moves P s i { s.goto i pc with shown := Function.update s.shown i (s.shown i ++ [cstr buffer]) }

theorem client_moves (hs : s.clientStep P i = some s') : Moves P s i s' := by
  unfold State.clientStep at hs
  cases hpc : s.client i with
  | unlink =>
    simp only [hpc, Option.some.injEq] at hs
    exact hs ▸ .goto .bind none (by rw [hpc]; rfl) rfl
  | bind =>
    simp only [hpc] at hs
    split at hs
    · exact Option.some.inj hs ▸ .goto .fgets (some i) (by rw [hpc]; rfl) rfl
    · exact Option.some.inj hs ▸ .goto .ended s.path (by rw [hpc]; rfl) rfl
  | fgets =>
    simp only [hpc] at hs
    split at hs
    · cases P with
      | udp => exact Option.some.inj hs ▸ .goto .ended s.path (by rw [hpc]; rfl) rfl
      | unix => cases hs
    · rename_i line lines hin
      exact Option.some.inj hs ▸ .fgets line lines hpc hin
  | send message =>
    simp only [hpc, Option.some.injEq] at hs
    exact hs ▸ .send message hpc
  | receive =>
    simp only [hpc] at hs
    split at hs
    · cases hs
    · rename_i datagram inbox hin
      obtain rfl := Option.some.inj hs
      split
      · exact .drop datagram inbox hpc hin
      · exact .receive datagram inbox hpc hin
  | display buffer =>
    simp only [hpc, Option.some.injEq] at hs
    subst hs
    refine .display buffer _ hpc ?_
    split <;> rfl
  | close =>
    simp only [hpc, Option.some.injEq] at hs
    exact hs ▸ .goto .unlinkEnd s.path (by rw [hpc]; rfl) rfl
  | unlinkEnd =>
    simp only [hpc, Option.some.injEq] at hs
    exact hs ▸ .goto .ended none (by rw [hpc]; rfl) rfl
  | ended =>
    simp only [hpc] at hs
    cases hs

/-- What a step of the server does. -/
inductive Serves (P : Pair) (s : State ι) : State ι → Prop where
  | skip (i : ι) (datagram : Bytes) (queue : List (ι × Bytes)) : s.job = none → s.queue = (i, datagram) :: queue →
      Serves P s { s with queue, received := s.received ++ [(i, datagram)], job := none }
  | take (i : ι) (datagram : Bytes) (queue : List (ι × Bytes)) : s.job = none → s.queue = (i, datagram) :: queue →
      Serves P s { s with
        queue, received := s.received ++ [(i, datagram)], job := some (i, datagram.take (P.bufferSize - 1)) }
  | answer (i j : ι) (buffer : Bytes) : s.job = some (i, buffer) →
      Serves P s { s with
        job := none
        inbox := Function.update s.inbox j (s.inbox j ++ [snprintf P.responseSize serverReceived buffer])
        sent := s.sent ++ [(j, snprintf P.responseSize serverReceived buffer)] }
  | lose (i : ι) (buffer : Bytes) : s.job = some (i, buffer) → Serves P s { s with job := none }

theorem server_serves (hs : s.serverStep P = some s') : Serves P s s' := by
  unfold State.serverStep at hs
  cases hjob : s.job with
  | none =>
    simp only [hjob] at hs
    split at hs
    · cases hs
    · rename_i i datagram queue hqueue
      obtain rfl := Option.some.inj hs
      split
      · exact .skip i datagram queue hjob hqueue
      · exact .take i datagram queue hjob hqueue
  | some d =>
    obtain ⟨i, buffer⟩ := d
    simp only [hjob] at hs
    split at hs
    · rename_i j hdest
      exact Option.some.inj hs ▸ .answer i j buffer hjob
    · exact Option.some.inj hs ▸ .lose i buffer hjob

/-! ## The messages a client asks -/

/-- The message in the client's buffer. -/
def ClientPc.pending : ClientPc → List Bytes
  | .send message => [message]
  | _ => []

theorem ClientPc.bare_pending {pc : ClientPc} (h : pc.bare = true) : pc.pending = [] := by
  cases pc with
  | send => cases h
  | _ => rfl

/-- **A client asks the messages of its lines**, in their order. -/
def State.Typed (P : Pair) (input : ι → List (Chunk P.bufferSize)) (s : State ι) : Prop :=
  ∀ i, s.asked i ++ ((s.client i).pending ++ (s.input i).map P.message) = (input i).map fun c => P.message c.bytes

variable {input : ι → List (Chunk P.bufferSize)}

/-- A step of a client. -/
theorem State.Typed.move (h : s.Typed P input) (hm : Moves P s i s') : s'.Typed P input := by
  intro j
  rw [← h j]
  by_cases hj : j = i
  · subst hj
    cases hm with
    | goto pc path hold hpc =>
      simp only [State.goto, Function.update_self]
      rw [ClientPc.bare_pending hold, ClientPc.bare_pending hpc]
    | fgets line lines hpc hin =>
      simp only [State.goto, Function.update_self]
      rw [hpc, hin]
      rfl
    | send message hpc =>
      simp only [State.goto, Function.update_self]
      rw [hpc]
      simp [ClientPc.pending]
    | drop datagram inbox hpc hin =>
      simp only [State.goto, Function.update_self]
      rw [hpc]
      rfl
    | receive datagram inbox hpc hin =>
      simp only [State.goto, Function.update_self]
      rw [hpc]
      rfl
    | display buffer pc hpc hbare =>
      simp only [State.goto, Function.update_self]
      rw [hpc, ClientPc.bare_pending hbare]
      rfl
  · cases hm <;> simp only [State.goto, Function.update_of_ne hj]

theorem asked_typed (h : (exchange P input).Reachable s) : s.Typed P input := by
  refine h.inv (I := State.Typed P input) (fun i => ?_) fun _ l _ _ hi _ hs => ?_
  · have hbare : (if P = .udp then ClientPc.fgets else ClientPc.unlink).pending = [] := by split <;> rfl
    show [] ++ ((if P = .udp then ClientPc.fgets else ClientPc.unlink).pending ++ ((input i).map (·.bytes)).map P.message) = _
    rw [hbare, List.map_map]
    rfl
  · cases l with
    | client i => exact State.Typed.move hi (client_moves hs)
    | server =>
      have hs := server_serves hs
      cases hs <;> exact hi

/-! ## The answers -/

/-- The server's answer to a datagram. -/
def Pair.reply (P : Pair) (datagram : Bytes) : Bytes :=
  snprintf P.responseSize serverReceived (datagram.take (P.bufferSize - 1))

/-- What a client displays of a datagram. -/
def Pair.shows (P : Pair) (datagram : Bytes) : Bytes := cstr (datagram.take (P.bufferSize - 1))

/-- The answer with text `t` is in the client's buffer. -/
def ClientPc.about (t : Bytes) : ClientPc → ℕ
  | .display buffer => if cstr buffer = t then 1 else 0
  | _ => 0

theorem ClientPc.bare_about {pc : ClientPc} (h : pc.bare = true) : pc.about t = 0 := by
  cases pc with
  | display => cases h
  | _ => rfl

/-- How often an answer with text `t` is displayed by one client. -/
def shownCount (t : Bytes) (texts : List Bytes) : ℕ := texts.count t

/-- How often it waits at a client. -/
def inboxCount (P : Pair) (t : Bytes) (inbox : List Bytes) : ℕ := (inbox.map P.shows).count t

/-- How often a message with this answer has been asked. -/
def askedCount (P : Pair) (t : Bytes) (messages : List Bytes) : ℕ := (messages.map fun m => P.shows (P.reply m)).count t

variable [Fintype ι]

/-- How often an answer with text `t` is displayed or under way. -/
def State.answered (P : Pair) (t : Bytes) (s : State ι) : ℕ :=
  total (shownCount t) s.shown + total (ClientPc.about t) s.client + total (inboxCount P t) s.inbox +
    askedCount P t (s.queue.map Prod.snd) +
    (s.job.toList.map fun d => P.shows (snprintf P.responseSize serverReceived d.2)).count t

theorem answered_move (hm : Moves P s i s') :
    s'.answered P t + total (askedCount P t) s.asked ≤ s.answered P t + total (askedCount P t) s'.asked := by
  unfold State.answered
  cases hm with
  | goto pc path hold hpc =>
    have hclient := total_update (w := ClientPc.about t) (f := s.client) i pc
    rw [ClientPc.bare_about hold, ClientPc.bare_about hpc] at hclient
    simp only [State.goto]
    omega
  | fgets line lines hpc hin =>
    have hclient := total_update (w := ClientPc.about t) (f := s.client) i (.send (P.message line))
    rw [hpc] at hclient
    simp only [State.goto, ClientPc.about] at hclient ⊢
    omega
  | send message hpc =>
    have hclient := total_update (w := ClientPc.about t) (f := s.client) i .receive
    have hasked := total_update (w := askedCount P t) (f := s.asked) i (s.asked i ++ [message])
    rw [hpc] at hclient
    simp only [State.goto, ClientPc.about, askedCount, List.map_append, List.count_append, List.map_cons,
      List.map_nil] at hclient hasked ⊢
    omega
  | drop datagram inbox hpc hin =>
    have hclient := total_update (w := ClientPc.about t) (f := s.client) i .fgets
    have hinbox := total_update (w := inboxCount P t) (f := s.inbox) i inbox
    rw [hpc] at hclient
    rw [hin] at hinbox
    simp only [State.goto, ClientPc.about, inboxCount, List.map_cons, List.count_cons] at hclient hinbox ⊢
    omega
  | receive datagram inbox hpc hin =>
    have hclient := total_update (w := ClientPc.about t) (f := s.client) i
      (.display (datagram.take (P.bufferSize - 1)))
    have hinbox := total_update (w := inboxCount P t) (f := s.inbox) i inbox
    rw [hpc] at hclient
    rw [hin] at hinbox
    simp only [State.goto, ClientPc.about, inboxCount, Pair.shows, List.map_cons, List.count_cons, beq_iff_eq]
      at hclient hinbox ⊢
    omega
  | display buffer pc hpc hbare =>
    have hclient := total_update (w := ClientPc.about t) (f := s.client) i pc
    have hshown := total_update (w := shownCount t) (f := s.shown) i (s.shown i ++ [cstr buffer])
    rw [hpc, ClientPc.bare_about hbare] at hclient
    simp only [State.goto, ClientPc.about, shownCount, List.count_append, List.count_singleton, beq_iff_eq]
      at hclient hshown ⊢
    omega

theorem answered_serve (hm : Serves P s s') : s'.asked = s.asked ∧ s'.answered P t ≤ s.answered P t := by
  unfold State.answered
  cases hm with
  | skip i datagram queue hjob hqueue =>
    refine ⟨rfl, ?_⟩
    simp only [hjob, hqueue, askedCount, List.map_cons, List.count_cons]
    omega
  | take i datagram queue hjob hqueue =>
    refine ⟨rfl, ?_⟩
    simp only [hjob, hqueue, askedCount, Pair.reply, List.map_cons, List.count_cons, Option.toList_some,
      Option.toList_none, List.map_nil, List.count_nil]
    omega
  | answer i j buffer hjob =>
    refine ⟨rfl, ?_⟩
    have hinbox := total_update (w := inboxCount P t) (f := s.inbox) j
      (s.inbox j ++ [snprintf P.responseSize serverReceived buffer])
    simp only [hjob, inboxCount, List.map_append, List.map_cons, List.map_nil, List.count_append, Option.toList_some,
      Option.toList_none, List.count_nil] at hinbox ⊢
    omega
  | lose i buffer hjob =>
    refine ⟨rfl, ?_⟩
    simp only [Option.toList_none, List.map_nil, List.count_nil]
    omega

theorem answered_reachable (h : (exchange P input).Reachable s) : s.answered P t ≤ total (askedCount P t) s.asked := by
  refine h.inv (I := fun s => s.answered P t ≤ total (askedCount P t) s.asked) ?_ fun _ l _ _ hi _ hs => ?_
  · have hbare : (if P = .udp then ClientPc.fgets else ClientPc.unlink).about t = 0 := by split <;> rfl
    simp [exchange, State.init, State.answered, total, shownCount, inboxCount, askedCount, hbare]
  · cases l with
    | client i =>
      have hstep := answered_move (t := t) (client_moves hs)
      omega
    | server =>
      obtain ⟨hasked, hle⟩ := answered_serve (t := t) (server_serves hs)
      rw [hasked]
      omega

/-- **No answer is displayed twice, and none is made up**: under every interleaving, whoever has
taken whose path, all clients together have displayed a text at most as often as messages with this
answer have been asked; and a client has asked the messages of its first lines. -/
theorem answered_once (h : (exchange P input).Reachable s) :
    (∀ t, ∑ i, (s.shown i).count t ≤ ∑ i, ((s.asked i).map fun m => P.shows (P.reply m)).count t) ∧
    ∀ i, s.asked i <+: (input i).map fun c => P.message c.bytes := by
  refine ⟨fun t => ?_, fun i => ?_⟩
  · have hle := answered_reachable (t := t) h
    have hshown : total (shownCount t) s.shown ≤ s.answered P t := by
      unfold State.answered
      omega
    exact hshown.trans hle
  · rw [← asked_typed h i]
    exact List.prefix_append _ _

/-- The second client takes the path, and the answer, of the first. -/
def stolen : List (Label Bool) := overlapping ++ clients true 4

theorem answered_once_stolen :
    ((exchange .unix twoLines).after Sync.Trans.Free stolen).shown true = [serverReceived ++ [104, 104]] ∧
    ∑ i, (((exchange .unix twoLines).after Sync.Trans.Free stolen).shown i).count (serverReceived ++ [104, 104]) ≤
      ∑ i, ((((exchange .unix twoLines).after Sync.Trans.Free stolen).asked i).map
        fun m => Pair.unix.shows (Pair.unix.reply m)).count (serverReceived ++ [104, 104]) :=
  ⟨by decide +kernel, (answered_once (Sync.Trans.reach_after stolen)).1 _⟩

end Datagram
