import LinuxExercises.Spec.Sends
import LinuxExercises.Proof.Sim

/-!
# p2pchat: sending to a dead peer

`send()` is called without `MSG_NOSIGNAL`, and nobody handles `SIGPIPE`.

* `sent_step`: on a connection that can be written the call comes back, on a broken one it
  ends the process.
* `sends_survive_iff`: **the process survives the sends of a run if and only if none of them
  is on a connection that the peer has reset or that was shut down here**.
-/

namespace Chat

open Sync

variable {E : Env} {s s' : State} {p : Ptr} {ch : Choice}

/-- Did the call write something, where it comes back? -/
def Mem.written (m : Mem) (p : Ptr) (ch : Choice) : Bool := ch = .ok ∧ (m.connOf p).isSome

/-- Where the caller of `send()` goes on. -/
def MainPc.behind (p : Ptr) (sent : Bool) : MainPc → MainPc
  | .send id text _ => .send id text (.unlock p sent)
  | .terminate id _ => .terminate id (.shutdown p)
  | .exit _ => .exit (.shutdown p)
  | q => q

/-- A call of `send()` and where it goes on. -/
theorem trySend_flow {α : Type} {m : Mem} {text : Bytes} {k : Bool → α} {op : Op} {f : Flow α}
    (h : m.trySend p text ch k = (op, f)) :
    (∃ sent, op = .send p text sent) ∧ f = if m.brokenPipe p then .killed else .goto (k (m.written p ch)) := by
  unfold Mem.trySend at h
  by_cases hb : m.brokenPipe p = true
  · rw [if_pos hb] at h ⊢
    simp only [Prod.mk.injEq] at h
    exact ⟨⟨false, h.1.symm⟩, h.2.symm⟩
  · rw [if_neg hb] at h ⊢
    simp only [Prod.mk.injEq] at h
    exact ⟨⟨_, h.1.symm⟩, h.2.symm⟩

/-- **One call of `send()`.** It changes no link and no record; the process ends, or the
caller goes on. -/
theorem sent_step (hp : s.main.sending = some p) (h : s.step E (.main ch) = some s') :
    SameRegistry s s' ∧
      s'.main = if s.mem.brokenPipe p then .ended else s.main.behind p (s.mem.written p ch) := by
  obtain ⟨m, main, listener⟩ := s
  simp only [State.step] at h
  split at h
  · simp at h
  obtain ⟨⟨op, q⟩, hstep, rfl⟩ := Option.map_eq_some_iff.1 h
  have key : ∀ {α : Type} (text : Bytes) (k : Bool → α) (op' : Op) (f : Flow α) (g : α → MainPc) (ret : MainPc),
      m.trySend p text ch k = (op', f) → (op', f.lift g ret .ended) = (op, q) →
      SameRegistry ⟨m, main, listener⟩ ⟨m.apply .main op, q, listener⟩ ∧
        q = if m.brokenPipe p then .ended else g (k (m.written p ch)) := by
    intro α text k op' f g ret hcall heq
    obtain ⟨rfl, rfl⟩ := Prod.mk.inj heq
    obtain ⟨⟨sent, rfl⟩, rfl⟩ := trySend_flow hcall
    refine ⟨⟨rfl, rfl, rfl⟩, ?_⟩
    split <;> rfl
  unfold MainPc.sending at hp
  split at hp
  · rename_i id text x hmain
    obtain rfl : x = p := Option.some.inj hp
    obtain rfl : main = _ := hmain
    simp only [mainStep] at hstep
    obtain ⟨⟨op', f⟩, hcall, heq⟩ := Option.map_eq_some_iff.1 hstep
    exact key text _ op' f _ _ (Option.some.inj hcall) heq
  · rename_i id x hmain
    obtain rfl : x = p := Option.some.inj hp
    obtain rfl : main = _ := hmain
    simp only [mainStep] at hstep
    obtain ⟨⟨op', f⟩, hcall, heq⟩ := Option.map_eq_some_iff.1 hstep
    exact key disconnect _ op' f _ _ (Option.some.inj hcall) heq
  · rename_i x hmain
    obtain rfl : x = p := Option.some.inj hp
    obtain rfl : main = _ := hmain
    simp only [mainStep] at hstep
    obtain ⟨⟨op', f⟩, hcall, heq⟩ := Option.map_eq_some_iff.1 hstep
    exact key disconnect _ op' f _ _ (Option.some.inj hcall) heq
  · simp at hp

/-- Behind the call the process goes on. -/
theorem behind_ne_ended {q : MainPc} (hp : q.sending = some p) (sent : Bool) : q.behind p sent ≠ .ended := by
  unfold MainPc.sending at hp
  split at hp
  · simp [MainPc.behind]
  · simp [MainPc.behind]
  · simp [MainPc.behind]
  · simp at hp

/-- Going on behind a call that has written nothing is coming back with the error. -/
theorem cameBack (hp : s.main.sending = some p) (hmain : s'.main = s.main.behind p false) (hsame : SameRegistry s s') :
    SendStep.CameBack ⟨p, ch, s, s'⟩ := by
  unfold SendStep.CameBack
  unfold MainPc.sending at hp
  split at hp
  · rename_i hm
    simp only [hm] at hmain ⊢
    exact ⟨hmain, hsame⟩
  · rename_i hm
    simp only [hm] at hmain ⊢
    exact hmain
  · rename_i hm
    simp only [hm] at hmain ⊢
    exact hmain
  · simp at hp

/-- The call survives exactly if the connection can be written. -/
theorem step_survives (hp : s.main.sending = some p) (h : s.step E (.main ch) = some s') :
    SendStep.Survived ⟨p, ch, s, s'⟩ ↔ SendStep.Writable ⟨p, ch, s, s'⟩ := by
  obtain ⟨hsame, hmain⟩ := sent_step hp h
  unfold SendStep.Survived SendStep.Writable SendStep.failed
  by_cases hb : s.mem.brokenPipe p = true
  · simp [hmain, hb]
  · have hb : s.mem.brokenPipe p = false := by simpa using hb
    rw [hb] at hmain
    simp only [Bool.false_eq_true, if_false] at hmain
    refine iff_of_true ⟨?_, fun hfailed => ?_⟩ hb
    · rw [hmain]
      exact behind_ne_ended hp _
    · have hnot : s.mem.written p ch = false := by
        simpa [hb, Mem.written, imp_iff_not_or] using hfailed
      rw [hnot] at hmain
      exact cameBack hp hmain hsame

/-- The calls are steps of the main thread. -/
theorem calls_reach {x : State × List SendStep} (h : (chatSends E).Reachable x) :
    ∀ c ∈ x.2, c.before.main.sending = some c.conn ∧ c.before.step E (.main c.choice) = some c.after := by
  refine h.inv (I := fun x => ∀ c ∈ x.2, c.before.main.sending = some c.conn ∧
    c.before.step E (.main c.choice) = some c.after) (by simp [chatSends, Sync.Trans.ghost]) ?_
  intro x l y _ hx _ hst
  obtain ⟨s', hs', rfl⟩ := Option.map_eq_some_iff.1 hst
  have hs' : x.1.step E l = some s' := hs'
  intro c hc
  simp only [noteSend, hs'] at hc
  split at hc
  · rename_i p ch t hp heq _ _
    rcases List.mem_cons.1 hc with rfl | hc
    · obtain rfl := Option.some.inj heq
      exact ⟨hp, hs'⟩
    · exact hx c hc
  · exact hx c hc

/-- **Sending to a dead peer**: in every run, each `send()` of the main thread that fails comes
back as an error and the process goes on behind each of them, if and only if none of them is
on a connection that the peer has reset or that was shut down here. -/
theorem sends_survive_iff {x : State × List SendStep} (h : (chatSends E).Reachable x) :
    (∀ c ∈ x.2, c.Survived) ↔ ∀ c ∈ x.2, c.Writable :=
  forall₂_congr fun c hc => step_survives (calls_reach h c hc).1 (calls_reach h c hc).2

/-- A peer that resets the connection, and a message for it: `recv` has returned the error to the
receive thread, which has not come to its last block yet. -/
def resets : List Label :=
  accepts 4 ++ listens 7 ++ [.recv 0 .ok, .peer 0 .reset, .recv 0 .fail] ++ enters (.send 1 msgHi) ++ mains 3

def resetRun : State × List SendStep := (chatSends .demo).after Sync.Trans.Free resets

theorem sends_survive_iff_resets : (∀ c ∈ resetRun.2, c.Survived) ↔ ∀ c ∈ resetRun.2, c.Writable :=
  sends_survive_iff (Sync.Trans.reach_after resets)

/-- **A message to a dead peer** ends the process: the connection was reset, and its receive
thread has not yet marked the record. -/
theorem send_kills : ¬ ∀ (E : Env) (x : State × List SendStep), (chatSends E).Reachable x → ∀ c ∈ x.2, c.Survived := by
  intro h
  have hall := h .demo _ (Sync.Trans.reach_after resets)
  have hended : ∃ c ∈ ((chatSends .demo).after Sync.Trans.Free resets).2, c.after.main = .ended := by decide +kernel
  obtain ⟨c, hc, hend⟩ := hended
  exact (hall c hc).1 hend

end Chat
