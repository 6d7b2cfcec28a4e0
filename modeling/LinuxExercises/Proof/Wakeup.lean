import LinuxExercises.Proof.NConsumer
import LinuxExercises.Sync.Weight
import Mathlib.Tactic.Set

/-!
# Wakeups and leftovers of `nConsumer.c`

The second invariant (`Live`) counts, for each role: the items its threads have moved, and
the threads that sleep against those on their way to the buffer.

* `no_lost_wakeup`: while a thread of a role sleeps, the items (or the free cells) it could
  use are not more than the threads that will use them or wake it; so the threads do not all
  sleep, as long as what the consumers leave over fits into the buffer.
* `all_consumed_iff`: the consumers leave nothing over exactly when their number divides
  that of the items.
-/

namespace NConsumer

open Sync

variable {z : Sizes} {s s' : State z} {t u : z.Tid} {θ : Thread} {ρ : Role}

/-! ## What the threads count for -/

/-- The thread has accessed the buffer in this round of its loop. -/
def Pc.past : Pc → Bool
  | .advance | .tally | .signal | .unlock => true
  | _ => false

/-- The thread is inside the body of its loop. -/
def Pc.inBody : Pc → Bool
  | .unborn | .top | .exited => false
  | _ => true

/-- The items a thread of this role has moved. -/
def made (ρ : Role) (θ : Thread) : ℕ := if θ.role = ρ then θ.i + θ.pc.past.toNat else 0

/-- The thread sleeps on the condition variable of this role. -/
def sleeping (ρ : Role) (θ : Thread) : ℕ := if θ.role = ρ ∧ θ.pc = .asleep then 1 else 0

/-- The thread is on its way to the buffer with this role, or will signal this role. -/
def stirring (ρ : Role) (θ : Thread) : ℕ :=
  match θ.pc with
  | .woken | .test | .access | .advance | .tally => if θ.role = ρ then 1 else 0
  | .signal => if θ.role.other = ρ then 1 else 0
  | _ => 0

/-- What threads of this role can use: free cells or items. -/
def State.room (s : State z) : Role → ℤ
  | .producer => z.bufferSize - s.ring.count
  | .consumer => s.ring.count

/-- The loop variable is in range. -/
structure Thread.InRange (z : Sizes) (θ : Thread) : Prop where
  le : θ.i ≤ z.bound θ.role
  lt : θ.pc.inBody → θ.i < z.bound θ.role
  exited : θ.pc = .exited → θ.i = z.bound θ.role

/-- **What the threads have done and who is asleep.** -/
structure Live (s : State z) : Prop where
  stored : s.stored.length = total (made .producer) s.thread
  taken : s.taken.length = total (made .consumer) s.thread
  range : ∀ t, (s.thread t).InRange z
  wakeup : ∀ ρ, 0 < total (sleeping ρ) s.thread → s.room ρ ≤ total (stirring ρ) s.thread
  unborn : ∀ t, (s.thread t).pc = .unborn → ∃ k, s.main = .create k ∧ ∃ j ≥ k, nth z j = some t
  joined : ∀ k, s.main = .join k → ∀ j < k, ∀ t, nth z j = some t → (s.thread t).pc = .exited
  ended : s.main = .ended → ∀ t, (s.thread t).pc = .exited

/-- Every thread is created by `main`. -/
theorem exists_nth (t : z.Tid) : ∃ j < z.numProducers + z.numConsumers, nth z j = some t := by
  cases t with
  | inl i => exact ⟨i, by omega, by simp [nth]⟩
  | inr i => exact ⟨z.numProducers + i, by omega, by simp [nth]⟩

theorem nth_none {k j : ℕ} (h : nth z k = none) (hj : k ≤ j) : nth z j = none := by
  unfold nth at h ⊢
  grind

theorem live_init : Live (.init z) := by
  have hz (w : Thread → ℕ) (hw : ∀ t, w ⟨roleOf t, .unborn, 0, 0⟩ = 0) : total w (State.init z).thread = 0 :=
    total_zero hw
  refine ⟨?_, ?_, fun t => ⟨Nat.zero_le _, by simp [State.init, Pc.inBody], by simp [State.init]⟩, fun ρ h => ?_,
    fun t _ => ?_, by simp [State.init], by simp [State.init]⟩
  · rw [hz]; · rfl
    intro t; simp [made, Pc.past]
  · rw [hz]; · rfl
    intro t; simp [made, Pc.past]
  · rw [hz _ fun t => by simp [sleeping]] at h; omega
  · obtain ⟨j, -, hj⟩ := exists_nth t; exact ⟨0, rfl, j, Nat.zero_le _, hj⟩

/-- **One thread moves**: its own numbers move. -/
theorem Live.move (h : Live s) {β : RingBuf ℤ} {ℓ : Option z.Tid} {μ : MainPc} {σ τ : List (z.Tid × ℤ)}
    (hst : σ.length + made .producer (s.thread t) = s.stored.length + made .producer θ)
    (htk : τ.length + made .consumer (s.thread t) = s.taken.length + made .consumer θ)
    (hr : θ.InRange z)
    (hw : ∀ ρ, 0 < total (sleeping ρ) s.thread + sleeping ρ θ → (sleeping ρ θ ≤ sleeping ρ (s.thread t) ∧
      State.room { s with ring := β } ρ + stirring ρ (s.thread t) ≤ s.room ρ + stirring ρ θ) ∨
      State.room { s with ring := β } ρ + stirring ρ (s.thread t) ≤ total (stirring ρ) s.thread + stirring ρ θ)
    (hu : θ.pc ≠ .unborn)
    (hm : μ = s.main ∧ (s.thread t).pc ≠ .exited ∨ ∃ k, s.main = .create k ∧ nth z k = some t ∧ μ = .create (k + 1)) :
    Live { s.set t θ with ring := β, lock := ℓ, main := μ, stored := σ, taken := τ } := by
  have htot (w : Thread → ℕ) : total w (Function.update s.thread t θ) + w (s.thread t) = total w s.thread + w θ :=
    total_update t θ
  refine ⟨?_, ?_, fun x => ?_, fun ρ hpos => ?_, fun x hx => ?_, fun k hk j hj x hx => ?_, fun he x => ?_⟩
  · have := htot (made .producer); have := h.stored
    show σ.length = total _ (Function.update s.thread t θ); omega
  · have := htot (made .consumer); have := h.taken
    show τ.length = total _ (Function.update s.thread t θ); omega
  · by_cases hx : x = t
    · subst hx; exact (s.set_thread_self x θ).symm ▸ hr
    · exact (s.set_thread_ne θ hx).symm ▸ h.range x
  · have h1 := htot (sleeping ρ)
    have h2 := htot (stirring ρ)
    have hpos : 0 < total (sleeping ρ) (Function.update s.thread t θ) := hpos
    show State.room { s with ring := β } ρ ≤ (total (stirring ρ) (Function.update s.thread t θ) : ℤ)
    rcases hw ρ (by omega) with ⟨h3, h4⟩ | h3
    · have := h.wakeup ρ (by omega); omega
    · omega
  · have hxt : x ≠ t := by
      rintro rfl
      have hx : ((s.set x θ).thread x).pc = .unborn := hx
      rw [s.set_thread_self] at hx; exact hu hx
    have hx : ((s.set t θ).thread x).pc = .unborn := hx
    rw [s.set_thread_ne θ hxt] at hx
    obtain ⟨k, hk, j, hj, hjx⟩ := h.unborn x hx
    rcases hm with ⟨rfl, -⟩ | ⟨k', hk', hkt, rfl⟩
    · exact ⟨k, hk, j, hj, hjx⟩
    · rw [hk'] at hk; cases hk
      refine ⟨k + 1, rfl, j, Nat.lt_of_le_of_ne hj ?_, hjx⟩
      rintro rfl; rw [hkt] at hjx; exact hxt (Option.some.inj hjx).symm
  · rcases hm with ⟨rfl, hm⟩ | ⟨k', -, -, rfl⟩
    · have hx' := h.joined k hk j hj x hx
      have hxt : x ≠ t := by rintro rfl; exact hm hx'
      exact (congrArg Thread.pc (s.set_thread_ne θ hxt)).trans hx'
    · cases hk
  · rcases hm with ⟨rfl, hm⟩ | ⟨k', -, -, rfl⟩
    · exact absurd (h.ended he t) hm
    · cases he

/-- A move that leaves the ring alone. -/
theorem Live.keep (h : Live s) {ℓ : Option z.Tid} (hmade : ∀ ρ, made ρ θ = made ρ (s.thread t))
    (hr : θ.InRange z)
    (hw : ∀ ρ, 0 < total (sleeping ρ) s.thread + sleeping ρ θ → (sleeping ρ θ ≤ sleeping ρ (s.thread t) ∧ stirring ρ (s.thread t) ≤ stirring ρ θ) ∨
      s.room ρ + stirring ρ (s.thread t) ≤ total (stirring ρ) s.thread + stirring ρ θ)
    (hu : θ.pc ≠ .unborn) (hx : (s.thread t).pc ≠ .exited) : Live { s.set t θ with lock := ℓ } := by
  refine h.move (β := s.ring) (μ := s.main) (σ := s.stored) (τ := s.taken) ?_ ?_ hr (fun ρ hpos => ?_) hu
    (.inl ⟨rfl, hx⟩)
  · rw [hmade]
  · rw [hmade]
  · rcases hw ρ hpos with ⟨h1, h2⟩ | h1
    · refine .inl ⟨h1, ?_⟩
      show s.room ρ + _ ≤ _; omega
    · exact .inr h1

/-- The condition of the `while` loop says that there is nothing to use. -/
theorem room_of_blocked (h : ρ.blocked z s.ring.count = true) : s.room ρ = 0 := by
  cases ρ <;> simp only [Role.blocked, decide_eq_true_eq] at h <;> simp only [State.room] <;> omega

/-- **What a step of a thread does to the numbers.** -/
theorem live_move (h : Live s) (hm : Move s t s') : Live s' := by
  obtain ⟨hle, hlt, -⟩ := h.range t
  cases hm with
  | enter item ht hi =>
    refine h.keep (θ := { s.thread t with pc := .lock, item }) (ℓ := s.lock) (fun ρ => ?_) ⟨hle, fun _ => hi, ?_⟩
      (fun ρ _ => .inl ?_) ?_ ?_ <;> simp [made, Pc.past, sleeping, stirring, ht]
  | leave ht hi =>
    refine h.keep (θ := { s.thread t with pc := .exited }) (ℓ := s.lock) (fun ρ => ?_)
      ⟨hle, ?_, fun _ => le_antisymm hle (by simpa using hi)⟩ (fun ρ _ => .inl ?_) ?_ ?_ <;>
      simp [made, Pc.past, Pc.inBody, sleeping, stirring, ht]
  | acquire ht hl =>
    have hin : (s.thread t).pc.inBody := by rcases ht with ht | ht <;> rw [ht] <;> rfl
    refine h.keep (θ := { s.thread t with pc := .test }) (fun ρ => ?_) ⟨hle, fun _ => hlt hin, ?_⟩
      (fun ρ _ => .inl ?_) ?_ ?_ <;> rcases ht with ht | ht <;> simp [made, Pc.past, sleeping, stirring, ht]
  | sleep ht hb =>
    -- a new sleeper, but there is nothing for it to use
    have hroom := room_of_blocked hb
    refine h.keep (θ := { s.thread t with pc := .asleep }) (fun ρ => ?_) ⟨hle, fun _ => hlt (by rw [ht]; rfl), ?_⟩
      (fun ρ _ => ?_) ?_ ?_
    · simp [made, Pc.past, ht]
    · simp
    · by_cases hρ : (s.thread t).role = ρ
      · have := le_total (w := stirring ρ) (f := s.thread) t
        rw [hρ] at hroom
        exact .inr (by omega)
      · exact .inl (by simp [sleeping, stirring, ht, hρ])
    · simp
    · simp [ht]
  | pass ht hb =>
    refine h.keep (θ := { s.thread t with pc := .access }) (ℓ := s.lock) (fun ρ => ?_)
      ⟨hle, fun _ => hlt (by rw [ht]; rfl), ?_⟩ (fun ρ _ => .inl ?_) ?_ ?_ <;>
      simp [made, Pc.past, sleeping, stirring, ht]
  | access ht =>
    have hi := hlt (by rw [ht]; rfl)
    unfold State.access
    cases hr : (s.thread t).role <;> simp only [hr]
    · -- a producer: one item more stored, and `count` lags behind
      refine h.move (θ := { s.thread t with pc := .advance }) (ℓ := s.lock) (μ := s.main) ?_ ?_
        ⟨hle, fun _ => hi, by simp⟩ (fun ρ _ => .inl ?_) (by simp) (.inl ⟨rfl, by simp [ht]⟩)
      · simp [made, Pc.past, ht, hr]; omega
      · simp [made, hr, State.goto, State.set]
      · cases ρ <;> simp [sleeping, stirring, ht, State.room, RingBuf.write]
    · -- a consumer: one item more taken
      rw [hr] at hle hi
      refine h.move (θ := ⟨.consumer, .advance, (s.thread t).i, s.ring.cells s.ring.outIdx⟩) (β := s.ring)
        (ℓ := s.lock) (μ := s.main) (σ := s.stored) ?_ ?_
        ⟨hle, fun _ => hi, by simp⟩ (fun ρ _ => .inl ?_) (by simp) (.inl ⟨rfl, by simp [ht]⟩)
      · simp [made, hr]
      · simp [made, Pc.past, ht, hr]; omega
      · simp [sleeping, stirring, ht, hr, State.room]
  | advance ht =>
    have hi := hlt (by rw [ht]; rfl)
    unfold State.advance
    cases hr : (s.thread t).role <;> simp only
    · refine h.move (θ := { s.thread t with pc := .tally }) (ℓ := s.lock) (μ := s.main) (σ := s.stored)
        (τ := s.taken) ?_ ?_ ⟨hle, fun _ => hi, by simp⟩ (fun ρ _ => .inl ?_) (by simp) (.inl ⟨rfl, by simp [ht]⟩)
      · simp [made, Pc.past, ht]
      · simp [made, Pc.past, ht]
      · cases ρ <;> simp [sleeping, stirring, ht, State.room, RingBuf.advanceIn]
    · refine h.move (θ := { s.thread t with pc := .tally }) (ℓ := s.lock) (μ := s.main) (σ := s.stored)
        (τ := s.taken) ?_ ?_ ⟨hle, fun _ => hi, by simp⟩ (fun ρ _ => .inl ?_) (by simp) (.inl ⟨rfl, by simp [ht]⟩)
      · simp [made, Pc.past, ht]
      · simp [made, Pc.past, ht]
      · cases ρ <;> simp [sleeping, stirring, ht, State.room, RingBuf.advanceOut]
  | tally ht =>
    -- the thread will use one cell or item less, and owes the other role a signal
    have hi := hlt (by rw [ht]; rfl)
    unfold State.tally
    cases hr : (s.thread t).role <;> simp only
    · refine h.move (θ := { s.thread t with pc := .signal }) (ℓ := s.lock) (μ := s.main) (σ := s.stored)
        (τ := s.taken) ?_ ?_ ⟨hle, fun _ => hi, by simp⟩ (fun ρ _ => .inl ?_) (by simp) (.inl ⟨rfl, by simp [ht]⟩)
      · simp [made, Pc.past, ht]
      · simp [made, Pc.past, ht]
      · cases ρ
        · have hold : stirring .producer (s.thread t) = 1 := by simp [stirring, ht, hr]
          have hnew : stirring .producer { s.thread t with pc := .signal } = 0 := by simp [stirring, hr, Role.other]
          refine ⟨by simp [sleeping], ?_⟩
          rw [hold, hnew]
          simp only [State.room]
          omega
        · simp [sleeping, stirring, ht, hr, State.room, Role.other]
    · refine h.move (θ := { s.thread t with pc := .signal }) (ℓ := s.lock) (μ := s.main) (σ := s.stored)
        (τ := s.taken) ?_ ?_ ⟨hle, fun _ => hi, by simp⟩ (fun ρ _ => .inl ?_) (by simp) (.inl ⟨rfl, by simp [ht]⟩)
      · simp [made, Pc.past, ht]
      · simp [made, Pc.past, ht]
      · cases ρ <;> simp [sleeping, stirring, ht, hr, State.room, Role.other]
  | unlock ht =>
    -- the round is over, and was counted when the ring was used
    have hi := hlt (by rw [ht]; rfl)
    refine h.keep (θ := { s.thread t with pc := .top, i := (s.thread t).i + 1 }) (fun ρ => ?_) ⟨hi, ?_, ?_⟩
      (fun ρ _ => .inl ?_) ?_ ?_ <;> simp [made, Pc.past, Pc.inBody, sleeping, stirring, ht]

/-- A thread wakes. -/
theorem Live.wake (h : Live s) (t : z.Tid) : Live (s.wake t) := by
  unfold State.wake
  split
  · rename_i ht
    obtain ⟨hle, hlt, -⟩ := h.range t
    refine h.keep (θ := { s.thread t with pc := .woken }) (ℓ := s.lock) (fun ρ => ?_)
      ⟨hle, fun _ => hlt (by rw [ht]; rfl), ?_⟩ (fun ρ _ => .inl ?_) ?_ ?_ <;>
      simp [made, Pc.past, sleeping, stirring, ht]
  · exact h

theorem Live.wakeAll (h : Live s) (ws : List z.Tid) : Live (ws.foldl State.wake s) := by
  induction ws generalizing s with
  | nil => exact h
  | cons u us ih => exact ih (h.wake u)

/-- Threads that are different move independently. -/
theorem State.goto_wake (s : State z) {t u : z.Tid} (hut : u ≠ t) (pc : Pc) :
    (s.goto t pc).wake u = (s.wake u).goto t pc := by
  unfold State.wake
  have hu : (s.goto t pc).thread u = s.thread u := s.set_thread_ne _ hut
  rw [hu]
  split
  · simp only [State.goto, State.set, Function.update_of_ne hut, Function.update_of_ne (Ne.symm hut),
      Function.update_comm hut]
  · rfl

/-- While a thread sleeps its role is provided for; when it wakes there is one to spare. -/
theorem Live.room_lt (h : Live s) (hu : s.Asleep ρ u) : s.room ρ + 1 ≤ total (stirring ρ) (s.wake u).thread := by
  obtain ⟨hrole, hpc⟩ := hu
  have hsleep : sleeping ρ (s.thread u) = 1 := by simp [sleeping, hrole, hpc]
  have h1 := le_total (w := sleeping ρ) (f := s.thread) u
  have h2 := h.wakeup ρ (by omega)
  have h3 := total_update (w := stirring ρ) (f := s.thread) u { s.thread u with pc := .woken }
  have h4 : stirring ρ (s.thread u) = 0 := by simp [stirring, hpc]
  have h5 : stirring ρ { s.thread u with pc := .woken } = 1 := by simp [stirring, hrole]
  have h6 : (s.wake u).thread = Function.update s.thread u { s.thread u with pc := .woken } := by
    unfold State.wake; rw [if_pos hpc]; rfl
  rw [h6]; omega

theorem State.wake_room (s : State z) (u : z.Tid) (ρ : Role) : (s.wake u).room ρ = s.room ρ := by
  unfold State.wake; split <;> rfl

/-- **A signal**: the thread that wakes makes up for the signal that has been given. -/
theorem Live.signal (h : Live s) (ht : (s.thread t).pc = .signal)
    (hu : s.Asleep (s.thread t).role.other u) : Live ((s.goto t .unlock).wake u) := by
  have hut : u ≠ t := by
    rintro rfl
    have := hu.2
    rw [ht] at this; cases this
  have hroom := h.room_lt hu
  have hwt : (s.wake u).thread t = s.thread t := by
    unfold State.wake; rw [if_pos hu.2]; exact s.set_thread_ne _ (Ne.symm hut)
  rw [s.goto_wake hut]
  obtain ⟨hle, hlt, -⟩ := (h.wake u).range t
  rw [hwt] at hle hlt
  refine (h.wake u).keep (θ := { (s.wake u).thread t with pc := .unlock }) (ℓ := (s.wake u).lock) (fun ρ => ?_)
    ?_ (fun ρ _ => ?_) ?_ ?_ <;> rw [hwt]
  · simp [made, Pc.past, ht]
  · exact ⟨hle, fun _ => hlt (by rw [ht]; rfl), by simp⟩
  · by_cases hρ : (s.thread t).role.other = ρ
    · rw [hρ] at hroom
      refine .inr ?_
      have : stirring ρ (s.thread t) = 1 := by simp [stirring, ht, hρ]
      rw [s.wake_room]; omega
    · exact .inl (by simp [sleeping, stirring, ht, hρ])
  · simp
  · simp [ht]

/-- A signal to nobody. -/
theorem Live.signal_none (h : Live s) (ht : (s.thread t).pc = .signal)
    (hno : ∀ u, ¬ s.Asleep (s.thread t).role.other u) : Live (s.goto t .unlock) := by
  obtain ⟨hle, hlt, -⟩ := h.range t
  refine h.keep (θ := { s.thread t with pc := .unlock }) (ℓ := s.lock) (fun ρ => ?_)
    ⟨hle, fun _ => hlt (by rw [ht]; rfl), by simp⟩ (fun ρ hpos => .inl ?_) ?_ ?_
  · simp [made, Pc.past, ht]
  · by_cases hρ : (s.thread t).role.other = ρ
    · have hzero : total (sleeping ρ) s.thread = 0 := total_zero fun u => by
        have := hno u
        rw [hρ] at this
        simp only [sleeping]; exact if_neg this
      rw [hzero] at hpos
      simp [sleeping] at hpos
    · simp [sleeping, stirring, ht, hρ]
  · simp
  · simp [ht]

/-- The main thread joins: it goes by threads that have exited. -/
theorem Live.main (h : Live s) {pc : MainPc} (hm : MainMove s pc) : Live { s with main := pc } := by
  have hborn (hk : ∀ k, s.main = .create k → nth z k = none) (x : z.Tid) : (s.thread x).pc ≠ .unborn := by
    intro hx
    obtain ⟨k, hk', j, hj, hjx⟩ := h.unborn x hx
    rw [nth_none (hk k hk') hj] at hjx; cases hjx
  refine ⟨h.stored, h.taken, h.range, h.wakeup, fun x hx => ?_, fun k hk j hj x hx => ?_, fun he x => ?_⟩
  · refine absurd hx (hborn (fun k hk => ?_) x)
    cases hm with
    | created k' hk' hn => rw [hk'] at hk; cases hk; exact hn
    | joined k' t hk' hn hx => rw [hk'] at hk; cases hk
    | ended k' hk' hn => rw [hk'] at hk; cases hk
  · cases hm with
    | created k' hk' hn => cases hk; omega
    | joined k' t hk' hn hpc =>
      cases hk
      rcases Nat.lt_succ_iff_lt_or_eq.1 hj with hj | rfl
      · exact h.joined k' hk' j hj x hx
      · rw [hn] at hx; cases hx; exact hpc
    | ended k' hk' hn => cases hk
  · cases hm with
    | created k' hk' hn => cases he
    | joined k' t hk' hn hpc => cases he
    | ended k' hk' hn =>
      obtain ⟨j, -, hjx⟩ := exists_nth x
      refine h.joined k' hk' j ?_ x hjx
      by_contra hle
      rw [nth_none hn (by omega)] at hjx; cases hjx

/-- **Every step keeps the numbers right.** -/
theorem live_step {l : Label z} (hI : Inv s) (h : Live s) (hs : s.step l = some s') : Live s' := by
  rcases step_cases hs with ⟨k, t, hm, hn, rfl⟩ | ⟨pc, hm, rfl⟩ | ⟨t, hm⟩ | ⟨t, ws, ht, hws, hno, rfl⟩ | ⟨t, rfl⟩
  · have ht := hI.unborn k hm k le_rfl t hn
    have hi := (h.range t).le
    refine h.move (θ := { s.thread t with pc := .top }) (β := s.ring) (ℓ := s.lock) (σ := s.stored)
      (τ := s.taken) ?_ ?_ ⟨hi, by simp [Pc.inBody], by simp⟩ (fun ρ _ => .inl ?_) (by simp) (.inr ⟨k, hm, hn, rfl⟩)
    · simp [made, Pc.past, ht]
    · simp [made, Pc.past, ht]
    · simp [sleeping, stirring, ht, State.room]
  · exact h.main hm
  · exact live_move h hm
  · cases ws with
    | nil => exact h.signal_none ht (hno rfl)
    | cons u us => exact Live.wakeAll (h.signal ht (hws u List.mem_cons_self)) us
  · exact h.wake t

theorem live_reachable (hpos : 0 < z.bufferSize) (h : (nConsumer z).Reachable s) : Inv s ∧ Live s :=
  h.inv (I := fun s => Inv s ∧ Live s) ⟨inv_init hpos, live_init⟩
    fun _ _ _ _ hi _ hs => ⟨inv_step hi.1 hs, live_step hi.1 hi.2 hs⟩

/-! ## Items moved by all threads of a role -/

/-- The number of threads of a role. -/
def Sizes.num (z : Sizes) : Role → ℕ
  | .producer => z.numProducers
  | .consumer => z.numConsumers

/-- A bound for each thread of a role is one for all of them. -/
theorem sum_role (z : Sizes) (ρ : Role) (b : ℕ) :
    ∑ t : z.Tid, (if roleOf t = ρ then b else 0) = z.num ρ * b := by
  rw [Fintype.sum_sum_type]
  cases ρ <;> simp [roleOf, Sizes.num]

/-- The threads of a role move no more items than they are meant to. -/
theorem made_le (hI : Inv s) (h : Live s) (t : z.Tid) (hpast : (s.thread t).pc.past = false) :
    made ρ (s.thread t) ≤ if roleOf t = ρ then z.bound ρ else 0 := by
  unfold made
  rw [hI.role t, hpast]
  split
  · rename_i hρ
    have := (h.range t).le
    rw [hI.role t, hρ] at this; simpa using this
  · exact le_rfl

/-- A role that is done has moved all its items. -/
theorem made_all (hI : Inv s) (h : Live s) (hx : ∀ t, roleOf t = ρ → (s.thread t).pc = .exited) :
    total (made ρ) s.thread = z.num ρ * z.bound ρ := by
  rw [← sum_role]
  refine Finset.sum_congr rfl fun t _ => ?_
  unfold made
  rw [hI.role t]
  split
  · rename_i hρ
    have := (h.range t).exited (hx t hρ)
    rw [hI.role t, hρ] at this
    simp [hx t hρ, Pc.past, this]
  · rfl

/-- A role with a thread that still runs has not. -/
theorem made_lt (hI : Inv s) (h : Live s) (hpast : ∀ t, (s.thread t).pc.past = false)
    (ht : roleOf t = ρ) (hin : (s.thread t).pc.inBody) : total (made ρ) s.thread < z.num ρ * z.bound ρ := by
  rw [← sum_role]
  refine Finset.sum_lt_sum (fun x _ => made_le hI h x (hpast x)) ⟨t, Finset.mem_univ t, ?_⟩
  have hlt := (h.range t).lt hin
  rw [hI.role t, ht] at hlt
  unfold made
  rw [hI.role t, hpast t, if_pos ht, if_pos ht]; simpa using hlt

/-- `count` is what has been stored and not taken. -/
theorem count_eq (hI : Inv s) (hfree : s.lock = none) :
    s.ring.count = s.stored.length - s.taken.length ∧ s.taken.length ≤ s.stored.length := by
  obtain ⟨q, hq, hring⟩ := hI.queue
  rw [State.settled_quiet fun t ht => by rw [hfree] at ht; cases ht] at hring
  have hlen := congrArg List.length hq
  rw [List.length_append, List.length_map, List.length_map] at hlen
  have := hring.count
  omega

/-! ## No lost wakeup -/

/-- **The unfinished threads do not all sleep.** -/
theorem exists_awake (hI : Inv s) (h : Live s) (hpos : 1 ≤ z.bufferSize)
    (hB : z.numProducers * z.numItems % z.numConsumers ≤ z.bufferSize) (hun : ∃ t, (s.thread t).pc ≠ .exited) :
    ∃ t, (s.thread t).pc ≠ .exited ∧ (s.thread t).pc ≠ .asleep := by
  by_contra hno
  push Not at hno
  have hpc (t : z.Tid) : (s.thread t).pc = .exited ∨ (s.thread t).pc = .asleep := by
    by_cases hx : (s.thread t).pc = .exited
    · exact .inl hx
    · exact .inr (hno t hx)
  have hfree : s.lock = none := hI.lock_free fun t => by rcases hpc t with ht | ht <;> rw [ht] <;> rfl
  have hpast (t : z.Tid) : (s.thread t).pc.past = false := by rcases hpc t with ht | ht <;> rw [ht] <;> rfl
  -- nobody is on its way to the buffer, so a role that sleeps has nothing to use
  have hroom {t : z.Tid} {ρ : Role} (hρ : roleOf t = ρ) (ht : (s.thread t).pc = .asleep) : s.room ρ ≤ 0 := by
    have h1 : sleeping ρ (s.thread t) = 1 := by simp [sleeping, hI.role t, hρ, ht]
    have h2 := le_total (w := sleeping ρ) (f := s.thread) t
    have h3 : total (stirring ρ) s.thread = 0 := total_zero fun x => by
      rcases hpc x with hx | hx <;> simp [stirring, hx]
    have := h.wakeup ρ (by omega)
    omega
  obtain ⟨hcount, -⟩ := count_eq hI hfree
  have hst := h.stored
  have htk := h.taken
  have hdiv := Nat.div_add_mod (z.numProducers * z.numItems) z.numConsumers
  by_cases hc : ∃ t, roleOf t = .consumer ∧ (s.thread t).pc = .asleep
  · obtain ⟨t, hρ, ht⟩ := hc
    have hempty := hroom hρ ht
    have hprod : ∀ x, roleOf x = .producer → (s.thread x).pc = .exited := by
      intro x hx
      refine (hpc x).resolve_right fun hx' => ?_
      have hfull := hroom hx hx'
      simp only [State.room] at hempty hfull; omega
    have hall := made_all hI h hprod
    have hlt := made_lt hI h hpast hρ (by rw [ht]; rfl)
    simp only [Sizes.num, Sizes.bound] at hall hlt
    simp only [State.room] at hempty
    omega
  · have hcons : ∀ x, roleOf x = .consumer → (s.thread x).pc = .exited := by
      intro x hx
      exact (hpc x).resolve_right fun hx' => hc ⟨x, hx, hx'⟩
    obtain ⟨t, ht⟩ := hun
    have ht' := (hpc t).resolve_left ht
    have hρ : roleOf t = .producer := by
      cases hr : roleOf t with
      | producer => rfl
      | consumer => exact absurd (hcons t hr) ht
    have hfull := hroom hρ ht'
    have hall := made_all hI h hcons
    have hlt := made_lt hI h hpast hρ (by rw [ht']; rfl)
    simp only [Sizes.num, Sizes.bound] at hall hlt
    simp only [State.room] at hfull
    omega

/-- A thread that has the mutex can go on. -/
theorem holder_enabled (ht : (s.thread t).pc.holds = true) :
    ∃ l s', s.step l = some s' ∧ ∀ u, l ≠ .spurious u := by
  cases hpc : (s.thread t).pc <;> rw [hpc] at ht <;> try cases ht
  case test =>
    refine ⟨.thread t 0, ?_⟩
    simp only [State.step, State.threadStep, hpc]
    split <;> exact ⟨_, rfl, by simp⟩
  case signal =>
    by_cases hw : ∃ u, s.Asleep (s.thread t).role.other u
    · obtain ⟨u, hu⟩ := hw
      refine ⟨.signal t [u], _, if_pos ⟨hpc, ?_, by simp⟩, by simp⟩
      intro x hx
      rw [List.mem_singleton.1 hx]; exact hu
    · push Not at hw
      exact ⟨.signal t [], _, if_pos ⟨hpc, by simp, fun _ => hw⟩, by simp⟩
  all_goals
    refine ⟨.thread t 0, ?_⟩
    simp only [State.step, State.threadStep, hpc]
    exact ⟨_, rfl, by simp⟩

/-- A thread that is neither asleep nor done can go on, or the one that has the mutex can. -/
theorem awake_enabled (hI : Inv s) (hx : (s.thread t).pc ≠ .exited) (hs : (s.thread t).pc ≠ .asleep)
    (hu : (s.thread t).pc ≠ .unborn) : ∃ l s', s.step l = some s' ∧ ∀ u, l ≠ .spurious u := by
  cases hl : s.lock with
  | some v => exact holder_enabled (hI.holds_of_lock hl)
  | none =>
    by_cases ht : (s.thread t).pc.holds = true
    · exact holder_enabled ht
    · have hstep : (s.threadStep t 0).isSome := by
        unfold State.threadStep
        cases hpc : (s.thread t).pc <;> simp only [hpc, Pc.holds, ne_eq, not_true_eq_false] at ht hx hs hu ⊢
        · split
          · cases (s.thread t).role <;> rfl
          · rfl
        · rw [if_pos hl]; rfl
        · rw [if_pos hl]; rfl
      obtain ⟨s', hs'⟩ := Option.isSome_iff_exists.1 hstep
      exact ⟨.thread t 0, s', hs', by simp⟩

/-- **No lost wakeup**: if what the consumers leave over fits into the buffer, then in every
reachable state in which a thread or `main` has not finished some step other than a spurious
wakeup can be taken; and the unfinished threads do not all sleep. -/
theorem no_lost_wakeup (hpos : 1 ≤ z.bufferSize)
    (hB : z.numProducers * z.numItems % z.numConsumers ≤ z.bufferSize) (hr : (nConsumer z).Reachable s) :
    ((s.main ≠ .ended ∨ ∃ t, (s.thread t).pc ≠ .exited) →
      ∃ l s', s.step l = some s' ∧ ∀ u, l ≠ .spurious u) ∧
    ((∃ t, (s.thread t).pc ≠ .exited) → ∃ t, (s.thread t).pc ≠ .exited ∧ (s.thread t).pc ≠ .asleep) := by
  obtain ⟨hI, h⟩ := live_reachable hpos hr
  refine ⟨fun hun => ?_, exists_awake hI h hpos hB⟩
  cases hm : s.main with
  | create k =>
    refine ⟨.main, ?_⟩
    simp only [State.step, State.mainStep, hm]
    split <;> exact ⟨_, rfl, by simp⟩
  | ended =>
    rcases hun with hun | ⟨t, ht⟩
    · exact absurd hm hun
    · exact absurd (h.ended hm t) ht
  | join k =>
    by_cases hx : ∃ t, (s.thread t).pc ≠ .exited
    · obtain ⟨t, ht, hta⟩ := exists_awake hI h hpos hB hx
      refine awake_enabled hI ht hta fun hu => ?_
      obtain ⟨k', hk', -⟩ := h.unborn t hu
      rw [hm] at hk'; cases hk'
    · push Not at hx
      refine ⟨.main, ?_⟩
      simp only [State.step, State.mainStep, hm]
      cases nth z k with
      | none => exact ⟨_, rfl, by simp⟩
      | some t => exact ⟨_, if_pos (hx t), by simp⟩

/-- A consumer that finds the buffer empty and sleeps. -/
def sleeper : List (Label shipped) := mains 6 ++ .replicate 3 (.thread (cons 0) 0)

theorem no_lost_wakeup_sleeper :
    (((nConsumer shipped).after Sync.Trans.Free sleeper).thread (cons 0)).pc = .asleep ∧
    ∃ l s', ((nConsumer shipped).after Sync.Trans.Free sleeper).step l = some s' ∧ ∀ u, l ≠ .spurious u :=
  ⟨by decide +kernel, (no_lost_wakeup (by decide) (by decide) (Sync.Trans.reach_after sleeper)).1
    (.inr ⟨cons 0, by decide +kernel⟩)⟩

/-! ## What is left over -/

/-- Every item stored has been taken, each by one consumer, and the buffer is empty. -/
def State.AllConsumed (s : State z) : Prop :=
  s.taken.map Prod.snd = s.stored.map Prod.snd ∧ s.ring.count = 0

/-- **Leftovers**: when `main` has joined all threads, all items have been consumed if and
only if the consumers' number divides the number of items. -/
theorem all_consumed_iff (hpos : 1 ≤ z.bufferSize) (hr : (nConsumer z).Reachable s) (he : s.main = .ended) :
    s.AllConsumed ↔ z.numProducers * z.numItems % z.numConsumers = 0 := by
  obtain ⟨hI, h⟩ := live_reachable hpos hr
  have hx := h.ended he
  have hfree : s.lock = none := hI.lock_free fun t => by rw [hx t]; rfl
  obtain ⟨hcount, hle⟩ := count_eq hI hfree
  have hst := h.stored
  have htk := h.taken
  rw [made_all hI h fun t _ => hx t] at hst htk
  simp only [Sizes.num, Sizes.bound] at hst htk
  have hdiv := Nat.div_add_mod (z.numProducers * z.numItems) z.numConsumers
  refine ⟨fun hall => ?_, fun hmod => ⟨?_, by omega⟩⟩
  · have := hall.2; omega
  · obtain ⟨q, hq, hring⟩ := hI.queue
    have hlen := congrArg List.length hq
    rw [List.length_append, List.length_map, List.length_map] at hlen
    have hnil : q = [] := List.length_eq_zero_iff.1 (by omega)
    rw [hq, hnil, List.append_nil]

/-- Two producers with two items each, and two consumers, at a buffer of two cells. -/
def twoEach : Sizes := ⟨2, 2, 2, 2⟩

/-- They take turns. -/
def fourItems : List (Label twoEach) :=
  let p : twoEach.Tid := .inl ⟨0, by decide⟩
  let p' : twoEach.Tid := .inl ⟨1, by decide⟩
  let c : twoEach.Tid := .inr ⟨0, by decide⟩
  let c' : twoEach.Tid := .inr ⟨1, by decide⟩
  mains 5 ++ round p 7 ++ round p' 8 ++ round c 0 ++ round c' 0 ++ round p' 9 ++ round p 10 ++ round c' 0 ++
    round c 0 ++ [.thread p 0, .thread p' 0, .thread c 0, .thread c' 0] ++ mains 5

theorem all_consumed_iff_four :
    ((nConsumer twoEach).after Sync.Trans.Free fourItems).taken.map Prod.snd = [7, 8, 9, 10] ∧
    (((nConsumer twoEach).after Sync.Trans.Free fourItems).AllConsumed ↔ 2 * 2 % 2 = 0) :=
  ⟨by decide +kernel, all_consumed_iff (by decide) (Sync.Trans.reach_after fourItems) (by decide +kernel)⟩

/-- The program as it is shipped: the producers and consumers take turns, until the consumers
have had their six rounds each. -/
def shippedRun : List (Label shipped) :=
  mains 6 ++
    (List.range 20).flatMap (fun k =>
      round (prod k) k ++ if k < 18 then round (cons k) 0 else []) ++
    [.thread (prod 0) 0, .thread (prod 1) 0, .thread (cons 0) 0, .thread (cons 1) 0, .thread (cons 2) 0] ++ mains 6

/-- **Two items are left over.** -/
theorem shipped_leftovers : ¬ ∀ (z : Sizes) (s : State z), 1 ≤ z.numProducers → 1 ≤ z.numConsumers →
    1 ≤ z.bufferSize → (nConsumer z).Reachable s → s.main = .ended → s.AllConsumed := by
  intro h
  have hall := h shipped _ (by decide) (by decide) (by decide) (Sync.Trans.reach_after shippedRun) (by decide +kernel)
  have hcount : ((nConsumer shipped).after Sync.Trans.Free shippedRun).ring.count = 2 := by decide +kernel
  rw [hall.2] at hcount
  cases hcount

end NConsumer
