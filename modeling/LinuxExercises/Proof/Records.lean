import LinuxExercises.Proof.Sim

/-!
# Records and their receive threads

* `records_step`: a record belongs to at most one set-up; a receive thread runs for a
  record only once the set-up has made it, and the record's `thread` then names it.
-/

namespace Chat

/-- The record a set-up has in hand. -/
def SetupPc.node : SetupPc → Option Ptr
  | .malloc .. | .abort .. | .rbUnlock => none
  | .lock p _ | .link p _ | .publish p _ | .unlock p _ | .create p _ | .rbClose p _ => some p
  | .rbLock p | .rbFind p | .rbUnlink p _ | .rbFree p | .log p => some p

/-- The record of a set-up that has not made its thread. -/
def SetupPc.unmade : SetupPc → Option Ptr
  | .log _ => none
  | q => q.node

theorem SetupPc.node_of_unmade {q : SetupPc} {p : Ptr} (h : q.unmade = some p) : q.node = some p := by
  cases q <;> first | exact h | simp [SetupPc.unmade] at h

/-- Away from `rest` the set-up that moves is the listener's. -/
theorem mover_listener {t : Tid} {k : Stage} (ht : t = .main ∧ k = .rest ∨ t = .listener) (hk : k ≠ .rest) :
    t = .listener := ht.resolve_left fun h => hk h.2

/-- A change of a record that keeps a field keeps it for all records. -/
theorem setNode_keep {α : Type} {g : PeerConn → α} {f : PeerConn → PeerConn} (hg : ∀ n, g (f n) = g n)
    (m : Mem) (p x : Ptr) : g ((m.setNode p f).node x) = g (m.node x) := by
  by_cases hx : x = p
  · subst hx; simp [Mem.setNode, hg]
  · simp [Mem.setNode, hx]

theorem deactivate_keep {α : Type} {g : PeerConn → α} (hg : ∀ n, g { n with active := false } = g n)
    (m : Mem) (t : Tid) (p x : Ptr) : g ((m.apply t (.deactivate p)).node x) = g (m.node x) :=
  setNode_keep hg m p x

theorem mark_keep {α : Type} {g : PeerConn → α}
    (hg : ∀ n, g { n with active := false, shouldRemove := true } = g n)
    (m : Mem) (t : Tid) (p x : Ptr) : g ((m.apply t (.mark p)).node x) = g (m.node x) :=
  setNode_keep hg m p x

theorem create_keep {α : Type} {g : PeerConn → α} {p : Ptr} (hg : ∀ n, g { n with thread := some p } = g n)
    (m : Mem) (t : Tid) (x : Ptr) : g ((m.apply t (.create p)).node x) = g (m.node x) :=
  setNode_keep hg m p x

/-- A change of a history that keeps a field keeps it for all records. -/
theorem note_keep {α : Type} {g : Hist → α} {f : Hist → Hist} (hg : ∀ h, g (f h) = g h)
    (m : Mem) (p x : Ptr) : g ((m.note p f).hist x) = g (m.hist x) := by
  by_cases hx : x = p
  · subst hx; simp [Mem.note, hg]
  · simp [Mem.note, hx]

section Update

variable {su : Tid → Option SetupPc} {t : Tid} {q' : Option SetupPc}

/-- A fact about all set-ups, after one has moved. -/
theorem setups_update_ne {P : Tid → SetupPc → Prop} (hq : ∀ q, q' = some q → P t q)
    (hI : ∀ t' q, t' ≠ t → su t' = some q → P t' q) :
    ∀ t' q, Function.update su t q' t' = some q → P t' q := by
  intro t' q h
  by_cases ht : t' = t
  · subst ht; rw [Function.update_self] at h; exact hq q h
  · rw [Function.update_of_ne ht] at h; exact hI t' q ht h

theorem setups_update {P : Tid → SetupPc → Prop} (hq : ∀ q, q' = some q → P t q)
    (hI : ∀ t' q, su t' = some q → P t' q) : ∀ t' q, Function.update su t q' t' = some q → P t' q :=
  setups_update_ne hq fun t' q _ => hI t' q

/-- Only the main thread and the listener set up connections. -/
theorem makers_update (ht : t = .main ∨ t = .listener) (h : ∀ p, su (.recv p) = none) :
    ∀ p, Function.update su t q' (.recv p) = none := by
  intro p
  rw [Function.update_of_ne (by rcases ht with rfl | rfl <;> simp)]
  exact h p

end Update

/-- **Every receive thread belongs to one record**, which no set-up still has to make. -/
structure View.Records (v : View) : Prop where
  makers : ∀ p, v.setup (.recv p) = none
  bound : ∀ t q, v.setup t = some q → ∀ p, q.node = some p → p < v.mem.allocs
  apart : ∀ t q, v.setup t = some q → ∀ t' q', v.setup t' = some q' →
    ∀ p, q.node = some p → q'.node = some p → t = t'
  unmade : ∀ t q, v.setup t = some q → ∀ p, q.unmade = some p → v.mem.recv p = none
  thread : ∀ p, v.mem.recv p ≠ none → p < v.mem.allocs ∧ (v.mem.node p).thread = some p
  noThread : ∀ p, v.mem.recv p = none → (v.mem.node p).thread = none

theorem records_init : State.init.view.Records := by
  refine ⟨fun _ => rfl, ?_, ?_, ?_, ?_, ?_⟩
  · intro t q h; cases t <;> simp [State.view, State.setup, State.init, MainPc.inSetup, ListenerPc.inSetup] at h
  · intro t q h; cases t <;> simp [State.view, State.setup, State.init, MainPc.inSetup, ListenerPc.inSetup] at h
  · intro t q h; cases t <;> simp [State.view, State.setup, State.init, MainPc.inSetup, ListenerPc.inSetup] at h
  · intro p h; exact absurd rfl h
  · intro p _; rfl

/-- The set-ups after one has moved to a place with no other record. -/
theorem View.Records.move {m : Mem} {su : Tid → Option SetupPc} {k : Stage} {d : Bool} {t : Tid}
    {q' : Option SetupPc} (hI : View.Records ⟨m, su, k, d⟩) (ht : t = .main ∨ t = .listener)
    (hn : ∀ q, q' = some q → ∀ p, q.node = some p → ∃ q₀, su t = some q₀ ∧ q₀.node = some p)
    (hu : ∀ q, q' = some q → ∀ p, q.unmade = some p → ∃ q₀, su t = some q₀ ∧ q₀.unmade = some p) :
    View.Records ⟨m, Function.update su t q', k, d⟩ := by
  refine ⟨makers_update ht hI.makers, ?_, ?_, ?_, hI.thread, hI.noThread⟩
  · refine setups_update ?_ hI.bound
    intro q hq p hp
    obtain ⟨q₀, hs, h₀⟩ := hn q hq p hp
    exact hI.bound t q₀ hs p h₀
  · refine setups_update (fun q hq => setups_update (fun _ _ _ _ _ => rfl) ?_)
      (fun t₁ q₁ h₁ => setups_update ?_ (hI.apart t₁ q₁ h₁))
    · intro t₁ q₁ h₁ p hp hp₁
      obtain ⟨q₀, hs, h₀⟩ := hn q hq p hp
      exact hI.apart t q₀ hs t₁ q₁ h₁ p h₀ hp₁
    · intro q hq p hp₁ hp
      obtain ⟨q₀, hs, h₀⟩ := hn q hq p hp
      exact hI.apart t₁ q₁ h₁ t q₀ hs p hp₁ h₀
  · refine setups_update ?_ hI.unmade
    intro q hq p hp
    obtain ⟨q₀, hs, h₀⟩ := hu q hq p hp
    exact hI.unmade t q₀ hs p h₀

/-- Memory changes that are neither a new record nor a new thread. -/
theorem View.Records.congr {m m' : Mem} {su : Tid → Option SetupPc} {k k' : Stage} {d d' : Bool}
    (hI : View.Records ⟨m, su, k, d⟩) (ha : m'.allocs = m.allocs)
    (hr : ∀ p, m'.recv p = none ↔ m.recv p = none)
    (ht : ∀ p, (m'.node p).thread = (m.node p).thread) : View.Records ⟨m', su, k', d'⟩ := by
  refine ⟨hI.makers, ?_, hI.apart, ?_, ?_, ?_⟩
  · simp only [ha]; exact hI.bound
  · intro t q hs p hp; exact (hr p).2 (hI.unmade t q hs p hp)
  · intro p hp; simp only [ha, ht]; exact hI.thread p (mt (hr p).2 hp)
  · intro p hp; simp only [ht]; exact hI.noThread p ((hr p).1 hp)

/-- A receive thread that moves still belongs to its record. -/
theorem setRecv_none {m : Mem} {p : Ptr} {q q' : RecvPc} (hq : m.recv p = some q) (x : Ptr) :
    (m.setRecv p q').recv x = none ↔ m.recv x = none := by
  by_cases hx : x = p
  · subst hx; simp [Mem.setRecv, hq]
  · simp [Mem.setRecv, hx]

theorem View.Records.alloc {m : Mem} {su : Tid → Option SetupPc} {k : Stage} {d : Bool} {t : Tid}
    {fd : Fd} {c : Sock} {ip : Bytes} {port : ℕ} (hI : View.Records ⟨m, su, k, d⟩)
    (ht : t = .main ∨ t = .listener) :
    View.Records ⟨m.apply t (.alloc fd c ip port), Function.update su t (some (.lock m.allocs fd)), k, d⟩ := by
  have hnew : m.recv m.allocs = none := by
    by_contra hr; exact absurd (hI.thread _ hr).1 (lt_irrefl _)
  refine ⟨makers_update ht hI.makers, ?_, ?_, ?_, ?_, ?_⟩
  · refine setups_update ?_ fun t' q h p hp => Nat.lt_succ_of_lt (hI.bound t' q h p hp)
    rintro q ⟨⟩ p ⟨⟩
    exact Nat.lt_succ_self _
  · -- the new record is not the one of the other set-up
    have hne {t' q'} (h : su t' = some q') (hp : q'.node = some m.allocs) : False :=
      lt_irrefl _ (hI.bound t' q' h _ hp)
    refine setups_update ?_ fun t₁ q₁ h₁ => setups_update ?_ (hI.apart t₁ q₁ h₁)
    · rintro q ⟨⟩
      refine setups_update (fun _ _ _ _ _ => rfl) ?_
      rintro t₁ q₁ h₁ p ⟨⟩ hp
      exact (hne h₁ hp).elim
    · rintro q ⟨⟩ p hp ⟨⟩
      exact (hne h₁ hp).elim
  · refine setups_update ?_ hI.unmade
    rintro q ⟨⟩ p ⟨⟩
    exact hnew
  · intro p hp
    obtain ⟨hb, ht⟩ := hI.thread p hp
    refine ⟨Nat.lt_succ_of_lt hb, ?_⟩
    simpa [Mem.apply, Function.update_of_ne (Nat.ne_of_lt hb)] using ht
  · intro p hp
    by_cases hx : p = m.allocs
    · subst hx; simp [Mem.apply]
    · simpa [Mem.apply, Function.update_of_ne hx] using hI.noThread p hp

theorem View.Records.create {m : Mem} {su : Tid → Option SetupPc} {k : Stage} {d : Bool} {t : Tid}
    {p : Ptr} {fd : Fd} (hI : View.Records ⟨m, su, k, d⟩) (ht : t = .main ∨ t = .listener)
    (hs : su t = some (.create p fd)) :
    View.Records ⟨m.apply t (.create p), Function.update su t (some (.log p)), k, d⟩ := by
  have hp := hI.bound t _ hs p rfl
  have hrecv (x : Ptr) (hx : x ≠ p) : (m.apply t (.create p)).recv x = m.recv x := by
    simp [Mem.apply, Mem.setRecv, Mem.setNode, hx]
  have hnode (x : Ptr) (hx : x ≠ p) : (m.apply t (.create p)).node x = m.node x := by
    simp [Mem.apply, Mem.setRecv, Mem.setNode, hx]
  refine ⟨makers_update ht hI.makers, ?_, ?_, ?_, ?_, ?_⟩
  · refine setups_update ?_ hI.bound
    rintro q ⟨⟩ x ⟨⟩
    exact hp
  · refine setups_update ?_ fun t₁ q₁ h₁ => setups_update ?_ (hI.apart t₁ q₁ h₁)
    · rintro q ⟨⟩
      refine setups_update (fun _ _ _ _ _ => rfl) ?_
      rintro t₁ q₁ h₁ x ⟨⟩ hx
      exact hI.apart t _ hs t₁ q₁ h₁ p rfl hx
    · rintro q ⟨⟩ x hx ⟨⟩
      exact hI.apart t₁ q₁ h₁ t _ hs p hx rfl
  · intro t' q' (h : Function.update su t _ t' = some q') x hx
    by_cases ht : t' = t
    · subst ht; simp only [Function.update_self, Option.some.injEq] at h; subst h; cases hx
    · rw [Function.update_of_ne ht] at h
      have hne : x ≠ p := by
        rintro rfl; exact ht (hI.apart t' q' h t _ hs x (SetupPc.node_of_unmade hx) rfl)
      exact (hrecv x hne).trans (hI.unmade t' q' h x hx)
  · intro x hx
    by_cases hxp : x = p
    · subst hxp; exact ⟨hp, by simp [Mem.apply, Mem.setRecv, Mem.setNode]⟩
    · rw [hrecv x hxp] at hx; simp only [hnode x hxp]; exact hI.thread x hx
  · intro x hx
    by_cases hxp : x = p
    · subst hxp; simp [Mem.apply, Mem.setRecv] at hx
    · rw [hrecv x hxp] at hx; simp only [hnode x hxp]; exact hI.noThread x hx

theorem records_step {v v' : View} {l : Label} (hI : v.Records) (h : Move v l v') : v'.Records := by
  cases h with
  | @setup m su k d l t ch q op q' hl hs ht h =>
    have ht : t = .main ∨ t = .listener := ht.imp_left And.left
    -- apart from `alloc` and `create` a set-up keeps or drops its record
    have hmove (hn : ∀ r, q' = some r → ∀ p, r.node = some p → q.node = some p)
        (hu : ∀ r, q' = some r → ∀ p, r.unmade = some p → q.unmade = some p) {m' : Mem}
        (ha : m'.allocs = m.allocs) (hr : m'.recv = m.recv) (hth : ∀ p, (m'.node p).thread = (m.node p).thread) :
        View.Records ⟨m', Function.update su t q', k, d⟩ :=
      (hI.move ht (fun r hq p hp => ⟨q, hs, hn r hq p hp⟩) (fun r hq p hp => ⟨q, hs, hu r hq p hp⟩)).congr ha
        (fun p => by rw [hr]) hth
    cases h with
    | alloc fd c a ip port => exact hI.alloc ht
    | create p fd => exact hI.create ht hs
    | _ =>
      exact hmove (by rintro r ⟨⟩ p ⟨⟩ <;> rfl) (by rintro r ⟨⟩ p ⟨⟩ <;> rfl) rfl rfl (fun _ => rfl)
  | @main m su k d l ch op k' hl hs h =>
    cases h with
    | clear p => exact hI.congr rfl (fun _ => Iff.rfl) (deactivate_keep (fun _ => rfl) m .main p)
    | clearExit p => exact hI.congr rfl (fun _ => Iff.rfl) (deactivate_keep (fun _ => rfl) m .main p)
    | _ => exact hI.congr rfl (fun _ => Iff.rfl) (fun _ => rfl)
  | @connected m su d l fd c a hs =>
    have hI : View.Records ⟨m, su, .rest, d⟩ := hI.congr rfl (fun _ => Iff.rfl) (fun _ => rfl)
    exact hI.move (.inl rfl) (by rintro q ⟨⟩ p ⟨⟩) (by rintro q ⟨⟩ p ⟨⟩)
  | @accepted m su k l n a hl hs hn =>
    have hI : View.Records ⟨m.apply .listener (.openConn n), su, k, false⟩ :=
      hI.congr rfl (fun _ => Iff.rfl) (fun _ => rfl)
    exact hI.move (.inr rfl) (by rintro q ⟨⟩ p ⟨⟩) (by rintro q ⟨⟩ p ⟨⟩)
  | listen => exact hI
  | listenerEnds hs hr => exact hI.congr rfl (fun _ => Iff.rfl) (fun _ => rfl)
  | @recv m su k d l p q op q' hq h =>
    cases h with
    | mark =>
      exact hI.congr rfl (setRecv_none (m := m.apply (.recv p) (.mark p)) hq)
        (mark_keep (fun _ => rfl) m (.recv p) p)
    | _ => exact hI.congr rfl (setRecv_none hq) (fun _ => rfl)
  | peer hc => exact hI.congr rfl (fun _ => Iff.rfl) (fun _ => rfl)

end Chat
