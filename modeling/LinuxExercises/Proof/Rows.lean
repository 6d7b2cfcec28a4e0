import LinuxExercises.Spec.Rows
import LinuxExercises.Proof.Closing
import LinuxExercises.Proof.Flags

/-!
# The list of connections is a table behind a lock

* `step_did`: which thread a step moves, and the operation it performs.
* `Spells.rows_eq`: the table after each kind of operation.
* `table_step`: a step edits the table only inside the mutex, as one edit that its thread may make.
* `rows_atomic`: **the process refines the table**.
* `rows_held`: while a thread holds `conn_mutex`, the others change neither the table nor the
  mutex, however long they run.
-/

namespace Chat

open Sync (Hangs)

variable {E : Env} {s s' : State} {m m' : Mem} {l : List Ptr} {lab : Label} {t : Tid} {p : Ptr}

/-! ## Which thread does what -/

/-- **What a step does to the memory**, and on whose behalf. -/
inductive Did (s s' : State) : Label → Prop where
  | setup (t : Tid) (ch : Choice) (q : SetupPc) (op : Op) (q' : Option SetupPc) (lab : Label) :
      t = .main ∨ t = .listener → lab.who = some (t, ch) → s.setup t = some q → SetupMove s.mem ch q op q' →
      s'.mem = s.mem.apply t op → Did s s' lab
  | main (ch : Choice) (op : Op) : s.setup .main = none →
      MainMove s.mem (s.listener = .finished) ch s.main.stage op s'.main.stage →
      s'.mem = s.mem.apply .main op → Did s s' (.main ch)
  | recv (p : Ptr) (ch : Choice) (q : RecvPc) (op : Op) (q' : RecvPc) : s.mem.recv p = some q →
      RecvMove s.mem p q op q' → s'.mem = (s.mem.apply (.recv p) op).setRecv p q' → Did s s' (.recv p ch)
  /-- No record, no link and no lock is touched. -/
  | quiet (lab : Label) : s'.mem.rows = s.mem.rows → s'.mem.connMutex = s.mem.connMutex → Did s s' lab

theorem step_did (h : (chat E).step s lab = some s') : Did s s' lab := by
  rcases (step_threads h).2 with ⟨ch, op, c, rfl, hf, rfl⟩ | ⟨ch, op, r, rfl, hf, rfl⟩ |
    ⟨q, ch, x, op, f, rfl, hq, hf, rfl⟩ | ⟨c, e, rfl, -, rfl⟩
  · cases hs : s.main.inSetup with
    | some x =>
      have hin := inSetup_eq hs
      rw [hin] at hf
      obtain ⟨⟨op', f⟩, hf, he⟩ := Option.map_eq_some_iff.1 hf
      obtain ⟨⟨op'', g⟩, hg, he'⟩ := Option.map_eq_some_iff.1 hf
      cases he'
      cases he
      exact .setup .main ch x op g.next _ (.inl rfl) rfl hs (setup_move hg).1 rfl
    | none =>
      rcases main_move hs hf with ⟨fd, c', a, -, rfl, rfl⟩ | ⟨hm, -⟩
      · exact .quiet _ rfl rfl
      · exact .main ch op hs hm rfl
  · cases hr : s.listener with
    | setup x =>
      rw [hr] at hf
      obtain ⟨⟨op', f⟩, hg, he⟩ := Option.map_eq_some_iff.1 hf
      cases he
      exact .setup .listener ch x op f.next _ (.inr rfl) rfl (by simp [State.setup, hr, ListenerPc.inSetup])
        (setup_move hg).1 rfl
    | accept =>
      rw [hr] at hf
      cases ch with
      | peer n a =>
        simp only [listenerThread] at hf
        split at hf <;> cases hf
        exact .quiet _ rfl rfl
      | fail => cases hf; exact .quiet _ rfl rfl
      | _ => simp [listenerThread] at hf
    | finished => simp [hr, listenerThread] at hf
    | _ =>
      simp only [hr, listenerThread, Option.some.injEq, Prod.mk.injEq] at hf
      obtain ⟨rfl, -⟩ := hf
      exact .quiet _ rfl rfl
  · exact .recv q ch x op _ hq (recv_move hf) rfl
  · exact .quiet _ rfl rfl

/-! ## The table after an operation -/

/-- The listed records have been made. -/
theorem Mem.Spells.made (h : m.Spells l) (hp : p ∈ l) : p < m.allocs := h.born p (h.inserted hp)

/-- The table is that of any memory with the same list and the same listed records. -/
theorem Mem.Spells.rows_congr (h : m.Spells l) (h' : m'.Spells l) (hrow : ∀ p ∈ l, m'.row p = m.row p) :
    m'.rows = m.rows := by
  unfold Mem.rows
  rw [h.listed_eq, h'.listed_eq]
  exact List.map_congr_left hrow

/-- The list is untouched. -/
theorem Mem.Spells.congr (h : m.Spells l) (hn : m'.next = m.next) (hh : m'.connHead = m.connHead)
    (hi : m'.inserted = m.inserted) (hu : m'.unlinked = m.unlinked) (ha : m.allocs ≤ m'.allocs) : m'.Spells l := by
  refine ⟨?_, h.nodup, ?_, ?_, ?_, ?_⟩
  · rw [hn, hh]; exact h.chain
  · rw [hi, hu]; exact h.mem_iff
  · rw [hi]; exact h.once
  · rw [hi, hu]; exact h.before
  · rw [hi]; exact fun p hp => (h.born p hp).trans_le ha

/-- `active = 0`. -/
theorem Mem.Spells.rows_deactivate (h : m.Spells l) : (m.apply t (.deactivate p)).rows = (Edit.deactivate p).on m.rows := by
  have h' : (m.apply t (.deactivate p)).Spells l := h.congr rfl rfl rfl rfl le_rfl
  simp only [Mem.rows, h.listed_eq, h'.listed_eq, Edit.on, List.map_map]
  refine List.map_congr_left fun x _ => ?_
  by_cases hx : x = p
  · subst hx
    simp [Mem.row, Mem.apply, Mem.setNode]
  · simp [Mem.row, Mem.apply, Mem.setNode, hx]

/-- `active = 0; should_remove = 1`. -/
theorem Mem.Spells.rows_mark (h : m.Spells l) : (m.apply t (.mark p)).rows = (Edit.mark p).on m.rows := by
  have h' : (m.apply t (.mark p)).Spells l := h.congr rfl rfl rfl rfl le_rfl
  simp only [Mem.rows, h.listed_eq, h'.listed_eq, Edit.on, List.map_map]
  refine List.map_congr_left fun x _ => ?_
  by_cases hx : x = p
  · subst hx
    simp [Mem.row, Mem.apply, Mem.setNode]
  · simp [Mem.row, Mem.apply, Mem.setNode, hx]

/-- `conn_head = p`. -/
theorem Mem.Spells.rows_publish (h : m.Spells l) (h' : (m.apply t (.publish p)).Spells (p :: l)) :
    (m.apply t (.publish p)).rows = (Edit.add (m.row p)).on m.rows := by
  simp only [Mem.rows, h.listed_eq, h'.listed_eq, Edit.on, List.map_cons]
  rfl

/-- `prev->next = p->next`. -/
theorem Mem.Spells.rows_unlink {prev : Option Ptr} (h : m.Spells l)
    (hp : Hangs m.next m.connHead l p prev) : (m.apply t (.unlink p prev)).rows = (Edit.drop p).on m.rows := by
  have h' : (m.apply t (.unlink p prev)).Spells (l.erase p) := h.unlink hp
  simp only [Mem.rows, h.listed_eq, h'.listed_eq, Edit.on, h.nodup.erase_eq_filter, List.filter_map]
  have hfilter : (l.filter fun x => x != p) = l.filter ((fun r : Row => decide (r.conn ≠ p)) ∘ m.row) := by
    refine List.filter_congr fun x _ => ?_
    by_cases hx : x = p <;> simp [Mem.row, hx]
  rw [← hfilter]
  rfl

/-- `conn_head = NULL`. -/
theorem Mem.Spells.rows_clearHead (h : m.Spells l) : (m.apply t .clearHead).rows = Edit.clear.on m.rows := by
  simp [Mem.rows, (h.clearHead (t := t)).listed_eq, Edit.on]

/-- The record of a listed row. -/
theorem Mem.Spells.exists_row (h : m.Spells l) (hp : p ∈ l) : ∃ r ∈ m.rows, r.conn = p := by
  refine ⟨m.row p, ?_, rfl⟩
  unfold Mem.rows
  rw [h.listed_eq]
  exact List.mem_map_of_mem hp

/-! ## One step -/

/-- The step leaves the table alone, or it is one edit made inside the mutex. -/
def Edited (s s' : State) (lab : Label) : Prop :=
  s'.mem.rows = s.mem.rows ∨
    ∃ (t : Tid) (ch : Choice) (e : Edit), lab.who = some (t, ch) ∧ s.view.inside t = true ∧ s'.mem.connMutex = s.mem.connMutex ∧
      e.By t ∧ e.Fits s.mem.rows ∧ s'.mem.rows = e.on s.mem.rows

theorem edited_setup {ch : Choice} {q : SetupPc} {op : Op} {q' : Option SetupPc} (hB : s.view.Base)
    (hC : s.view.Closing) (hF : s.view.Flags) (ht : t = .main ∨ t = .listener) (hl : lab.who = some (t, ch))
    (hs : s.setup t = some q) (h : SetupMove s.mem ch q op q') (he : s'.mem = s.mem.apply t op) : Edited s s' lab := by
  obtain ⟨l, hL, hS, -⟩ := hB.registry
  have hL : s.mem.Spells l := hL
  have hq : q.Ok s.mem l := hS t q hs
  unfold Edited
  rw [he]
  have hinside (hin : q.inside = true) : s.view.inside t = true := View.inside_setup ht hs hin
  cases h with
  | alloc fd c a ip port =>
    refine .inl (hL.rows_congr (hL.congr rfl rfl rfl rfl (Nat.le_succ _)) fun p hp => ?_)
    have hne : p ≠ s.mem.allocs := (hL.made hp).ne
    simp [Mem.row, Mem.apply, hne]
  | link p fd => exact .inl (hL.rows_congr (hL.link hq) fun _ _ => rfl)
  | publish p fd =>
    have hlist : (s.mem.apply t (.publish p)).Spells (p :: l) :=
      hL.publish hq.1 hq.2 (hB.records.bound t _ hs p rfl)
    refine .inr ⟨t, ch, .add (s.mem.row p), hl, hinside rfl, rfl, ht, ⟨⟨?_, ?_⟩, fun x hx => ?_⟩, hL.rows_publish hlist⟩
    · -- only a listed record is closed
      show (s.mem.node p).active = true
      by_contra ha
      have hclosed := hC.theirs t _ hs p fd rfl (Bool.eq_false_iff.2 ha)
      exact hq.1 (hC.inserted p hclosed)
    · show (s.mem.node p).shouldRemove = false
      have hnone : s.mem.recv p = none := hB.records.unmade t _ hs p rfl
      rw [show (s.mem.node p).shouldRemove = _ from hF.marked p, show s.view.mem.recv p = none from hnone]
      rfl
    · obtain ⟨y, hy, rfl⟩ := List.mem_map.1 hx
      rw [hL.listed_eq] at hy
      rintro rfl
      exact hq.1 (hL.inserted hy)
  | rbUnlink p prev =>
    exact .inr ⟨t, ch, .drop p, hl, hinside rfl, rfl, ht, hL.exists_row ((show Hangs _ _ _ _ _ from hq).mem hL.chain), hL.rows_unlink hq⟩
  | create p fd =>
    refine .inl (hL.rows_congr (hL.congr rfl rfl rfl rfl le_rfl) fun x _ => ?_)
    by_cases hx : x = p
    · subst hx
      simp [Mem.row, Mem.apply, Mem.setNode, Mem.setRecv]
    · simp [Mem.row, Mem.apply, Mem.setNode, Mem.setRecv, hx]
  | _ => exact .inl (hL.rows_congr (hL.congr rfl rfl rfl rfl le_rfl) fun _ _ => rfl)

theorem edited_main {ch : Choice} {op : Op} (hB : s.view.Base) (h : MainMove s.mem (s.listener = .finished) ch s.main.stage op s'.main.stage)
    (he : s'.mem = s.mem.apply .main op) : Edited s s' (.main ch) := by
  obtain ⟨l, hL, -, hk⟩ := hB.registry
  have hL : s.mem.Spells l := hL
  have hk : s.main.stage.Ok s.mem l := hk
  have hinside (hin : s.main.stage.inside = true) : s.view.inside .main = true := by
    simp [View.inside, State.view, hin]
  unfold Edited
  rw [he]
  generalize hst : s.main.stage = k at h hk hinside
  generalize s'.main.stage = k' at h
  cases h with
  | unlink b p prev =>
    exact .inr ⟨.main, ch, .drop p, rfl, hinside rfl, rfl, .inl rfl, hL.exists_row ((show Hangs _ _ _ _ _ from hk).mem hL.chain), hL.rows_unlink hk⟩
  | clear p =>
    exact .inr ⟨.main, ch, .deactivate p, rfl, hinside rfl, rfl, rfl, hL.exists_row hk, hL.rows_deactivate (t := .main)⟩
  | clearExit p =>
    exact .inr ⟨.main, ch, .deactivate p, rfl, hinside rfl, rfl, rfl, hL.exists_row hk, hL.rows_deactivate (t := .main)⟩
  | clearHead => exact .inr ⟨.main, ch, .clear, rfl, hinside rfl, rfl, rfl, trivial, hL.rows_clearHead⟩
  | _ => exact .inl (hL.rows_congr (hL.congr rfl rfl rfl rfl le_rfl) fun _ _ => rfl)

theorem edited_recv {ch : Choice} {q q' : RecvPc} {op : Op} (hB : s.view.Base) (hq : s.mem.recv p = some q)
    (h : RecvMove s.mem p q op q') (he : s'.mem = (s.mem.apply (.recv p) op).setRecv p q') : Edited s s' (.recv p ch) := by
  obtain ⟨l, hL, -, -⟩ := hB.registry
  have hL : s.mem.Spells l := hL
  unfold Edited
  rw [he]
  show (s.mem.apply (.recv p) op).rows = s.mem.rows ∨ _
  cases h with
  | mark =>
    by_cases hp : p ∈ l
    · refine .inr ⟨.recv p, ch, .mark p, rfl, ?_, rfl, rfl, hL.exists_row hp, hL.rows_mark (t := .recv p)⟩
      simp [View.inside, State.view, hq, RecvPc.inside]
    · -- the record is off the list
      refine .inl (hL.rows_congr (hL.congr rfl rfl rfl rfl le_rfl) fun x hx => ?_)
      have hne : x ≠ p := by
        rintro rfl
        exact hp hx
      simp [Mem.row, Mem.apply, Mem.setNode, hne]
  | _ => exact .inl (hL.rows_congr (hL.congr rfl rfl rfl rfl le_rfl) fun _ _ => rfl)

/-- **A step edits the table only inside the mutex.** -/
theorem edited_step (h : (chat E).Reachable s) (hs : (chat E).step s lab = some s') : Edited s s' lab := by
  have hB : s.view.Base := base_reach (C := fun _ _ => True) h
  have hC : s.view.Closing := closing_reach (C := fun _ _ => True) h
  have hF : s.view.Flags := flags_reach (C := fun _ _ => True) h
  cases step_did hs with
  | setup t ch q op q' lab ht hl hq hm he => exact edited_setup hB hC hF ht hl hq hm he
  | main ch op _ hm he => exact edited_main hB hm he
  | recv p ch q op q' hq hm he => exact edited_recv hB hq hm he
  | quiet lab hrows _ => exact .inl hrows

/-- A main thread that is outside takes no mutex that somebody holds, and gives back none. -/
theorem MainMove.kept {d : Bool} {ch : Choice} {k k' : Stage} {op : Op} (h : MainMove m d ch k op k')
    (hk : k.inside = false) (hm : m.connMutex ≠ none) : (m.apply .main op).connMutex = m.connMutex := by
  cases h with
  | lock w hfree => exact absurd hfree hm
  | relock b p hfree => exact absurd hfree hm
  | exitLock hfree => exact absurd hfree hm
  | exitRelock hfree => exact absurd hfree hm
  | leave | leaveExit | unlockFound | unlockFailed | unlockDoomed | unlockClosed | unlockPassed | exitLeave => cases hk
  | _ => rfl

/-- A step of another thread leaves the mutex with its owner. -/
theorem mutex_kept {o : Option Tid} {b b' : Bool} {t' : Tid} (h : Sync.LockStep t' (some t) o b b') (hb : b = false) :
    o = some t := by
  cases h with
  | release => cases hb
  | keep => rfl

theorem mutex_step (h : (chat E).Reachable s) (hs : (chat E).step s lab = some s') (hm : s.mem.connMutex = some t)
    (hl : lab.by t = false) : s'.mem.connMutex = some t := by
  have hO := (records_owner (C := fun _ _ => True) h).2 (step_move hs).1
  have hne (t' : Tid) (ch : Choice) (hw : lab.who = some (t', ch)) : s.view.inside t' = false := by
    refine Bool.eq_false_iff.2 fun hin => ?_
    obtain rfl : t = t' := Option.some.inj (hm.symm.trans ((hO t').1 hin))
    simp [Label.by, hw] at hl
  cases step_did hs with
  | setup t' ch q op q' lab ht hw hq hmove he =>
    have hout : q.inside = false := by
      refine Bool.eq_false_iff.2 fun hin => ?_
      exact absurd (View.inside_setup ht hq hin) (Bool.eq_false_iff.1 (hne t' ch hw))
    have hstep := hmove.lockStep t'
    rw [hm] at hstep
    rw [he]
    exact mutex_kept hstep hout
  | main ch op hsu hmove he =>
    have hout : s.main.stage.inside = false := by
      have hin := hne .main ch rfl
      simp only [View.inside, Bool.or_eq_false_iff] at hin
      exact hin.1
    rw [he, hmove.kept hout (by simp [hm]), hm]
  | recv p ch q op q' hq hmove he =>
    have hout : q.inside = false := by
      have hin := hne (.recv p) ch rfl
      simpa [View.inside, State.view, hq] using hin
    have hstep := hmove.lockStep
    rw [hm] at hstep
    rw [he]
    exact mutex_kept hstep hout
  | quiet lab _ hmutex => rw [hmutex, hm]

/-! ## All runs -/

/-- **The process refines the table**: from every reachable state, a step of the process leaves
the table as it is, or it is one step of the table, made by its thread while that thread holds
`conn_mutex`. -/
theorem rows_atomic (h : (chat E).Reachable s) (hs : (chat E).step s lab = some s') :
    s'.mem.rows = s.mem.rows ∨
      ∃ t ch e, lab.who = some (t, ch) ∧ s.mem.connMutex = some t ∧ s'.mem.connMutex = some t ∧
        connTable.step s.mem.rows (t, e) = some s'.mem.rows := by
  rcases edited_step h hs with hsame | ⟨t, ch, e, hw, hin, hmutex, hby, hfits, hrows⟩
  · exact .inl hsame
  · have hO := (records_owner (C := fun _ _ => True) h).2 (step_move hs).1
    have hheld : s.mem.connMutex = some t := (hO t).1 hin
    refine .inr ⟨t, ch, e, hw, hheld, hmutex.trans hheld, ?_⟩
    show (if e.By t ∧ e.Fits s.mem.rows then some (e.on s.mem.rows) else none) = _
    rw [if_pos ⟨hby, hfits⟩, hrows]

/-- The listener is at `conn_head = new_conn`, inside the mutex. -/
def publishing : State := (chat .demo).after Sync.Trans.Free (accepts 4 ++ listens 3)

def published : State := ((chat .demo).step publishing (.listener .ok)).getD publishing

theorem rows_atomic_publish :
    published.mem.rows ≠ publishing.mem.rows ∧ publishing.mem.connMutex = some .listener := by
  have hne : published.mem.rows ≠ publishing.mem.rows := by decide +kernel
  have hs : (chat .demo).step publishing (.listener .ok) = some published :=
    (Option.some_get (by decide +kernel)).symm.trans (congrArg some (Option.get_eq_getD _))
  obtain ⟨t, ch, e, hw, hheld, -⟩ := (rows_atomic (Sync.Trans.reach_after _) hs).resolve_left hne
  cases hw
  exact ⟨hne, hheld⟩

/-- **The mutex protects the table**: as long as the thread that holds `conn_mutex` makes no
step, the other threads and the peers, however many steps they make, change neither the table
nor the mutex. -/
theorem rows_held (h : (chat E).Reachable s) (hm : s.mem.connMutex = some t)
    (hl : (chat E).Leads (fun lab => lab.by t = false) s s') :
    s'.mem.rows = s.mem.rows ∧ s'.mem.connMutex = some t := by
  refine hl.inv (I := fun x => x.mem.rows = s.mem.rows ∧ x.mem.connMutex = some t) ?_ h ⟨rfl, hm⟩
  rintro x lab y hx ⟨hrows, hheld⟩ hlab hst
  refine ⟨?_, mutex_step hx hst hheld hlab⟩
  rcases edited_step hx hst with hsame | ⟨t', ch, e, hw, hin, -⟩
  · exact hsame.trans hrows
  · have hO := (records_owner (C := fun _ _ => True) hx).2 (step_move hst).1
    obtain rfl : t = t' := Option.some.inj (hheld.symm.trans ((hO t').1 hin))
    simp [Label.by, hw] at hlab

/-- Meanwhile the main thread reads a line and the peer closes. -/
def besidePublish : List Label := [.main (.line .idle), .peer 0 .close]

theorem rows_held_publish :
    (((chat .demo).run Sync.Trans.Free publishing besidePublish).getD publishing).main ≠ publishing.main ∧
    (((chat .demo).run Sync.Trans.Free publishing besidePublish).getD publishing).mem.rows = publishing.mem.rows ∧
    (((chat .demo).run Sync.Trans.Free publishing besidePublish).getD publishing).mem.connMutex = some .listener := by
  refine ⟨by decide +kernel, rows_held (Sync.Trans.reach_after _) (by decide +kernel) ⟨besidePublish, by decide, ?_⟩⟩
  exact (Option.some_get (by decide +kernel)).symm.trans (congrArg some (Option.get_eq_getD _))

end Chat
