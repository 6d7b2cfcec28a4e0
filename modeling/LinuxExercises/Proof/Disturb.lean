import LinuxExercises.Spec.SetUp
import LinuxExercises.Proof.Reap

/-!
# What the other threads do to a registry

* `Registry.Agrees`: two registries are the same but for one record; a change that spares
  this record keeps it (`Agrees.change`).
* `Disturbed`: what an interference does to the shared state, and `disturbed`: it does so.
-/

namespace Chat

variable {m m' : Mem} {a : Disturb} {p : Ptr} {l l' : List Ptr} {own : Option Ptr} {r r' : Registry}

/-! ## Changes of a registry -/

/-- The list without the record. -/
def without (own : Option Ptr) (l : List Ptr) : List Ptr := own.elim l l.erase

theorem without_subset (h : p ∈ without own l) : p ∈ l := by
  cases own with
  | none => exact h
  | some q => exact List.mem_of_mem_erase h

theorem not_mem_without (hl : l.Nodup) (h : p ∈ without own l) : own ≠ some p := by
  rintro rfl
  exact hl.not_mem_erase h

/-- The registries are the same but for the record. -/
structure Registry.Agrees (own : Option Ptr) (r r' : Registry) : Prop where
  list : r.list = without own r'.list
  node : ∀ p ∈ r.list, r'.node p = r.node p

/-- The change neither inserts nor removes the record. -/
def Change.Spares (own : Option Ptr) : Change → Prop
  | .insert p _ | .remove p => own ≠ some p
  | _ => True

/-- The insertion and the removal of other records commute with leaving one out. -/
theorem without_change (c : Change) (hc : c.Spares own) (h : r.list = without own r'.list) :
    (r.change c).list = without own (r'.change c).list := by
  cases own with
  | none => cases c <;> simp_all [Registry.change, without]
  | some x =>
    cases c with
    | insert p n =>
      have hne : p ≠ x := fun e => hc (e ▸ rfl)
      simp only [Registry.change, without, Option.elim]
      rw [List.erase_cons_tail (by simpa using hne), h]
      rfl
    | remove p =>
      simp only [Registry.change, without, Option.elim]
      rw [h]
      exact List.erase_comm ..
    | mark p => exact h
    | deactivate p => exact h
    | opens fd f => exact h
    | closes fd => exact h

/-- **A change by another thread** to both registries. -/
theorem Registry.Agrees.change (h : r.Agrees own r') (c : Change) (hc : c.Spares own) :
    (r.change c).Agrees own (r'.change c) := by
  refine ⟨without_change c hc h.list, fun q hq => ?_⟩
  cases c with
  | insert p n =>
    simp only [Registry.change] at hq ⊢
    by_cases hqp : q = p
    · subst hqp
      rw [Function.update_self, Function.update_self]
    · rw [Function.update_of_ne hqp, Function.update_of_ne hqp]
      exact h.node q ((List.mem_cons.1 hq).resolve_left hqp)
  | mark p =>
    have hn := h.node q hq
    simp only [Registry.change, Function.update_apply]
    grind
  | deactivate p =>
    have hn := h.node q hq
    simp only [Registry.change, Function.update_apply]
    grind
  | remove p => exact h.node q (List.mem_of_mem_erase hq)
  | opens fd f => exact h.node q hq
  | closes fd => exact h.node q hq

/-- The record stays in the list, or out of it. -/
theorem mem_change (c : Change) (hc : c.Spares (some p)) : p ∈ (r.change c).list ↔ p ∈ r.list := by
  cases c with
  | insert q n =>
    have hne : p ≠ q := fun e => hc (e ▸ rfl)
    simp [Registry.change, hne]
  | remove q =>
    have hne : p ≠ q := fun e => hc (e ▸ rfl)
    simp only [Registry.change]
    exact List.mem_erase_of_ne hne
  | mark q => rfl
  | deactivate q => rfl
  | opens fd f => rfl
  | closes fd => rfl

/-- The descriptor table after a change depends on the one before only. -/
theorem change_files (c : Change) (h : r.files = r'.files) : (r.change c).files = (r'.change c).files := by
  cases c <;> simp [Registry.change, h]

/-! ## What an interference does -/

/-- **What is known of the state after an interference.** -/
structure Disturbed (m : Mem) (a : Disturb) (m' : Mem) : Prop where
  lists : m'.Lists (m.registry.change (a.change m)).list
  node : ∀ p ∈ (m.registry.change (a.change m)).list, m'.node p = (m.registry.change (a.change m)).node p
  files : m'.files = (m.registry.change (a.change m)).files
  allocs : m.allocs ≤ m'.allocs
  life : ∀ p < m.allocs, a ≠ .remove p → (m'.hist p).life = (m.hist p).life
  ids : m'.nextConnId = m.nextConnId + if (a.change m).isInsert then 1 else 0
  running : m'.running = m.running
  mutex : m'.connMutex = m.connMutex

theorem Meddled.inserts {fd : Fd} {c : Sock} {ip : Bytes} {port : ℕ} {started : Bool}
    (h : Meddled m l (.prepend fd c ip port started) m' l') :
    m'.Lists (m.allocs :: l) ∧ m'.allocs = m.allocs + 1 ∧
      ∀ q, q ≠ m.allocs → m'.node q = m.node q ∧ (m'.hist q).life = (m.hist q).life := by
  cases h with
  | idle ha => exact ha.elim
  | prepend lists allocs _ _ node life => exact ⟨lists, allocs, fun q hq => ⟨node q hq, life q hq⟩⟩

theorem disturbed_insert (hl : m.Lists m.listed) (hfree : m.connMutex = none) (fd : Fd) (c : Sock) (ip : Bytes)
    (port : ℕ) (started : Bool) : Disturbed m (.insert fd c ip port started) (m.disturb (.insert fd c ip port started)) := by
  obtain ⟨l', hm⟩ := meddle_cases hl (.prepend fd c ip port started)
  obtain ⟨lists, allocs, keep⟩ := hm.inserts
  refine ⟨lists, fun q hq => ?_, ?_, allocs.ge.trans' (Nat.le_succ _), fun q hq _ => (keep q hq.ne).2, ?_, ?_, ?_⟩
  · simp only [Disturb.change, Mem.disturb, Registry.change]
    by_cases hqm : q = m.allocs
    · rw [hqm, Function.update_self]
    · rw [Function.update_of_ne hqm]
      exact (keep q hqm).1
  · cases started <;> rfl
  · cases started <;> rfl
  · cases started <;> rfl
  · rw [hfree]
    cases started <;> rfl

theorem disturbed_mark (hl : m.Lists m.listed) (hfree : m.connMutex = none) (p : Ptr) :
    Disturbed m (.mark p) (m.disturb (.mark p)) := by
  by_cases hp : p ∈ m.listed
  · have hm : m.disturb (.mark p) = (m.perform (.recv p) [.lock, .mark p, .unlock]).setRecv p .finished := by
      simp only [Mem.disturb, Mem.meddle]
      rw [if_pos hp]
    rw [hm]
    exact ⟨⟨hl.chain, hl.nodup, hl.born, hl.alive⟩, fun _ _ => rfl, rfl, le_rfl, fun _ _ _ => rfl,
      (BitVec.add_zero _).symm, rfl, hfree.symm⟩
  · have hm : m.disturb (.mark p) = m := by
      simp only [Mem.disturb, Mem.meddle]
      rw [if_neg hp]
    rw [hm]
    refine ⟨hl, fun q hq => ?_, rfl, le_rfl, fun _ _ _ => rfl, (BitVec.add_zero _).symm, rfl, rfl⟩
    have hqp : q ≠ p := fun e => hp (e ▸ hq)
    simp only [Disturb.change, Registry.change]
    rw [Function.update_of_ne hqp]
    rfl

theorem disturbed_remove (hl : m.Lists m.listed) (hfree : m.connMutex = none) (hp : p ∈ m.listed) :
    Disturbed m (.remove p) (m.disturb (.remove p)) := by
  obtain ⟨prev, hprev⟩ := Option.ne_none_iff_exists'.1 (mt Sync.findPrev_none.1 (not_not.2 hp) :
    Sync.findPrev p none m.listed ≠ none)
  have hm : m.disturb (.remove p) = m.perform .main [.lock, .unlink p prev, .free p, .unlock] := by
    simp only [Mem.disturb]
    rw [hprev]
  rw [hm]
  have hrem := (hl.same (same_lock m .main)).remove (t := .main) (Sync.findPrev_hangs hl.chain hprev)
  refine ⟨hrem.same (same_unlock _ .main), fun _ _ => rfl, rfl, le_rfl, fun q _ hq => ?_,
    (BitVec.add_zero _).symm, rfl, hfree.symm⟩
  have hne : q ≠ p := fun e => hq (e ▸ rfl)
  simp only [Mem.perform, List.foldl, Mem.apply, Mem.note]
  rw [Function.update_of_ne hne]

/-- **What an interference does.** -/
theorem disturbed (hl : m.Lists m.listed) (hfree : a.locks → m.connMutex = none)
    (hp : ∀ p, a = .remove p → p ∈ m.listed) : Disturbed m a (m.disturb a) := by
  cases a with
  | insert fd c ip port started => exact disturbed_insert hl (hfree rfl) fd c ip port started
  | mark p => exact disturbed_mark hl (hfree rfl) p
  | deactivate p =>
    exact ⟨⟨hl.chain, hl.nodup, hl.born, hl.alive⟩, fun _ _ => rfl, rfl, le_rfl, fun _ _ _ => rfl,
      (BitVec.add_zero _).symm, rfl, (hfree rfl).symm⟩
  | remove p => exact disturbed_remove hl (hfree rfl) (hp p rfl)
  | opens fd =>
    exact ⟨⟨hl.chain, hl.nodup, hl.born, hl.alive⟩, fun _ _ => rfl, rfl, le_rfl, fun _ _ _ => rfl,
      (BitVec.add_zero _).symm, rfl, rfl⟩
  | closes fd =>
    exact ⟨hl.same (same_close m .main fd none), fun _ _ => rfl, rfl, le_rfl, fun _ _ _ => rfl,
      (BitVec.add_zero _).symm, rfl, rfl⟩

end Chat
