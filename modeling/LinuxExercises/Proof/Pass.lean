import LinuxExercises.Proof.Closing

/-!
# The pass of `cmd_exit`

* `swept_main`, `swept_setup`: what the pass establishes of every record it meets holds,
  while it is under way, of every listed record that is not ahead of it, and behind it of
  every listed record.
-/

namespace Chat

/-- What is still ahead of the pass; nothing is left behind it. -/
def Stage.toPass : Stage → Option (Option Ptr)
  | .pass cur => some cur
  | .send .exit p | .shutdown .exit p | .close .exit p | .clear .exit p => some (some p)
  | .passed | .waiting | .exitRelock | .next _ | .exitJoining .. | .exitFree _ | .clearHead | .exitLeave => some none
  | _ => none

/-- The pass has established `P` of the listed records that are not ahead of it. -/
def View.Swept (v : View) (P : Ptr → Prop) : Prop :=
  ∀ cur, v.stage.toPass = some cur → ∀ p, v.mem.Listed p → P p ∨ Sync.From v.mem.next cur p

/-- The pass of `cmd_exit` meets active records only. -/
def PassActive (v : View) (l : Label) : Prop :=
  l.by .main = true → ∀ p ∈ v.mem.listed, v.stage = .pass (some p) → (v.mem.node p).active = true

instance (v : View) (l : Label) : Decidable (PassActive v l) := by unfold PassActive; infer_instance

variable {m : Mem} {su : Tid → Option SetupPc} {k k' : Stage} {d : Bool} {t : Tid} {ch : Choice} {op : Op}
  {q : SetupPc} {q' : Option SetupPc} {P P' : Ptr → Prop}

theorem swept_main {l : Label} (hB : View.Base ⟨m, su, k, d⟩) (hC : PassActive ⟨m, su, k, d⟩ l)
    (hI : View.Swept ⟨m, su, k, d⟩ P) (hl : l.who = some (.main, ch)) (h : MainMove m d ch k op k')
    (hP : ∀ p, m.Listed p → P p → P' p) (hclear : ∀ p, k = .clear .exit p → op = .deactivate p → P' p) :
    View.Swept ⟨m.apply .main op, su, k', d⟩ P' := by
  obtain ⟨L, hL, -, hok⟩ := hB.registry
  -- a move that neither takes records off the list nor goes on with the pass
  have hkeep (hm : ∀ p, (m.apply .main op).Listed p → m.Listed p) (hn : (m.apply .main op).next = m.next)
      (hk : ∀ cur, k'.toPass = some cur → k.toPass = some cur) : View.Swept ⟨m.apply .main op, su, k', d⟩ P' := by
    intro cur hcur p hp
    simp only [hn]
    exact (hI cur (hk cur hcur) p (hm p hp)).imp_left (hP p (hm p hp))
  cases h with
  | exitLock hm =>
    rintro cur ⟨⟩ p hp
    exact .inr (hL.chain.from_iff.2 ((hL.mem_iff p).2 hp))
  | clearExit x =>
    rintro cur ⟨⟩ p hp
    rcases hI _ rfl p hp with hP' | hp
    · exact .inl (hP p hp hP')
    · rcases Sync.from_some.1 hp with rfl | hp
      · exact .inl (hclear p rfl rfl)
      · exact .inr hp
  | passSkip x ha =>
    have hx : x ∈ m.listed := by
      have : m.listed = L := hL.listed_eq
      rw [this]; exact hok x rfl
    exact absurd (hC (by simp [Label.by, hl]) x hx rfl) ha
  | clearHead =>
    rintro cur ⟨⟩ p hp
    have hl : m.Listed p := ⟨hp.1, fun h => hp.2 (List.mem_append_right _ h)⟩
    exact (hI none rfl p hl).imp_left (hP p hl)
  | unlink b x prev => rintro cur ⟨⟩
  | send b x => cases b <;> exact hkeep (fun _ hp => hp) rfl fun _ hk => hk
  | shutdown b x => cases b <;> exact hkeep (fun _ hp => hp) rfl fun _ hk => hk
  | close b x => cases b <;> exact hkeep (fun _ hp => hp) rfl fun _ hk => hk
  | _ => exact hkeep (fun _ hp => hp) rfl (by first | exact fun _ hk => hk | rintro cur ⟨⟩)

theorem Stage.toPass_cases {cur : Option Ptr} (h : k.toPass = some cur) :
    k.inside = true ∨ (k = .waiting ∧ cur = none) ∨ k.late = true := by
  cases k with
  | waiting => cases h; exact .inr (.inl ⟨rfl, rfl⟩)
  | exitRelock => exact .inr (.inr rfl)
  | _ => first | exact .inl rfl | cases h

/-- A set-up outside the mutex leaves the list alone. -/
theorem SetupMove.outside {x : Ptr} (h : SetupMove m ch q op q') (hq : q.inside = false) :
    (m.apply t op).next = m.next ∧ op ≠ .publish x := by
  cases h with
  | link p fd => cases hq
  | publish p fd => cases hq
  | rbUnlink p prev => cases hq
  | _ => exact ⟨rfl, by simp⟩

theorem swept_setup (hv : k ≠ .ended) (hB : View.Base ⟨m, su, k, d⟩) (hF : View.Flow ⟨m, su, k, d⟩)
    (hI : View.Swept ⟨m, su, k, d⟩ P) (hs : su t = some q) (ht : t = .main ∧ k = .rest ∨ t = .listener)
    (h : SetupMove m ch q op q') (hP : ∀ p, (m.apply t op).Listed p → P p → P' p)
    (hpublish : ∀ p, op = .publish p → k = .waiting → P' p) :
    View.Swept ⟨m.apply t op, Function.update su t q', k, d⟩ P' := by
  have hearly := hF.setup_early ht hs
  intro cur hcur p hp
  have hcur' : k.toPass = some cur := hcur
  rcases Stage.toPass_cases hcur' with hin | ⟨rfl, rfl⟩ | hk
  · -- the main thread is inside
    have hne : t ≠ .main := by
      rintro rfl
      rcases ht with ⟨-, rfl⟩ | ht
      · cases hin
      · cases ht
    have hout := hB.owner.setup_outside hv hB.records (t := .main) (by simp [View.inside, hin]) hne hs
    obtain ⟨hn, hpub⟩ := h.outside (t := t) (x := p) hout
    have hl : m.Listed p := (listed_of op hp).resolve_right hpub
    simp only [hn]
    exact (hI cur hcur' p hl).imp_left (hP p hp)
  · rcases listed_of op hp with hl | hop
    · exact .inl (hP p hp ((hI none rfl p hl).resolve_right Sync.from_none))
    · exact .inl (hpublish p hop rfl)
  · exact absurd (hearly.symm.trans hk) (by simp)

end Chat
