import LinuxExercises.Proof.Mutex

/-!
# The list of connections

* `registry_reach`: in every reachable state `conn_head` and the links spell a list
  without repetition, of the records inserted and not unlinked since; what each thread
  holds in hand between two steps (a record it hides, a predecessor it has found, a place
  in a traversal) still fits that list.
-/

namespace Chat

open Sync (Chain Hangs)

/-- The links spell the list `l`, which is what was inserted and not unlinked. -/
structure Mem.Spells (m : Mem) (l : List Ptr) : Prop where
  chain : Chain m.next m.connHead l
  nodup : l.Nodup
  mem_iff : ∀ p, p ∈ l ↔ p ∈ m.inserted ∧ p ∉ m.unlinked
  once : m.inserted.Nodup
  before : ∀ p ∈ m.unlinked, p ∈ m.inserted
  born : ∀ p ∈ m.inserted, p < m.allocs

/-- What a set-up relies on between two steps. -/
def SetupPc.Ok (m : Mem) (l : List Ptr) : SetupPc → Prop
  | .malloc .. | .abort .. | .rbUnlock => True
  | .lock p _ | .link p _ => p ∉ m.inserted
  | .publish p _ => p ∉ m.inserted ∧ m.next p = m.connHead
  | .unlock p _ | .create p _ | .rbClose p _ | .rbLock p | .rbFind p | .log p => p ∈ m.inserted
  | .rbUnlink p prev => Hangs m.next m.connHead l p prev
  | .rbFree p => p ∈ m.inserted ∧ p ∉ l

/-- What the main thread relies on between two steps. -/
def Stage.Ok (m : Mem) (l : List Ptr) : Stage → Prop
  | .found p | .doomed p | .send _ p | .shutdown _ p | .close _ p | .clear _ p | .closed p => p ∈ l
  | .exitJoining p _ | .exitFree p => p ∈ l
  | .pass cur | .next cur => ∀ p, cur = some p → p ∈ l
  | .log p | .join _ p | .joining _ p _ | .relock _ p | .find _ p => p ∈ m.inserted
  | .unlink _ p prev => Hangs m.next m.connHead l p prev
  | .free _ p | .logFreed p => p ∈ m.inserted ∧ p ∉ l
  | _ => True

/-- **The registry invariant**, with the list. -/
structure View.Registry (v : View) (l : List Ptr) : Prop where
  list : v.mem.Spells l
  setups : ∀ t q, v.setup t = some q → q.Ok v.mem l
  stage : v.stage.Ok v.mem l

variable {m : Mem} {l : List Ptr} {ch : Choice} {op : Op} {t : Tid}

/-- The walk of a traversal visits exactly the list. -/
theorem Mem.Spells.listed_eq (h : m.Spells l) : m.listed = l :=
  h.chain.walk_bounded h.nodup fun p hp => h.born p ((h.mem_iff p).1 hp).1

theorem Mem.Spells.inserted (h : m.Spells l) {p : Ptr} (hp : p ∈ l) : p ∈ m.inserted :=
  ((h.mem_iff p).1 hp).1

/-- What a thread outside the mutex relies on survives any change of the list that inserts
none of its records. -/
theorem SetupPc.Ok.outside {m' : Mem} {l' : List Ptr} {q : SetupPc} (h : q.Ok m l) (hq : q.inside = false)
    (hins : ∀ p, q.node = some p → (p ∈ m'.inserted ↔ p ∈ m.inserted)) : q.Ok m' l' := by
  cases q with
  | malloc | abort => trivial
  | lock p fd => exact fun hp => h ((hins p rfl).1 hp)
  | create p fd => exact (hins p rfl).2 h
  | rbClose p fd => exact (hins p rfl).2 h
  | rbLock p => exact (hins p rfl).2 h
  | log p => exact (hins p rfl).2 h
  | _ => simp [SetupPc.inside] at hq

theorem Stage.Ok.outside {m' : Mem} {l' : List Ptr} {k : Stage} (h : k.Ok m l) (hk : k.inside = false)
    (hins : ∀ p, p ∈ m.inserted → p ∈ m'.inserted) : k.Ok m' l' := by
  cases k with
  | log p => exact hins p h
  | join b p => exact hins p h
  | joining b p t => exact hins p h
  | relock b p => exact hins p h
  | rest | opened | abandon | exitStop | exitStart | exitLock | waiting | exitRelock | ended => trivial
  | _ => simp [Stage.inside] at hk

/-! ## Operations on the list -/

/-- `p->next = conn_head` of a hidden record. -/
theorem Mem.Spells.link {p : Ptr} (h : m.Spells l) (hp : p ∉ m.inserted) : (m.apply t (.link p)).Spells l :=
  ⟨h.chain.write fun hm => hp (h.inserted hm), h.nodup, h.mem_iff, h.once, h.before, h.born⟩

/-- `conn_head = p`. -/
theorem Mem.Spells.publish {p : Ptr} (h : m.Spells l) (hp : p ∉ m.inserted) (hn : m.next p = m.connHead)
    (hb : p < m.allocs) : (m.apply t (.publish p)).Spells (p :: l) := by
  have hpl : p ∉ l := fun hm => hp (h.inserted hm)
  have hpu : p ∉ m.unlinked := fun hm => hp (h.before p hm)
  refine ⟨h.chain.push hn, List.nodup_cons.2 ⟨hpl, h.nodup⟩, ?_, List.nodup_cons.2 ⟨hp, h.once⟩, ?_, ?_⟩
  · intro x
    simp only [Mem.apply, List.mem_cons, Mem.note, h.mem_iff x]
    by_cases hx : x = p
    · subst hx; simp [hpu]
    · simp [hx]
  · intro x hx; exact List.mem_cons_of_mem _ (h.before x hx)
  · intro x hx
    rcases List.mem_cons.1 hx with rfl | hx
    · exact hb
    · exact h.born x hx

/-- `prev->next = p->next`. -/
theorem Mem.Spells.unlink {p : Ptr} {prev : Option Ptr} (h : m.Spells l)
    (hp : Hangs m.next m.connHead l p prev) : (m.apply t (.unlink p prev)).Spells (l.erase p) := by
  have hpl : p ∈ l := hp.mem h.chain
  refine ⟨h.chain.unlink h.nodup hp, h.nodup.erase p, ?_, h.once, ?_, h.born⟩
  · intro x
    rw [h.nodup.mem_erase_iff, h.mem_iff x]
    simp only [Mem.apply, List.mem_cons, not_or]
    tauto
  · intro x hx
    rcases List.mem_cons.1 hx with rfl | hx
    · exact h.inserted hpl
    · exact h.before x hx

/-- `conn_head = NULL`. -/
theorem Mem.Spells.clearHead (h : m.Spells l) : (m.apply t .clearHead).Spells [] := by
  refine ⟨rfl, List.nodup_nil, ?_, h.once, ?_, h.born⟩
  · intro x
    simp only [Mem.apply, h.listed_eq, List.mem_append, not_or, h.mem_iff x, List.not_mem_nil, false_iff]
    tauto
  · intro x hx
    rcases List.mem_append.1 hx with hx | hx
    · exact h.inserted (h.listed_eq ▸ hx)
    · exact h.before x hx

/-! ## One step -/

section Step

variable {m' : Mem} {su : Tid → Option SetupPc} {k k' : Stage} {d d' : Bool}

theorem SetupPc.Ok.congr {q : SetupPc} (h : q.Ok m l) (hn : m'.next = m.next) (hh : m'.connHead = m.connHead)
    (hi : m'.inserted = m.inserted) : q.Ok m' l := by
  have he : q.Ok m' l = q.Ok m l := by cases q <;> simp only [SetupPc.Ok, hn, hh, hi]
  rwa [he]

theorem Stage.Ok.congr (h : k.Ok m l) (hn : m'.next = m.next) (hh : m'.connHead = m.connHead)
    (hi : m'.inserted = m.inserted) : k.Ok m' l := by
  have he : k.Ok m' l = k.Ok m l := by cases k <;> simp only [Stage.Ok, hn, hh, hi]
  rwa [he]

/-- A step that leaves the list alone. -/
theorem View.Registry.congr (hI : View.Registry ⟨m, su, k, d⟩ l) (hn : m'.next = m.next)
    (hh : m'.connHead = m.connHead) (hi : m'.inserted = m.inserted) (hu : m'.unlinked = m.unlinked)
    (ha : m.allocs ≤ m'.allocs) : View.Registry ⟨m', su, k, d⟩ l := by
  obtain ⟨⟨hc, hnd, hm, ho, hb, hbo⟩, hs, hk⟩ := hI
  refine ⟨⟨?_, hnd, ?_, ?_, ?_, ?_⟩, fun t q h => (hs t q h).congr hn hh hi, hk.congr hn hh hi⟩
  · rw [hn, hh]; exact hc
  · rw [hi, hu]; exact hm
  · rw [hi]; exact ho
  · rw [hi, hu]; exact hb
  · rw [hi]; exact fun p hp => (hbo p hp).trans_le ha

/-- A set-up moves. -/
theorem View.Registry.move (hI : View.Registry ⟨m, su, k, d⟩ l) {q' : Option SetupPc}
    (hq : ∀ q, q' = some q → q.Ok m l) : View.Registry ⟨m, Function.update su t q', k, d⟩ l :=
  ⟨hI.list, setups_update hq hI.setups, hI.stage⟩

/-- The main thread moves. -/
theorem View.Registry.goto (hI : View.Registry ⟨m, su, k, d⟩ l) (k' : Stage) (hk : k'.Ok m l) :
    View.Registry ⟨m, su, k', d'⟩ l := ⟨hI.list, hI.setups, hk⟩

theorem registry_setup {q : SetupPc} {q' : Option SetupPc}
    (hv : k ≠ .ended) (hR : View.Records ⟨m, su, k, d⟩) (hO : View.Owner ⟨m, su, k, d⟩)
    (hI : View.Registry ⟨m, su, k, d⟩ l) (hs : su t = some q) (ht : t = .main ∧ k = .rest ∨ t = .listener)
    (h : SetupMove m ch q op q') :
    ∃ l', View.Registry ⟨m.apply t op, Function.update su t q', k, d⟩ l' := by
  have ht' := ht.imp_left And.left
  have hq := hI.setups t q hs
  -- the other threads are outside when this one changes the list
  have hout (hin : q.inside = true) : ∀ t' q₁, t' ≠ t → su t' = some q₁ → q₁.inside = false :=
    fun t' q₁ hne h₁ => hO.setup_outside hv hR (View.inside_setup ht' hs hin) hne h₁
  have hstage (hin : q.inside = true) {m' : Mem} {l' : List Ptr}
      (hins : ∀ p, p ∈ m.inserted → p ∈ m'.inserted) : k.Ok m' l' := by
    rcases ht with ⟨-, rfl⟩ | rfl
    · trivial
    · exact hI.stage.outside (hO.stage_outside hv (View.inside_setup ht' hs hin) (by simp)) hins
  have hothers (hin : q.inside = true) {m' : Mem} {l' : List Ptr} {q' : Option SetupPc}
      (hq' : ∀ q₁, q' = some q₁ → q₁.Ok m' l')
      (hins : ∀ t' q₁, t' ≠ t → su t' = some q₁ → ∀ p, q₁.node = some p →
        (p ∈ m'.inserted ↔ p ∈ m.inserted)) :
      ∀ t' q₁, Function.update su t q' t' = some q₁ → q₁.Ok m' l' := by
    intro t' q₁ h₁
    by_cases hne : t' = t
    · subst hne; rw [Function.update_self] at h₁; exact hq' q₁ h₁
    · rw [Function.update_of_ne hne] at h₁
      exact (hI.setups t' q₁ h₁).outside (hout hin t' q₁ hne h₁) (hins t' q₁ hne h₁)
  cases h with
  | link p fd =>
    refine ⟨l, hI.list.link (t := t) hq, hothers rfl ?_ (fun _ _ _ _ _ _ => Iff.rfl), hstage rfl fun _ h => h⟩
    rintro _ ⟨⟩
    exact ⟨hq, Function.update_self ..⟩
  | publish p fd =>
    refine ⟨p :: l, hI.list.publish (t := t) hq.1 hq.2 (hR.bound t _ hs p rfl), hothers rfl ?_ ?_,
      hstage rfl fun x hx => List.mem_cons_of_mem _ hx⟩
    · rintro _ ⟨⟩
      exact List.mem_cons_self
    · -- the other set-up has another record
      intro t' q₁ hne h₁ x hx
      have hxp : x ≠ p := by rintro rfl; exact hne (hR.apart t' q₁ h₁ t _ hs x hx rfl)
      simp [Mem.apply, Mem.note, hxp]
  | rbUnlink p prev =>
    refine ⟨l.erase p, hI.list.unlink (t := t) hq, hothers rfl ?_ (fun _ _ _ _ _ _ => Iff.rfl), hstage rfl fun _ h => h⟩
    rintro _ ⟨⟩
    exact ⟨hI.list.inserted (hq.mem hI.list.chain), hI.list.nodup.not_mem_erase⟩
  | alloc fd c a ip port =>
    refine ⟨l, (hI.move ?_).congr rfl rfl rfl rfl (Nat.le_succ _)⟩
    rintro _ ⟨⟩
    exact fun hm => lt_irrefl _ (hI.list.born _ hm)
  | rbHit p prev hf =>
    refine ⟨l, hI.move ?_⟩
    rintro _ ⟨⟩
    rw [hI.list.listed_eq] at hf
    exact Sync.findLink_hangs hf
  | rbMiss p hf =>
    refine ⟨l, hI.move ?_⟩
    rintro _ ⟨⟩
    rw [hI.list.listed_eq] at hf
    exact ⟨hq, Sync.findLink_none hI.list.chain hf⟩
  | _ =>
    refine ⟨l, (hI.move ?_).congr rfl rfl rfl rfl le_rfl⟩
    rintro _ ⟨⟩ <;> first | exact hq | trivial

theorem registry_main (hv : k ≠ .ended) (hR : View.Records ⟨m, su, k, d⟩)
    (hO : View.Owner ⟨m, su, k, d⟩) (hI : View.Registry ⟨m, su, k, d⟩ l) (hsu : su .main = none)
    (h : MainMove m d ch k op k') : ∃ l', View.Registry ⟨m.apply .main op, su, k', d⟩ l' := by
  have hk := hI.stage
  have hmem {p : Ptr} (hp : p ∈ m.listed) : p ∈ l := hI.list.listed_eq ▸ hp
  -- the set-ups are outside when the main thread changes the list
  have hsetups (hin : k.inside = true) {m' : Mem} {l' : List Ptr} (hins : m'.inserted = m.inserted) :
      ∀ t q, su t = some q → q.Ok m' l' := by
    intro t q h
    have hne : t ≠ .main := by rintro rfl; rw [hsu] at h; cases h
    have hin : View.inside ⟨m, su, k, d⟩ .main = true := by simp [View.inside, hin]
    exact (hI.setups t q h).outside (hO.setup_outside hv hR hin hne h) fun p _ => by rw [hins]
  cases h with
  | unlink b p prev =>
    refine ⟨l.erase p, hI.list.unlink (t := .main) hk, hsetups rfl rfl, ?_⟩
    exact ⟨hI.list.inserted (hk.mem hI.list.chain), hI.list.nodup.not_mem_erase⟩
  | clearHead => exact ⟨[], hI.list.clearHead (t := .main), hsetups rfl rfl, trivial⟩
  | found p hp ha => exact ⟨l, hI.goto _ (hmem hp)⟩
  | pick p hp hr => exact ⟨l, hI.goto _ (hmem hp)⟩
  | choose p hp => exact ⟨l, hI.goto _ (hmem hp)⟩
  | unlockFound p => exact ⟨l, (hI.goto (.log p) (hI.list.inserted hk)).congr rfl rfl rfl rfl le_rfl⟩
  | unlockDoomed p => exact ⟨l, (hI.goto (.join .reap p) (hI.list.inserted hk)).congr rfl rfl rfl rfl le_rfl⟩
  | unlockClosed p => exact ⟨l, (hI.goto (.join .terminate p) (hI.list.inserted hk)).congr rfl rfl rfl rfl le_rfl⟩
  | findHit b p prev hf =>
    rw [hI.list.listed_eq] at hf
    exact ⟨l, hI.goto _ (Sync.findPrev_hangs hI.list.chain hf)⟩
  | clearExit p =>
    exact ⟨l, (hI.goto (.pass (m.next p)) fun x hx => hI.list.chain.next_mem hk hx).congr rfl rfl rfl rfl le_rfl⟩
  | exitFree p =>
    exact ⟨l, (hI.goto (.next (m.next p)) fun x hx => hI.list.chain.next_mem hk hx).congr rfl rfl rfl rfl le_rfl⟩
  | passSkip p ha => exact ⟨l, hI.goto _ fun x hx => hI.list.chain.next_mem (hk p rfl) hx⟩
  | passPick p ha => exact ⟨l, hI.goto _ (hk p rfl)⟩
  | nextJoin p => exact ⟨l, (hI.goto (.exitJoining p _) (hk p rfl)).congr rfl rfl rfl rfl le_rfl⟩
  | exitLock hm =>
    exact ⟨l, (hI.goto (.pass m.connHead) fun x hx => hI.list.chain.head_mem hx).congr rfl rfl rfl rfl le_rfl⟩
  | exitRelock hm =>
    exact ⟨l, (hI.goto (.next m.connHead) fun x hx => hI.list.chain.head_mem hx).congr rfl rfl rfl rfl le_rfl⟩
  | _ => exact ⟨l, (hI.goto _ (by first | exact hk | trivial)).congr rfl rfl rfl rfl le_rfl⟩

theorem registry_step {v v' : View} {lab : Label} (hv : v.stage ≠ .ended) (hR : v.Records) (hO : v.Owner)
    (hI : v.Registry l) (h : Move v lab v') : ∃ l', v'.Registry l' := by
  cases h with
  | setup hl hs ht h => exact registry_setup hv hR hO hI hs ht h
  | main hl hs h => exact registry_main hv hR hO hI hs h
  | connected a hs =>
    refine ⟨l, (hI.goto .rest trivial).move ?_⟩
    rintro q ⟨⟩; trivial
  | accepted a hl hs hn =>
    refine ⟨l, View.Registry.congr (hI.move ?_) rfl rfl rfl rfl le_rfl⟩
    rintro q ⟨⟩; trivial
  | listen => exact ⟨l, hI⟩
  | listenerEnds hs hr => exact ⟨l, hI.goto _ hI.stage⟩
  | recv hq h => cases h <;> exact ⟨l, hI.congr rfl rfl rfl rfl le_rfl⟩
  | peer hc => exact ⟨l, hI.congr rfl rfl rfl rfl le_rfl⟩

end Step

/-! ## The ids -/

/-- The `p`-th record has the `p`-th id, counted from 1. -/
structure Mem.Ids (m : Mem) : Prop where
  next : m.nextConnId = BitVec.ofNat 32 (m.allocs + 1)
  ids : ∀ p < m.allocs, (m.node p).id = BitVec.ofNat 32 (p + 1)

theorem Mem.Ids.congr {m' : Mem} (h : m.Ids) (ha : m'.allocs = m.allocs) (hn : m'.nextConnId = m.nextConnId)
    (hi : ∀ p, (m'.node p).id = (m.node p).id) : m'.Ids :=
  ⟨by rw [hn, ha]; exact h.next, fun p hp => by rw [hi]; exact h.ids p (ha ▸ hp)⟩

theorem Mem.Ids.alloc {fd : Fd} {c : Sock} {ip : Bytes} {port : ℕ} (h : m.Ids) :
    (m.apply t (.alloc fd c ip port)).Ids := by
  refine ⟨?_, fun p hp => ?_⟩
  · simp only [Mem.apply, h.next]
    rw [show (1 : BitVec 32) = BitVec.ofNat 32 1 from rfl, ← BitVec.ofNat_add]
  · by_cases hx : p = m.allocs
    · subst hx; simp [Mem.apply, h.next]
    · have hp' : p < m.allocs := lt_of_le_of_ne (Nat.lt_succ_iff.1 hp) hx
      simpa [Mem.apply, Function.update_of_ne hx] using h.ids p hp'

theorem ids_step {v v' : View} {lab : Label} (hI : v.mem.Ids) (h : Move v lab v') : v'.mem.Ids := by
  cases h with
  | @setup m su k d lab t ch q op q' hl hs ht h =>
    cases h with
    | alloc fd c a ip port => exact hI.alloc (t := t)
    | create p fd => exact hI.congr rfl rfl (create_keep (fun _ => rfl) m t)
    | _ => exact hI.congr rfl rfl fun _ => rfl
  | @main m su k d lab ch op k' hl hs h =>
    cases h with
    | clear p => exact hI.congr rfl rfl (deactivate_keep (fun _ => rfl) m .main p)
    | clearExit p => exact hI.congr rfl rfl (deactivate_keep (fun _ => rfl) m .main p)
    | _ => exact hI.congr rfl rfl fun _ => rfl
  | @recv m su k d lab p q op q' hq h =>
    cases h with
    | mark => exact hI.congr rfl rfl (mark_keep (fun _ => rfl) m (.recv p) p)
    | _ => exact hI.congr rfl rfl fun _ => rfl
  | _ => exact hI.congr rfl rfl fun _ => rfl

/-- An id below the bound, as the program's signed number. -/
theorem id_toInt {n : ℕ} (h : n < 2 ^ 31) : (BitVec.ofNat 32 n).toInt = n := by
  have hn : n % 2 ^ 32 = n := Nat.mod_eq_of_lt (by omega)
  rw [BitVec.toInt_eq_toNat_of_lt (by rw [BitVec.toNat_ofNat, hn]; omega), BitVec.toNat_ofNat, hn]

/-! ## All runs -/

/-- What holds in every run: records, mutex, list. -/
structure View.Base (v : View) : Prop where
  records : v.Records
  owner : v.Owner
  registry : ∃ l, v.Registry l
  ids : v.mem.Ids

/-- **The base invariant.** -/
theorem base_reach {E : Env} {C : View → Label → Prop} {s : State} (h : ReachView E C s) : s.view.Base := by
  refine view_inv (J := fun v => v.Records ∧ v.Owner) (fun _ => records_owner) ?_ ?_ h
  · have hs : ∀ t, State.init.view.setup t = none := by intro t; cases t <;> rfl
    refine ⟨records_init, owner_init, ⟨[], ⟨rfl, List.nodup_nil, ?_, List.nodup_nil, ?_, ?_⟩, ?_, trivial⟩, rfl, ?_⟩
    · intro p; simp [State.view, State.init, Mem.init]
    · intro p hp; exact absurd hp List.not_mem_nil
    · intro p hp; exact absurd hp List.not_mem_nil
    · intro t q h; rw [hs t] at h; cases h
    · intro p hp; exact absurd hp (Nat.not_lt_zero p)
  · rintro v lab v' hv - ⟨hR, hO, ⟨l, hL⟩, hN⟩ - hm
    exact ⟨records_step hR hm, owner_step hv hR hO hm, registry_step hv hR hO hL hm, ids_step hN hm⟩

/-- **The registry of connections**: in every state of every run with fewer than
`2^31 - 1` connections, with or without the mutex held, the links from `conn_head` spell a
list of the records inserted and not unlinked since, each of them once; their ids are
distinct, at least 1, below `next_conn_id`, and none is the id of an unlinked record. -/
theorem registry_ids {E : Env} {s : State} (h : (chat E).Reachable s) (hfew : s.mem.allocs < 2 ^ 31 - 1) :
    Sync.Chain s.mem.next s.mem.connHead s.mem.listed ∧ s.mem.listed.Nodup ∧
    (∀ p, p ∈ s.mem.listed ↔ p ∈ s.mem.inserted ∧ p ∉ s.mem.unlinked) ∧ s.mem.inserted.Nodup ∧
    (s.mem.listed.map fun p => (s.mem.node p).id).Nodup ∧
    (∀ p ∈ s.mem.listed, 1 ≤ (s.mem.node p).id.toInt ∧ (s.mem.node p).id.toInt < s.mem.nextConnId.toInt) ∧
    ∀ p ∈ s.mem.listed, ∀ q ∈ s.mem.unlinked, (s.mem.node p).id ≠ (s.mem.node q).id := by
  have hB : s.view.Base := base_reach (C := fun _ _ => True) h
  obtain ⟨l, hL, -, -⟩ := hB.registry
  obtain ⟨hnext, hids⟩ : s.mem.Ids := hB.ids
  have hl : s.mem.listed = l := hL.listed_eq
  have hborn {p : ℕ} (hp : p ∈ s.mem.inserted) : p < s.mem.allocs := hL.born p hp
  have hlb {p : ℕ} (hp : p ∈ l) : p < s.mem.allocs := hborn (hL.inserted hp)
  have hinj {p q : ℕ} (hp : p < s.mem.allocs) (hq : q < s.mem.allocs)
      (he : (s.mem.node p).id = (s.mem.node q).id) : p = q := by
    have he' := congrArg BitVec.toInt he
    rw [hids p hp, hids q hq, id_toInt (by omega), id_toInt (by omega)] at he'
    omega
  rw [hl]
  refine ⟨hL.chain, hL.nodup, hL.mem_iff, hL.once, ?_, ?_, ?_⟩
  · refine List.Nodup.map_on (fun p hp q hq he => hinj (hlb hp) (hlb hq) he) hL.nodup
  · intro p hp
    have := hlb hp
    rw [hids p this, hnext, id_toInt (by omega), id_toInt (by omega)]
    omega
  · intro p hp q hq he
    have hpq := hinj (hlb hp) (hborn (hL.before q hq)) he
    exact ((hL.mem_iff p).1 hp).2 (hpq ▸ hq)

/-- Two connections, one of them accepted, one made by `connect`. -/
theorem registry_ids_two :
    ((chat .demo).after Sync.Trans.Free (accepts 4 ++ listens 7 ++ connects 5 ++ mains 7)).mem.listed = [1, 0] ∧
    (((chat .demo).after Sync.Trans.Free (accepts 4 ++ listens 7 ++ connects 5 ++ mains 7)).mem.listed.map
      fun p => (((chat .demo).after Sync.Trans.Free
        (accepts 4 ++ listens 7 ++ connects 5 ++ mains 7)).mem.node p).id).Nodup :=
  ⟨by decide +kernel,
    (registry_ids (Sync.Trans.reach_after _) (by decide +kernel)).2.2.2.2.1⟩

end Chat
