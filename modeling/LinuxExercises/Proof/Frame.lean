import LinuxExercises.Proof.Flow

/-!
# What an operation does to a record

One lemma for each field of a record's history and for `active` and `sockfd`: its value
after any operation. Only `alloc` writes the next record (`apply_alloc`).

* `View.Base.bound`: the records in hand have been made.
-/

namespace Chat

variable {m : Mem} {t : Tid} {p : Ptr}

theorem apply_alloc (fd : Fd) (c : Sock) (ip : Bytes) (port : ℕ) :
    (m.apply t (.alloc fd c ip port)).hist m.allocs = ⟨c, .allocated, [], [], false, false⟩ ∧
    (m.apply t (.alloc fd c ip port)).node m.allocs = ⟨m.nextConnId, fd, ip, port, none, true, false⟩ := by
  simp [Mem.apply]

theorem apply_allocs (op : Op) : m.allocs ≤ (m.apply t op).allocs := by
  cases op <;> first | exact Nat.le_succ _ | exact le_rfl

theorem apply_recv (op : Op) : (m.apply t op).recv p = if op = .create p then some .top else m.recv p := by
  cases op with
  | create q =>
    simp only [Mem.apply, Mem.setRecv, Mem.setNode, Function.update_apply, Op.create.injEq]
    grind
  | _ => simp [Mem.apply, Mem.note, Mem.setNode, Mem.setSock]

theorem inserted_mono (op : Op) (h : p ∈ m.inserted) : p ∈ (m.apply t op).inserted := by
  cases op <;> first | exact h | exact List.mem_cons_of_mem _ h

/-- A listed record was listed before, or is being inserted. -/
theorem listed_of (op : Op) (h : (m.apply t op).Listed p) : m.Listed p ∨ op = .publish p := by
  cases op with
  | publish x =>
    rcases List.mem_cons.1 h.1 with rfl | hp
    · exact .inr rfl
    · exact .inl ⟨hp, h.2⟩
  | unlink x prev => exact .inl ⟨h.1, fun hu => h.2 (List.mem_cons_of_mem _ hu)⟩
  | clearHead => exact .inl ⟨h.1, fun hu => h.2 (List.mem_append_right _ hu)⟩
  | _ => exact .inl h

/-- A thread that has been made stays made. -/
theorem recv_mono (op : Op) (h : m.recv p ≠ none) : (m.apply t op).recv p ≠ none := by
  rw [apply_recv]; split
  · simp
  · exact h

def Op.isAlloc : Op → Bool
  | .alloc .. => true
  | _ => false

/-- A step makes the record `p`, or `p` is not the next one. -/
theorem Op.alloc_or (op : Op) (m : Mem) (p : Ptr) :
    (∃ fd c ip port, op = .alloc fd c ip port ∧ p = m.allocs) ∨ (op.isAlloc = true → p ≠ m.allocs) := by
  by_cases hp : p = m.allocs
  · cases op <;> first | exact .inl ⟨_, _, _, _, rfl, hp⟩ | exact .inr (fun h => by cases h)
  · exact .inr fun _ => hp

section Fields

variable (op : Op) (hp : op.isAlloc = true → p ≠ m.allocs)
include hp

theorem apply_sock : ((m.apply t op).hist p).sock = (m.hist p).sock := by
  cases op <;> simp [Mem.apply, Mem.note, Function.update_apply, Mem.setNode, Mem.setRecv, Mem.setSock] <;>
    grind [Op.isAlloc]

theorem apply_life : ((m.apply t op).hist p).life =
    if op = .publish p then .listed else if op = .free p then .released else (m.hist p).life := by
  cases op <;> simp [Mem.apply, Mem.note, Function.update_apply, Mem.setNode, Mem.setRecv, Mem.setSock] <;>
    grind [Op.isAlloc]

theorem apply_closes : ((m.apply t op).hist p).closes = (m.hist p).closes ++
    match op with
    | .close fd q => if q = some p then [m.files fd] else []
    | _ => [] := by
  cases op <;> simp [Mem.apply, Mem.note, Function.update_apply, Mem.setNode, Mem.setRecv, Mem.setSock] <;>
    grind [Op.isAlloc]

theorem apply_joins : ((m.apply t op).hist p).joins =
    (m.hist p).joins ++ if op = .joinCall p then [(m.node p).thread] else [] := by
  cases op <;> simp [Mem.apply, Mem.note, Function.update_apply, Mem.setNode, Mem.setRecv, Mem.setSock] <;>
    grind [Op.isAlloc]

theorem apply_joined : ((m.apply t op).hist p).joined =
    ((m.hist p).joined || decide (op = .joinReturn p)) := by
  cases op <;> simp [Mem.apply, Mem.note, Function.update_apply, Mem.setNode, Mem.setRecv, Mem.setSock] <;>
    grind [Op.isAlloc]

theorem apply_createFailed : ((m.apply t op).hist p).createFailed =
    ((m.hist p).createFailed || decide (op = .createFail p)) := by
  cases op <;> simp [Mem.apply, Mem.note, Function.update_apply, Mem.setNode, Mem.setRecv, Mem.setSock] <;>
    grind [Op.isAlloc]

theorem apply_active : ((m.apply t op).node p).active =
    ((m.node p).active && !decide (op = .deactivate p) && !decide (op = .mark p)) := by
  cases op <;> simp [Mem.apply, Mem.note, Function.update_apply, Mem.setNode, Mem.setRecv, Mem.setSock] <;>
    grind [Op.isAlloc]

theorem apply_shouldRemove : ((m.apply t op).node p).shouldRemove =
    ((m.node p).shouldRemove || decide (op = .mark p)) := by
  cases op <;> simp [Mem.apply, Mem.note, Function.update_apply, Mem.setNode, Mem.setRecv, Mem.setSock] <;>
    grind [Op.isAlloc]

theorem apply_sockfd : ((m.apply t op).node p).sockfd = (m.node p).sockfd := by
  cases op <;> simp [Mem.apply, Mem.note, Function.update_apply, Mem.setNode, Mem.setRecv, Mem.setSock] <;>
    grind [Op.isAlloc]

end Fields

/-! ## Records in hand -/

/-- The record the main thread has in hand. -/
def Stage.node : Stage → Option Ptr
  | .found p | .log p | .doomed p | .send _ p | .shutdown _ p | .close _ p | .clear _ p | .closed p => some p
  | .join _ p | .joining _ p _ | .relock _ p | .find _ p | .unlink _ p _ | .free _ p | .logFreed p => some p
  | .pass cur | .next cur => cur
  | .exitJoining p _ | .exitFree p => some p
  | _ => none

theorem Stage.Ok.inserted {l : List Ptr} {k : Stage} (h : k.Ok m l) (hL : m.Spells l) (hk : k.node = some p) :
    p ∈ m.inserted := by
  cases k <;> simp only [Stage.node, Option.some.injEq, reduceCtorEq] at hk
  all_goals try subst hk
  all_goals first | exact hL.inserted h | exact h | exact h.1 | skip
  · exact hL.inserted (h.mem hL.chain)
  · exact hL.inserted (h p rfl)
  · exact hL.inserted (h p rfl)

/-- **The records in hand have been made.** -/
theorem View.Base.bound {v : View} (h : v.Base) (hk : v.stage.node = some p) : p ≠ v.mem.allocs := by
  obtain ⟨l, hL, -, hS⟩ := h.registry
  exact Nat.ne_of_lt (hL.born p (hS.inserted hL hk))

theorem View.Base.bound_setup {v : View} (h : v.Base) {q : SetupPc} (hs : v.setup t = some q)
    (hq : q.node = some p) : p ≠ v.mem.allocs := Nat.ne_of_lt (h.records.bound t q hs p hq)

/-- A set-up keeps its record, or has made a new one. -/
theorem SetupMove.node_of {ch : Choice} {op : Op} {q q₁ : SetupPc} {q' : Option SetupPc} (h : SetupMove m ch q op q')
    (hq : q' = some q₁) (hp : q₁.node = some p) :
    (q.node = some p ∧ op ≠ .free p) ∨ (op.isAlloc = true ∧ p = m.allocs) := by
  cases h <;> cases hq <;> first
    | exact .inl ⟨hp, by simp⟩
    | (cases hp; exact .inr ⟨rfl, rfl⟩)
    | cases hp

end Chat
