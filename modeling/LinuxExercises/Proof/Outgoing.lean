import LinuxExercises.Spec.Outgoing
import LinuxExercises.Proof.Flags

/-!
# No duplicate outgoing connection

The check of `cmd_connect` and the insertion are two critical sections, with `connect()` in
between. What was checked stays true: only the main thread creates outgoing records, and
the other threads can do no more than make a record inactive or take it off the list.

* `Live.of_apply`: an operation that inserts no outgoing record makes none live.
* `pending`: the address and port that the main thread has checked and not inserted yet.
* `Checked`: the invariant; `checked_main`, `checked_listener`, `checked_quiet`.
* `outgoing_distinct`: **no two active outgoing connections on the list have the same address
  and port, and an inactive one stays inactive.**
-/

namespace Chat

variable {E : Env} {m : Mem} {t : Tid} {op : Op} {ch : Choice} {out : List Ptr} {p q : Ptr} {s s' : State}
  {k : Bytes × ℕ}

/-! ## Operations -/

/-- An outgoing record on the list, still active. -/
structure Live (out : List Ptr) (m : Mem) (p : Ptr) : Prop where
  out : p ∈ out
  listed : m.Listed p
  active : (m.node p).active

theorem apply_endpoint (op : Op) (hp : op.isAlloc = true → p ≠ m.allocs) :
    (m.apply t op).endpoint p = m.endpoint p := by
  have hip : ((m.apply t op).node p).ip = (m.node p).ip ∧ ((m.apply t op).node p).port = (m.node p).port := by
    cases op <;> simp [Mem.apply, Mem.note, Function.update_apply, Mem.setNode, Mem.setRecv, Mem.setSock] <;>
      grind [Op.isAlloc]
  rw [Mem.endpoint, hip.1, hip.2, Mem.endpoint]

/-- **An operation** makes no outgoing record live, unless it inserts it. -/
theorem Live.of_apply (hp : op.isAlloc = true → p ≠ m.allocs) (hpub : op ≠ .publish p)
    (h : Live out (m.apply t op) p) : Live out m p := by
  refine ⟨h.out, (listed_of op h.listed).resolve_right hpub, ?_⟩
  have ha := h.active
  rw [apply_active op hp] at ha
  simp only [Bool.and_eq_true] at ha
  exact ha.1.1

/-- An insertion of a record into the list, or into the heap. -/
def Op.adds : Op → Bool
  | .alloc .. | .publish _ => true
  | _ => false

theorem MainMove.adds_eq {d : Bool} {k k' : Stage} (h : MainMove m d ch k op k') : op.adds = false := by
  cases h <;> rfl

theorem RecvMove.adds_eq {q q' : RecvPc} (h : RecvMove m p q op q') : op.adds = false := by
  cases h <;> rfl

theorem isAlloc_of_adds (h : op.adds = false) : op.isAlloc = false := by
  cases op <;> first | rfl | simp [Op.adds] at h

theorem ne_publish (h : op.adds = false) : op ≠ .publish p := by
  rintro rfl
  simp [Op.adds] at h

/-! ## What the main thread has checked -/

/-- The address and port that a set-up will insert. -/
def SetupPc.pending (E : Env) (m : Mem) : SetupPc → Option (Bytes × ℕ)
  | .malloc _ _ a => some (E.inetNtop a.addr, a.port)
  | .lock p _ | .link p _ | .publish p _ => some (m.endpoint p)
  | _ => none

def ConnectPc.pending (E : Env) (m : Mem) : ConnectPc → Option (Bytes × ℕ)
  | .unlock d | .socket d | .connect d _ _ => some (d.ip, d.port)
  | .setup q => q.pending E m
  | _ => none

/-- **The address and port behind their check**, up to the insertion. -/
def MainPc.pending (E : Env) (m : Mem) : MainPc → Option (Bytes × ℕ)
  | .connect q => q.pending E m
  | _ => none

theorem setup_pending {x x' : SetupPc} (h : setupStep E m ch x = some (op, .goto x'))
    (hk : x'.pending E (m.apply t op) = some k) : x.pending E m = some k := by
  cases x with
  | malloc fd c a =>
    cases ch with
    | ok =>
      cases h
      rw [← hk]
      simp [SetupPc.pending, Mem.endpoint, (apply_alloc fd c (E.inetNtop a.addr) a.port).2]
    | fail => cases h; cases hk
    | _ => cases h
  | lock p fd =>
    obtain ⟨-, rfl, hf⟩ := lock_eq h
    cases hf
    exact hk
  | link p fd => cases h; exact hk
  | publish p fd => cases h; cases hk
  | create p fd => cases ch <;> cases h <;> cases hk
  | rbLock p =>
    obtain ⟨-, -, hf⟩ := lock_eq h
    cases hf
    cases hk
  | rbFind p =>
    simp only [setupStep] at h
    split at h <;> cases h <;> cases hk
  | _ => cases h <;> cases hk

/-- **What is checked**: on the way to the insertion nothing changes; at its start no active
record on the list has the address and port. -/
theorem connect_pending (hE : ∀ text a, E.inetPton text = some a → E.inetNtop a = text) {c c' : ConnectPc}
    (h : cmdConnect E m ch c = some (op, .goto c')) (hk : c'.pending E (m.apply t op) = some k) :
    c.pending E m = some k ∨ op = .skip ∧ ∀ p ∈ m.listed, (m.node p).active → m.endpoint p ≠ k := by
  cases c with
  | lock d =>
    obtain ⟨-, -, hf⟩ := lock_eq h
    cases hf
    cases hk
  | scan d =>
    simp only [cmdConnect] at h
    split at h
    · cases h
      cases hk
    · -- the search has passed over every record of the list
      rename_i hnone
      cases h
      refine .inr ⟨rfl, fun p hp ha he => ?_⟩
      have hfail := List.find?_eq_none.1 hnone p hp
      cases hk
      simp only [Mem.endpoint, Prod.mk.injEq] at he
      simp [ha, he] at hfail
  | unlockDup p => cases h; cases hk
  | logDup p => cases h
  | unlock d => cases h; exact .inl hk
  | socket d =>
    cases ch with
    | fd n =>
      simp only [cmdConnect] at h
      split at h
      · cases h
        exact .inl hk
      · cases h
    | _ => cases h
  | connect d fd c =>
    simp only [cmdConnect] at h
    split at h
    · -- the stored text is the one that was checked
      rename_i a hpton
      cases h
      left
      rw [← hk]
      simp [ConnectPc.pending, SetupPc.pending, hE d.ip a hpton]
    · cases h
      cases hk
    · cases h
      cases hk
    · cases h
  | abort fd c => cases h
  | setup x =>
    obtain ⟨⟨op', f⟩, hf, he⟩ := Option.map_eq_some_iff.1 h
    cases f with
    | goto x' =>
      cases he
      exact .inl (setup_pending hf hk)
    | ret => cases he
    | killed => cases he

theorem main_pending (hE : ∀ text a, E.inetPton text = some a → E.inetNtop a = text) {d : Bool} {q q' : MainPc}
    (h : mainStep E m d ch q = some (op, q')) (hk : q'.pending E (m.apply t op) = some k) :
    q.pending E m = some k ∨ op = .skip ∧ ∀ p ∈ m.listed, (m.node p).active → m.endpoint p ≠ k := by
  cases q' with
  | connect c' =>
    rcases main_connect h with ⟨c, rfl, hc⟩ | ⟨x, ip, portstr, d, rfl, -, rfl⟩
    · exact connect_pending hE hc hk
    · cases hk
  | _ => cases hk

/-! ## The invariant -/

/-- **What holds between two steps**:

* `made`, `theirs`: the outgoing records have been made, and the listener's is none of them;
* `distinct`: no two live ones have the same address and port;
* `clear`: none has what the main thread has checked. -/
structure Checked (E : Env) (s : State) (out : List Ptr) : Prop where
  made : ∀ p ∈ out, p < s.mem.allocs
  theirs : ∀ x p, s.listener.inSetup = some x → x.node = some p → p ∉ out
  distinct : ∀ p q, Live out s.mem p → Live out s.mem q → s.mem.endpoint p = s.mem.endpoint q → p = q
  clear : ∀ k, s.main.pending E s.mem = some k → ∀ p, Live out s.mem p → s.mem.endpoint p ≠ k

/-- The live outgoing records were live, and are what they were. -/
structure Fewer (out : List Ptr) (m m' : Mem) : Prop where
  live : ∀ p, Live out m' p → Live out m p
  same : ∀ p ∈ out, m'.endpoint p = m.endpoint p
  grows : m.allocs ≤ m'.allocs

theorem fewer_apply (hmade : ∀ p ∈ out, p < m.allocs) (hpub : ∀ p ∈ out, op ≠ .publish p) :
    Fewer out m (m.apply t op) where
  live p hp := hp.of_apply (fun _ => (hmade p hp.out).ne) (hpub p hp.out)
  same p hp := apply_endpoint op fun _ => (hmade p hp).ne
  grows := apply_allocs op

theorem Fewer.distinct {m' : Mem} (h : Fewer out m m')
    (hd : ∀ p q, Live out m p → Live out m q → m.endpoint p = m.endpoint q → p = q) (p q : Ptr) (hp : Live out m' p)
    (hq : Live out m' q) (he : m'.endpoint p = m'.endpoint q) : p = q := by
  rw [h.same p hp.out, h.same q hq.out] at he
  exact hd p q (h.live p hp) (h.live q hq) he

theorem Fewer.clear {m' : Mem} (h : Fewer out m m') (hc : ∀ p, Live out m p → m.endpoint p ≠ k) (p : Ptr)
    (hp : Live out m' p) : m'.endpoint p ≠ k := by
  rw [h.same p hp.out]
  exact hc p (h.live p hp)

/-- What the main thread has checked depends on its own record only. -/
theorem pending_congr {m' : Mem} {c : MainPc}
    (h : ∀ x p, c.inSetup = some x → x.node = some p → m'.endpoint p = m.endpoint p) :
    c.pending E m' = c.pending E m := by
  cases c with
  | connect c =>
    cases c with
    | setup x =>
      cases x with
      | lock p fd => exact congrArg some (h _ p rfl rfl)
      | link p fd => exact congrArg some (h _ p rfl rfl)
      | publish p fd => exact congrArg some (h _ p rfl rfl)
      | _ => rfl
    | _ => rfl
  | _ => rfl

/-- **A step of another thread**, or of a peer. -/
theorem Checked.other {m' : Mem} {r : ListenerPc} (hI : Checked E s out) (hf : Fewer out s.mem m')
    (hmain : ∀ x p, s.main.inSetup = some x → x.node = some p → m'.endpoint p = s.mem.endpoint p)
    (htheirs : ∀ x p, r.inSetup = some x → x.node = some p → p ∉ out) : Checked E ⟨m', s.main, r⟩ out where
  made p hp := (hI.made p hp).trans_le hf.grows
  theirs := htheirs
  distinct := hf.distinct hI.distinct
  clear k hk := by
    rw [pending_congr hmain] at hk
    exact hf.clear (hI.clear k hk)

/-! ## The threads -/

/-- A set-up makes its record, and inserts it. -/
theorem setup_adds {x : SetupPc} {f : Flow SetupPc} (h : setupStep E m ch x = some (op, f)) (ha : op.adds) :
    (∃ fd c a, x = .malloc fd c a ∧ ch = .ok ∧ op = .alloc fd c (E.inetNtop a.addr) a.port ∧
      f = .goto (.lock m.allocs fd)) ∨
    ∃ p fd, x = .publish p fd ∧ op = .publish p ∧ f = .goto (.unlock p fd) := by
  cases x with
  | malloc fd c a =>
    cases ch with
    | ok =>
      cases h
      exact .inl ⟨fd, c, a, rfl, rfl, rfl, rfl⟩
    | fail => cases h; cases ha
    | _ => cases h
  | lock p fd =>
    obtain ⟨-, rfl, -⟩ := lock_eq h
    cases ha
  | publish p fd =>
    cases h
    exact .inr ⟨p, fd, rfl, rfl, rfl⟩
  | create p fd => cases ch <;> cases h <;> cases ha
  | rbLock p =>
    obtain ⟨-, rfl, -⟩ := lock_eq h
    cases ha
  | rbFind p =>
    simp only [setupStep] at h
    split at h
    · cases h; cases ha
    · cases h; cases ha
  | _ => cases h; cases ha

/-- **A step of the listener** makes and inserts records that are not outgoing. -/
theorem checked_listener {r : ListenerPc} (hB : s.view.Base) (hI : Checked E s out)
    (h : listenerThread E s.mem ch s.listener = some (op, r)) :
    Checked E ⟨s.mem.apply .listener op, s.main, r⟩ out := by
  have hmain : ∀ x p, s.main.inSetup = some x → x.node = some p →
      (s.mem.apply .listener op).endpoint p = s.mem.endpoint p := by
    intro x p hx hp
    exact apply_endpoint op fun _ => hB.bound_setup (t := .main) hx hp
  cases hr : s.listener with
  | setup x =>
    rw [hr] at h
    obtain ⟨⟨op', f⟩, hf, he⟩ := Option.map_eq_some_iff.1 h
    cases he
    -- the listener inserts the record that it has made itself
    have hpub : ∀ p ∈ out, op ≠ .publish p := by
      rintro p hp rfl
      rcases setup_adds hf rfl with ⟨_, _, _, -, -, ho, -⟩ | ⟨p', fd, rfl, ho, -⟩
      · cases ho
      · cases ho
        exact hI.theirs _ p (by rw [hr]; rfl) rfl hp
    refine hI.other (fewer_apply hI.made hpub) hmain fun y p hy hp => ?_
    cases f with
    | goto x' =>
      cases hy
      rcases (setup_move hf).1.node_of rfl hp with ⟨hx, -⟩ | ⟨-, rfl⟩
      · exact hI.theirs x p (by rw [hr]; rfl) hx
      · exact fun hm => lt_irrefl _ (hI.made _ hm)
    | ret => cases hy
    | killed => cases hy
  | check =>
    rw [hr] at h
    cases h
    refine hI.other (fewer_apply hI.made fun p _ => by simp) hmain fun x p hx _ => ?_
    split at hx <;> cases hx
  | accept =>
    rw [hr] at h
    cases ch with
    | peer n a =>
      simp only [listenerThread] at h
      split at h
      · cases h
        refine hI.other (fewer_apply hI.made fun p _ => by simp) hmain fun x p hx hp => ?_
        cases hx
        cases hp
      · cases h
    | fail =>
      cases h
      exact hI.other (fewer_apply hI.made fun p _ => by simp) hmain fun x p hx _ => by cases hx
    | _ => cases h
  | failed =>
    rw [hr] at h
    cases h
    refine hI.other (fewer_apply hI.made fun p _ => by simp) hmain fun x p hx _ => ?_
    split at hx <;> cases hx
  | finished =>
    rw [hr] at h
    cases h

/-- Only `malloc` in `cmd_connect` makes an outgoing record. -/
theorem noteOutgoing_quiet {d : Bool} {c' : MainPc} (h : mainStep E s.mem d ch s.main = some (op, c'))
    (ha : op.adds = false) : noteOutgoing s (.main ch) out = out := by
  unfold noteOutgoing
  split
  · rename_i fd c a hmain hl
    cases hl
    rw [hmain] at h
    cases h
    cases ha
  · rfl

/-- Outside of a set-up the main thread makes and inserts nothing. -/
theorem main_adds {d : Bool} {c c' : MainPc} (h : mainStep E m d ch c = some (op, c')) (ha : op.adds) :
    ∃ x f, c = .connect (.setup x) ∧ setupStep E m ch x = some (op, f) ∧
      c' = (f.lift (.connect ∘ .setup) .loop .ended) := by
  cases hx : c.inSetup with
  | none =>
    rcases main_move hx h with ⟨_, _, _, -, rfl, -⟩ | ⟨hm, -⟩
    · cases ha
    · rw [hm.adds_eq] at ha
      cases ha
  | some x =>
    obtain rfl := inSetup_eq hx
    obtain ⟨⟨op', f⟩, hf, he⟩ := Option.map_eq_some_iff.1 h
    obtain ⟨⟨op'', g⟩, hg, he'⟩ := Option.map_eq_some_iff.1 hf
    cases he'
    cases he
    refine ⟨x, g, rfl, hg, ?_⟩
    cases g <;> rfl

/-- **A step of the main thread**: the check, the making and the insertion of an outgoing
record, or anything else. -/
theorem checked_main (hE : ∀ text a, E.inetPton text = some a → E.inetNtop a = text) {d : Bool} {c : MainPc}
    (hB : s.view.Base) (hI : Checked E s out) (h : mainStep E s.mem d ch s.main = some (op, c)) :
    Checked E ⟨s.mem.apply .main op, c, s.listener⟩ (noteOutgoing s (.main ch) out) := by
  cases ha : op.adds with
  | false =>
    rw [noteOutgoing_quiet h ha]
    have hf : Fewer out s.mem (s.mem.apply .main op) := fewer_apply hI.made fun p _ => ne_publish ha
    refine ⟨fun p hp => (hI.made p hp).trans_le hf.grows, hI.theirs, hf.distinct hI.distinct, fun k hk => hf.clear ?_⟩
    -- checked before this step, or by it
    rcases main_pending hE h hk with hk | ⟨-, hno⟩
    · exact hI.clear k hk
    · intro p hp
      exact hno p (hB.mem_listed.2 hp.listed) hp.active
  | true =>
    obtain ⟨x, f, hc, hstep, rfl⟩ := main_adds h ha
    rcases setup_adds hstep ha with ⟨fd, sock, a, rfl, rfl, rfl, rfl⟩ | ⟨p, fd, rfl, rfl, rfl⟩
    · -- the new record is outgoing, and not on the list
      have hnote : noteOutgoing s (.main .ok) out = s.mem.allocs :: out := by
        unfold noteOutgoing
        rw [hc]
      rw [hnote]
      obtain ⟨l, hL, -, -⟩ := hB.registry
      have hlive : ∀ p, Live (s.mem.allocs :: out) (s.mem.apply .main (.alloc fd sock (E.inetNtop a.addr) a.port)) p →
          Live out (s.mem.apply .main (.alloc fd sock (E.inetNtop a.addr) a.port)) p := by
        intro p hp
        have hborn : p < s.mem.allocs := hL.born p hp.listed.1
        exact ⟨(List.mem_cons.1 hp.out).resolve_left hborn.ne, hp.listed, hp.active⟩
      have hf : Fewer out s.mem (s.mem.apply .main (.alloc fd sock (E.inetNtop a.addr) a.port)) :=
        fewer_apply hI.made fun p _ => by simp
      refine ⟨?_, ?_, fun p q hp hq => hf.distinct hI.distinct p q (hlive p hp) (hlive q hq), fun k hk p hp => ?_⟩
      · intro p hp
        rcases List.mem_cons.1 hp with rfl | hp
        · exact Nat.lt_succ_self _
        · exact (hI.made p hp).trans (Nat.lt_succ_self _)
      · intro y p hy hp hm
        have hne : p ≠ s.mem.allocs := hB.bound_setup (t := .listener) hy hp
        exact hI.theirs y p hy hp ((List.mem_cons.1 hm).resolve_left hne)
      · refine hf.clear (hI.clear k ?_) p (hlive p hp)
        rw [hc]
        exact setup_pending (t := .main) hstep hk
    · -- the record that is inserted has the address and port that were checked
      have hnote : noteOutgoing s (.main ch) out = out := by
        unfold noteOutgoing
        rw [hc]
      rw [hnote]
      have hclear := hI.clear (s.mem.endpoint p) (by rw [hc]; rfl)
      have hlive : ∀ q, q ≠ p → Live out (s.mem.apply .main (.publish p)) q → Live out s.mem q := fun q hq hlq =>
        hlq.of_apply (fun ha => by cases ha) (by simpa using hq.symm)
      refine ⟨hI.made, hI.theirs, fun q r hq hr he => ?_, fun k hk => by cases hk⟩
      by_cases hqp : q = p
      · by_cases hrp : r = p
        · rw [hqp, hrp]
        · rw [hqp] at he
          exact absurd he.symm (hclear r (hlive r hrp hr))
      · by_cases hrp : r = p
        · rw [hrp] at he
          exact absurd he (hclear q (hlive q hqp hq))
        · exact hI.distinct q r (hlive q hqp hq) (hlive r hrp hr) he

/-! ## All runs -/

theorem noteOutgoing_other {l : Label} (h : ∀ ch, l ≠ .main ch) : noteOutgoing s l out = out := by
  unfold noteOutgoing
  split
  · exact absurd rfl (h _)
  · rfl

theorem checked_reach (hE : ∀ text a, E.inetPton text = some a → E.inetNtop a = text) {x : State × List Ptr}
    (h : (outgoing E).Reachable x) : Checked E x.1 x.2 := by
  refine h.inv (I := fun x => Checked E x.1 x.2) ⟨by simp [outgoing, Sync.Trans.ghost], ?_, ?_, ?_⟩ ?_
  · intro y p hy
    cases hy
  · intro p q hp
    exact absurd hp.out List.not_mem_nil
  · intro k hk
    cases hk
  · rintro ⟨s, out⟩ l ⟨s', out'⟩ hr hI _ hst
    obtain ⟨s₁, hs, he⟩ := Option.map_eq_some_iff.1 hst
    cases he
    have hchat : (chat E).Reachable s := Sync.Trans.Reach.of_ghost (T := chat E) (C := Sync.Trans.Free) hr
    have hB : s.view.Base := base_reach (C := fun _ _ => True) hchat
    have hmain : ∀ {t} {op : Op}, op.isAlloc = false → ∀ x p, s.main.inSetup = some x → x.node = some p →
        (s.mem.apply t op).endpoint p = s.mem.endpoint p := fun ha _ _ _ _ =>
      apply_endpoint _ fun h => by rw [ha] at h; cases h
    rcases (step_threads hs).2 with ⟨ch, op, c, rfl, hf, rfl⟩ | ⟨ch, op, r, rfl, hf, rfl⟩ |
      ⟨p, ch, q, op, f, rfl, hp, hf, rfl⟩ | ⟨c, e, rfl, hc, rfl⟩
    · exact checked_main hE hB hI hf
    · rw [noteOutgoing_other (by simp)]
      exact checked_listener hB hI hf
    · rw [noteOutgoing_other (by simp)]
      have ha := (recv_move hf).adds_eq
      have hfew : Fewer out s.mem (s.mem.apply (.recv p) op) := fewer_apply hI.made fun p _ => ne_publish ha
      exact hI.other ⟨fun q hq => hfew.live q ⟨hq.out, hq.listed, hq.active⟩, hfew.same, hfew.grows⟩
        (hmain (isAlloc_of_adds ha)) hI.theirs
    · rw [noteOutgoing_other (by simp)]
      exact hI.other ⟨fun q hq => ⟨hq.out, hq.listed, hq.active⟩, fun _ _ => rfl, le_rfl⟩ (fun _ _ _ _ => rfl) hI.theirs

/-- **No duplicate outgoing connection**: in every state of every run no two active records on
the list that `cmd_connect` has created have the same address and port, and none of them that
has become inactive is active again later. -/
theorem outgoing_distinct (hE : ∀ text a, E.inetPton text = some a → E.inetNtop a = text) {x : State × List Ptr}
    (h : (outgoing E).Reachable x) :
    OnePerEndpoint x.1.mem x.2 ∧
      ∀ p ∈ x.2, (x.1.mem.node p).active = false →
        ∀ y, (outgoing E).Later x y → (y.1.mem.node p).active = false := by
  have hI := checked_reach hE h
  constructor
  · have hchat : (chat E).Reachable x.1 := Sync.Trans.Reach.of_ghost (T := chat E) (C := Sync.Trans.Free) h
    have hB : x.1.view.Base := base_reach (C := fun _ _ => True) hchat
    intro p hp q hq hpo hqo hpa hqa he
    exact hI.distinct p q ⟨hpo, hB.mem_listed.1 hp, hpa⟩ ⟨hqo, hB.mem_listed.1 hq, hqa⟩ he
  · intro p hp ha y hy
    refine (hy.inv (I := fun z => p < z.1.mem.allocs ∧ (z.1.mem.node p).active = false) ?_ ⟨hI.made p hp, ha⟩).2
    intro z l z' hz hst
    obtain ⟨s', hs, rfl⟩ := Option.map_eq_some_iff.1 hst
    obtain ⟨hmade, -, hkept⟩ := flags_keep hs hz.1
    exact ⟨hmade, hkept hz.2⟩

/-- `connect 10.0.0.2 40000`, with an incoming connection between the check and the insertion. -/
def connectsAround : List Label :=
  enters (.connect (dotted peerAddr) (decimal 40000)) ++ mains 3 ++ accepts 4 ++ listens 7 ++
    [.main (.fd 5), .main .ok] ++ mains 7

def aroundRun : State × List Ptr := (outgoing .demo).after Sync.Trans.Free connectsAround

/-- The outgoing record stands in front of the incoming one. -/
theorem outgoing_distinct_around :
    aroundRun.1.mem.listed = [1, 0] ∧ aroundRun.2 = [1] ∧ OnePerEndpoint aroundRun.1.mem aroundRun.2 := by
  have hE : ∀ text a, Env.demo.inetPton text = some a → Env.demo.inetNtop a = text := by
    intro text a h
    simp only [Env.demo] at h ⊢
    split at h
    · rename_i ht
      obtain rfl := Option.some.inj h
      exact ht.symm
    · cases h
  exact ⟨by decide +kernel, by decide +kernel, (outgoing_distinct hE (Sync.Trans.reach_after connectsAround)).1⟩

end Chat
