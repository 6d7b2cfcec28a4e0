import LinuxExercises.Spec.Reap
import LinuxExercises.Proof.Records

/-!
# `reap_connections` under interference

* `meddle_cases`: what an interference can do to the list.
* `Track`: what is known of the state at any moment of the call; `Track.meddled` and
  `Track.remove` keep it in a window and at a removal.
* `round_pass`, `round_join`: one round of the loop, and `loop_scan`: the rounds up to a
  marked record.
* `reap_correct`: **the loop ends, whatever the other threads do in the windows, as long as
  only finitely many windows see a record marked, and it leaves the list as `Reaped` says.**
* `reap_forever`, `reap_runs_on`: if a new record is marked in every window, it does not end.
-/

namespace Chat

open Sync (Chain Hangs findPrev)

variable {m m' m₀ : Mem} {l l' l₀ : List Ptr} {h : List Meddle} {rem : List Removal} {t : Tid}

/-! ## The list -/

/-- The list, the records and their lives are the same. -/
structure Mem.Same (m m' : Mem) : Prop where
  next : m'.next = m.next
  head : m'.connHead = m.connHead
  node : m'.node = m.node
  allocs : m'.allocs = m.allocs
  life : ∀ p, (m'.hist p).life = (m.hist p).life
  ids : m'.nextConnId = m.nextConnId

theorem Mem.Same.trans {m'' : Mem} (h₁ : m.Same m') (h₂ : m'.Same m'') : m.Same m'' where
  next := by rw [h₂.next, h₁.next]
  head := by rw [h₂.head, h₁.head]
  node := by rw [h₂.node, h₁.node]
  allocs := by rw [h₂.allocs, h₁.allocs]
  life p := by rw [h₂.life, h₁.life]
  ids := by rw [h₂.ids, h₁.ids]

/-- A note in a history that is not about the life. -/
theorem same_note {f : Hist → Hist} (m : Mem) (p : Ptr) (hf : ∀ k, (f k).life = k.life) : m.Same (m.note p f) :=
  ⟨rfl, rfl, rfl, rfl, note_keep hf m p, rfl⟩

theorem same_joinCall (m : Mem) (t : Tid) (p : Ptr) : m.Same (m.apply t (.joinCall p)) :=
  same_note (f := fun h => { h with joins := h.joins ++ [(m.node p).thread] }) m p fun _ => rfl

theorem same_joinReturn (m : Mem) (t : Tid) (p : Ptr) : m.Same (m.apply t (.joinReturn p)) :=
  same_note (f := fun h => { h with joined := true }) m p fun _ => rfl

theorem same_createFail (m : Mem) (t : Tid) (p : Ptr) : m.Same (m.apply t (.createFail p)) :=
  same_note (f := fun h => { h with createFailed := true }) m p fun _ => rfl

theorem same_close (m : Mem) (t : Tid) (fd : Fd) (p : Option Ptr) : m.Same (m.apply t (.close fd p)) := by
  refine ⟨rfl, rfl, rfl, rfl, fun q => ?_, rfl⟩
  simp only [Mem.apply]
  split <;> rfl

theorem same_lock (m : Mem) (t : Tid) : m.Same (m.apply t .lock) := ⟨rfl, rfl, rfl, rfl, fun _ => rfl, rfl⟩

theorem same_unlock (m : Mem) (t : Tid) : m.Same (m.apply t .unlock) := ⟨rfl, rfl, rfl, rfl, fun _ => rfl, rfl⟩

theorem Mem.Lists.same (hl : m.Lists l) (hs : m.Same m') : m'.Lists l where
  chain := by rw [hs.next, hs.head]; exact hl.chain
  nodup := hl.nodup
  born := by rw [hs.allocs]; exact hl.born
  alive p hp := by rw [hs.life]; exact hl.alive p hp

/-- The walk from the head visits exactly the list. -/
theorem Mem.Lists.listed_eq (hl : m.Lists l) : m.listed = l := hl.chain.walk_bounded hl.nodup hl.born

/-- Unlink a record behind its predecessor, and free it. -/
theorem Mem.Lists.remove (hl : m.Lists l) {p : Ptr} {prev : Option Ptr} (hp : Hangs m.next m.connHead l p prev) :
    (m.perform t [.unlink p prev, .free p]).Lists (l.erase p) where
  chain := hl.chain.unlink hl.nodup hp
  nodup := hl.nodup.erase p
  born q hq := hl.born q (List.mem_of_mem_erase hq)
  alive q hq := by
    obtain ⟨hne, hq⟩ := hl.nodup.mem_erase_iff.1 hq
    simp only [Mem.perform, List.foldl, Mem.apply, Mem.note]
    rw [Function.update_of_ne hne]
    exact hl.alive q hq

/-! ## What an interference can do -/

/-- Nothing to mark, nothing to take back. -/
def Meddle.Idle (m : Mem) (l : List Ptr) : Meddle → Prop
  | .prepend .. => False
  | .mark p => p ∉ l
  | .rollback p => ¬ (p ∈ l ∧ (m.node p).thread = none)

/-- The outcomes of an interference, with the list after it. -/
inductive Meddled (m : Mem) (l : List Ptr) : Meddle → Mem → List Ptr → Prop where
  | idle {a : Meddle} (ha : a.Idle m l) : Meddled m l a m l
  | prepend {fd : Fd} {c : Sock} {ip : Bytes} {port : ℕ} {started : Bool} {m' : Mem}
      (lists : m'.Lists (m.allocs :: l)) (allocs : m'.allocs = m.allocs + 1) (ids : m'.nextConnId = m.nextConnId + 1)
      (new : m'.node m.allocs = ⟨m.nextConnId, fd, ip, port, if started then some m.allocs else none, true, false⟩)
      (node : ∀ q, q ≠ m.allocs → m'.node q = m.node q)
      (life : ∀ q, q ≠ m.allocs → (m'.hist q).life = (m.hist q).life) :
      Meddled m l (.prepend fd c ip port started) m' (m.allocs :: l)
  | mark {p : Ptr} {m' : Mem} (mem : p ∈ l) (lists : m'.Lists l) (allocs : m'.allocs = m.allocs)
      (ids : m'.nextConnId = m.nextConnId)
      (node : m'.node = Function.update m.node p { m.node p with active := false, shouldRemove := true })
      (life : ∀ q, (m'.hist q).life = (m.hist q).life) :
      Meddled m l (.mark p) m' l
  | rollback {p : Ptr} {m' : Mem} (mem : p ∈ l) (thread : (m.node p).thread = none)
      (lists : m'.Lists (l.erase p)) (allocs : m'.allocs = m.allocs) (ids : m'.nextConnId = m.nextConnId)
      (node : m'.node = m.node)
      (life : ∀ q, q ≠ p → (m'.hist q).life = (m.hist q).life) :
      Meddled m l (.rollback p) m' (l.erase p)

/-- `add_connection` puts the new record at the head. -/
theorem meddled_add (hl : m.Lists l) (fd : Fd) (c : Sock) (ip : Bytes) (port : ℕ) :
    (m.perform .listener [.alloc fd c ip port, .lock, .link m.allocs, .publish m.allocs, .unlock]).Lists
      (m.allocs :: l) := by
  have hnew : m.allocs ∉ l := fun hm => lt_irrefl _ (hl.born _ hm)
  refine ⟨?_, List.nodup_cons.2 ⟨hnew, hl.nodup⟩, ?_, ?_⟩
  · exact (hl.chain.write hnew).push (Function.update_self ..)
  · intro q hq
    rcases List.mem_cons.1 hq with rfl | hq
    · exact Nat.lt_succ_self _
    · exact (hl.born q hq).trans (Nat.lt_succ_self _)
  · intro q hq
    simp only [Mem.perform, List.foldl, Mem.apply, Mem.note]
    by_cases hqm : q = m.allocs
    · subst hqm; rw [Function.update_self]
    · rw [Function.update_of_ne hqm, Function.update_of_ne hqm]
      exact hl.alive q ((List.mem_cons.1 hq).resolve_left hqm)

/-- **What an interference can do.** -/
theorem meddle_cases (hl : m.Lists l) (a : Meddle) : ∃ l', Meddled m l a (m.meddle a) l' := by
  cases a with
  | prepend fd c ip port started =>
    refine ⟨m.allocs :: l, ?_⟩
    have hadd := meddled_add hl fd c ip port
    cases started with
    | true =>
      refine .prepend ⟨hadd.chain, hadd.nodup, hadd.born, hadd.alive⟩ rfl rfl ?_ ?_ ?_
      · simp [Mem.meddle, Mem.perform, Mem.apply, Mem.setNode, Mem.setRecv, Mem.note]
      · intro q hq
        simp [Mem.meddle, Mem.perform, Mem.apply, Mem.setNode, Mem.setRecv, Mem.note, hq]
      · intro q hq
        simp [Mem.meddle, Mem.perform, Mem.apply, Mem.setNode, Mem.setRecv, Mem.note, hq]
    | false =>
      refine .prepend (hadd.same (same_createFail _ .listener m.allocs)) rfl rfl ?_ ?_ ?_
      · simp [Mem.meddle, Mem.perform, Mem.apply, Mem.note]
      · intro q hq
        simp [Mem.meddle, Mem.perform, Mem.apply, Mem.note, hq]
      · intro q hq
        simp [Mem.meddle, Mem.perform, Mem.apply, Mem.note, hq]
  | mark p =>
    simp only [Mem.meddle, hl.listed_eq]
    by_cases hp : p ∈ l
    · rw [if_pos hp]
      exact ⟨l, .mark hp ⟨hl.chain, hl.nodup, hl.born, hl.alive⟩ rfl rfl rfl fun _ => rfl⟩
    · rw [if_neg hp]
      exact ⟨l, .idle hp⟩
  | rollback p =>
    simp only [Mem.meddle, hl.listed_eq]
    by_cases hp : p ∈ l ∧ (m.node p).thread = none
    · rw [if_pos hp]
      obtain ⟨prev, hf⟩ := Option.ne_none_iff_exists'.1 (fun hf => Sync.findLink_none hl.chain hf hp.1)
      rw [hf]
      have hs : m.Same (m.perform .listener [.close (m.node p).sockfd (some p), .lock]) :=
        (same_close m .listener _ (some p)).trans (same_lock _ .listener)
      have hh : Hangs m.next m.connHead l p prev := Sync.findLink_hangs hf
      rw [← hs.next, ← hs.head] at hh
      have hl' := (hl.same hs).remove (t := .listener) hh
      refine ⟨l.erase p, .rollback hp.1 hp.2 ⟨hl'.chain, hl'.nodup, hl'.born, hl'.alive⟩ rfl rfl rfl ?_⟩
      intro q hq
      simp [Mem.perform, Mem.apply, Mem.note, hq, Ne.symm hq]
    · rw [if_neg hp]
      exact ⟨l, .idle hp⟩

theorem Meddled.lists {a : Meddle} (hl : m.Lists l) (ha : Meddled m l a m' l') : m'.Lists l' := by
  cases ha with
  | idle => exact hl
  | prepend lists => exact lists
  | mark _ lists => exact lists
  | rollback _ _ lists => exact lists

/-- A mark stays. -/
theorem Meddled.stays {a : Meddle} (ha : Meddled m l a m' l') :
    m.allocs ≤ m'.allocs ∧ ∀ p, p < m.allocs → (m.node p).shouldRemove → (m'.node p).shouldRemove := by
  cases ha with
  | idle => exact ⟨le_rfl, fun _ _ hm => hm⟩
  | prepend _ allocs _ _ node => exact ⟨by omega, fun p hp hm => by rw [node p hp.ne]; exact hm⟩
  | @mark q _ _ _ allocs _ node =>
    refine ⟨allocs.ge, fun p _ hm => ?_⟩
    rw [node]
    by_cases hp : p = q
    · subst hp; rw [Function.update_self]
    · rw [Function.update_of_ne hp]; exact hm
  | rollback _ _ _ allocs _ node => exact ⟨allocs.ge, fun p _ hm => by rw [node]; exact hm⟩

/-- Only a receive thread marks a record. -/
theorem Meddled.marked {a : Meddle} (ha : Meddled m l a m' l') (hn : ∀ p, a ≠ .mark p) (hl : m.Lists l) :
    ∀ p ∈ l', (m'.node p).shouldRemove → p ∈ l ∧ (m.node p).shouldRemove := by
  intro p hp hm
  cases ha with
  | idle => exact ⟨hp, hm⟩
  | prepend _ _ _ new node =>
    rcases List.mem_cons.1 hp with rfl | hp
    · rw [new] at hm; cases hm
    · rw [node p (hl.born p hp).ne] at hm
      exact ⟨hp, hm⟩
  | mark => exact absurd rfl (hn _)
  | rollback _ _ _ _ _ node =>
    rw [node] at hm
    exact ⟨List.mem_of_mem_erase hp, hm⟩

theorem meddled_stays : ∀ {w : List Meddle} {m : Mem} {l : List Ptr}, m.Lists l →
    m.allocs ≤ (w.foldl Mem.meddle m).allocs ∧
      ∀ p, p < m.allocs → (m.node p).shouldRemove → ((w.foldl Mem.meddle m).node p).shouldRemove := by
  intro w
  induction w with
  | nil => intro m l _; exact ⟨le_rfl, fun _ _ hm => hm⟩
  | cons a w ih =>
    intro m l hl
    obtain ⟨l₁, ha⟩ := meddle_cases hl a
    obtain ⟨h1, h2⟩ := ha.stays
    obtain ⟨h3, h4⟩ := ih (ha.lists hl)
    exact ⟨h1.trans h3, fun p hp hm => h4 p (hp.trans_le h1) (h2 p hp hm)⟩

theorem meddled_marked : ∀ {w : List Meddle} {m : Mem} {l : List Ptr}, m.Lists l → (∀ p, .mark p ∉ w) →
    ∀ p ∈ (w.foldl Mem.meddle m).listed, ((w.foldl Mem.meddle m).node p).shouldRemove →
      p ∈ l ∧ (m.node p).shouldRemove := by
  intro w
  induction w with
  | nil => intro m l hl _ p hp hm; exact ⟨hl.listed_eq ▸ hp, hm⟩
  | cons a w ih =>
    intro m l hl hw p hp hm
    obtain ⟨l₁, ha⟩ := meddle_cases hl a
    obtain ⟨hp₁, hm₁⟩ := ih (ha.lists hl) (fun q hq => hw q (List.mem_cons_of_mem _ hq)) p hp hm
    exact ha.marked (fun q e => hw q (e ▸ List.mem_cons_self)) hl p hp₁ hm₁

/-! ## What is known during the call -/

/-- What is known of the fields `n` of record `p`: they are as in `m₀`, or as it was made, until it
is marked. -/
structure Known (m₀ : Mem) (l₀ : List Ptr) (h : List Meddle) (p : Ptr) (n : PeerConn) : Prop where
  thread : p ∈ l₀ → n.thread = (m₀.node p).thread
  kept : p ∈ l₀ → n.shouldRemove = false → n = m₀.node p
  fresh : m₀.allocs ≤ p → n.shouldRemove = false → (newcomers m₀.allocs m₀.nextConnId h)[p - m₀.allocs]? = some n
  why : n.shouldRemove → p ∈ l₀ ∧ (m₀.node p).shouldRemove ∨ .mark p ∈ h

/-- **The state during the call**: `m₀`, `l₀` at its start, `h` the interferences so far, `m`
and `l` now, `rem` the removals so far. -/
structure Track (m₀ : Mem) (l₀ : List Ptr) (h : List Meddle) (m : Mem) (l : List Ptr) (rem : List Removal) :
    Prop where
  lists : m.Lists l
  count : m.allocs = m₀.allocs + (newcomers m₀.allocs m₀.nextConnId h).length
  ids : m.nextConnId = m₀.nextConnId + BitVec.ofNat 32 (newcomers m₀.allocs m₀.nextConnId h).length
  order : ∃ new old, l = new ++ old ∧ old.Sublist l₀ ∧ (∀ p ∈ new, m₀.allocs ≤ p) ∧ new.Pairwise (· > ·)
  known : ∀ p ∈ l, Known m₀ l₀ h p (m.node p)
  marked : ∀ x ∈ rem, x.node.shouldRemove ∧ (x.conn ∈ l₀ ∧ (m₀.node x.conn).shouldRemove ∨ .mark x.conn ∈ h)
  once : (rem.map Removal.conn).Nodup
  released : ∀ x ∈ rem, x.life = .listed ∧ (m.hist x.conn).life = .released ∧ x.conn < m.allocs
  whole : ∀ p, p ∈ l₀ ∨ m₀.allocs ≤ p ∧ p < m.allocs →
    p ∈ l ∨ p ∈ rem.map Removal.conn ∨ .rollback p ∈ h ∧ (p ∈ l₀ → (m₀.node p).thread = none)

/-! ### The steps -/

/-- The records made by a further interference come behind those before. -/
theorem newcomers_append (a : Meddle) : ∀ (h : List Meddle) (p : Ptr) (id : BitVec 32),
    newcomers p id (h ++ [a]) = newcomers p id h ++
      newcomers (p + (newcomers p id h).length) (id + BitVec.ofNat 32 (newcomers p id h).length) [a] := by
  intro h
  induction h with
  | nil => intro p id; simp [newcomers]
  | cons x h ih =>
    intro p id
    cases x with
    | prepend fd c ip port started =>
      have hp (n : ℕ) : p + 1 + n = p + (n + 1) := Nat.add_right_comm p 1 n
      have hid (n : ℕ) : id + 1 + BitVec.ofNat 32 n = id + BitVec.ofNat 32 (n + 1) := by
        rw [BitVec.add_assoc, BitVec.ofNat_add, BitVec.add_comm 1]
        rfl
      simp only [List.cons_append, newcomers, ih, List.length_cons, hp, hid]
    | mark q => simpa only [List.cons_append, newcomers] using ih p id
    | rollback q => simpa only [List.cons_append, newcomers] using ih p id

theorem Known.mono {p : Ptr} {n : PeerConn} (hk : Known m₀ l₀ h p n) (a : Meddle) : Known m₀ l₀ (h ++ [a]) p n := by
  refine ⟨hk.thread, hk.kept, fun hp hn => ?_, fun hn => (hk.why hn).imp_right (List.mem_append_left _ ·)⟩
  have hold := hk.fresh hp hn
  rw [newcomers_append, List.getElem?_append_left (List.getElem?_eq_some_iff.1 hold).1]
  exact hold

theorem Track.init (hl : m₀.Lists l₀) : Track m₀ l₀ [] m₀ l₀ [] where
  lists := hl
  count := rfl
  ids := by simp [newcomers]
  order := ⟨[], l₀, rfl, List.Sublist.refl _, by simp⟩
  known p hp := ⟨fun _ => rfl, fun _ _ => rfl, fun hge => absurd (hl.born p hp) (not_lt.2 hge), fun hm => .inl ⟨hp, hm⟩⟩
  marked := by simp
  once := List.nodup_nil
  released := by simp
  whole p hp := .inl (hp.resolve_right fun hp => absurd hp.2 (not_lt.2 hp.1))

theorem Track.same (hT : Track m₀ l₀ h m l rem) (hs : m.Same m') : Track m₀ l₀ h m' l rem where
  lists := hT.lists.same hs
  count := by rw [hs.allocs]; exact hT.count
  ids := by rw [hs.ids]; exact hT.ids
  order := hT.order
  known := by rw [hs.node]; exact hT.known
  marked := hT.marked
  once := hT.once
  released x hx := by rw [hs.life, hs.allocs]; exact hT.released x hx
  whole := by rw [hs.allocs]; exact hT.whole

/-- A removed record is not listed. -/
theorem Track.gone (hT : Track m₀ l₀ h m l rem) {x : Removal} (hx : x ∈ rem) : x.conn ∉ l := by
  intro hm
  have hr := (hT.released x hx).2.1
  rw [hT.lists.alive _ hm] at hr
  cases hr

theorem Track.grows (hT : Track m₀ l₀ h m l rem) : m₀.allocs ≤ m.allocs := by
  have := hT.count
  omega

/-- An interference that makes no record is on record before it has happened. -/
theorem Track.mono {a : Meddle} (hT : Track m₀ l₀ h m l rem) (ha : ∀ p id, newcomers p id [a] = []) :
    Track m₀ l₀ (h ++ [a]) m l rem where
  lists := hT.lists
  count := by rw [newcomers_append, ha, List.append_nil]; exact hT.count
  ids := by rw [newcomers_append, ha, List.append_nil]; exact hT.ids
  order := hT.order
  known p hp := (hT.known p hp).mono a
  marked x hx := (hT.marked x hx).imp_right (Or.imp_right (List.mem_append_left _ ·))
  once := hT.once
  released := hT.released
  whole p hp := (hT.whole p hp).imp_right (Or.imp_right (And.imp_left (List.mem_append_left _ ·)))

/-- Records leave a list that has kept its order. -/
theorem order_erase {k : ℕ}
    (ho : ∃ new old, l = new ++ old ∧ old.Sublist l₀ ∧ (∀ p ∈ new, k ≤ p) ∧ new.Pairwise (· > ·)) (p : Ptr) :
    ∃ new old, l.erase p = new ++ old ∧ old.Sublist l₀ ∧ (∀ q ∈ new, k ≤ q) ∧ new.Pairwise (· > ·) := by
  obtain ⟨new, old, rfl, hold, hnew, hfall⟩ := ho
  by_cases hp : p ∈ new
  · exact ⟨new.erase p, old, List.erase_append_left _ hp, hold, fun q hq => hnew q (List.mem_of_mem_erase hq),
      hfall.sublist List.erase_sublist⟩
  · exact ⟨new, old.erase p, List.erase_append_right _ hp, List.erase_sublist.trans hold, hnew, hfall⟩

/-- **An interference** keeps track. -/
theorem Track.meddle (hl : m₀.Lists l₀) (hT : Track m₀ l₀ h m l rem) {a : Meddle} (ha : Meddled m l a m' l') :
    Track m₀ l₀ (h ++ [a]) m' l' rem := by
  have hgrows := hT.grows
  have hlast : a ∈ h ++ [a] := by simp
  cases ha with
  | idle hi =>
    refine hT.mono fun p id => ?_
    cases a with
    | prepend => exact hi.elim
    | mark q => rfl
    | rollback q => rfl
  | @prepend fd c ip port started _ lists allocs ids new node life =>
    have hold : ∀ {q}, q < m.allocs → q ≠ m.allocs := fun hq => hq.ne
    have hmade : newcomers m₀.allocs m₀.nextConnId (h ++ [.prepend fd c ip port started]) =
        newcomers m₀.allocs m₀.nextConnId h ++ [m'.node m.allocs] := by
      rw [newcomers_append, ← hT.count, ← hT.ids, new]
      rfl
    refine ⟨lists, ?_, ?_, ?_, ?_, ?_, hT.once, ?_, ?_⟩
    · rw [hmade, allocs, hT.count, List.length_append]
      rfl
    · rw [hmade, ids, hT.ids, List.length_append, BitVec.ofNat_add, BitVec.add_assoc]
      rfl
    · obtain ⟨newer, older, rfl, hsub, hge, hfall⟩ := hT.order
      refine ⟨m.allocs :: newer, older, rfl, hsub, by simpa using ⟨hgrows, hge⟩, List.pairwise_cons.2 ⟨?_, hfall⟩⟩
      exact fun q hq => hT.lists.born q (List.mem_append_left _ hq)
    · intro q hq
      rcases List.mem_cons.1 hq with rfl | hq
      · -- the new record is none of the old ones
        have hout : m.allocs ∉ l₀ := fun hm => absurd (hl.born _ hm) (not_lt.2 hgrows)
        refine ⟨fun hm => absurd hm hout, fun hm => absurd hm hout, fun _ _ => ?_, fun hm => by rw [new] at hm; cases hm⟩
        have hlen : m.allocs - m₀.allocs = (newcomers m₀.allocs m₀.nextConnId h).length := by
          rw [hT.count]
          omega
        rw [hmade, hlen, List.getElem?_concat_length]
      · rw [node q (hold (hT.lists.born q hq))]
        exact (hT.known q hq).mono _
    · exact fun x hx => (hT.marked x hx).imp_right (Or.imp_right (List.mem_append_left _ ·))
    · intro x hx
      obtain ⟨h1, h2, h3⟩ := hT.released x hx
      exact ⟨h1, by rw [life _ (hold h3)]; exact h2, by rw [allocs]; exact h3.trans (Nat.lt_succ_self _)⟩
    · intro q hq
      by_cases hqm : q = m.allocs
      · exact .inl (by rw [hqm]; exact List.mem_cons_self)
      · rw [allocs] at hq
        have hq' := hq.imp_right (And.imp_right fun hlt => lt_of_le_of_ne (Nat.lt_succ_iff.1 hlt) hqm)
        exact (hT.whole q hq').imp (List.mem_cons_of_mem _) (Or.imp_right (And.imp_left (List.mem_append_left _ ·)))
  | @mark p _ mem lists allocs ids node life =>
    have hM := hT.mono (a := .mark p) fun _ _ => rfl
    refine ⟨lists, by rw [allocs]; exact hM.count, by rw [ids]; exact hM.ids, hT.order, ?_, hM.marked, hM.once, ?_, ?_⟩
    · intro q hq
      by_cases hqp : q = p
      · -- its fields may now differ from the old ones, and `h` says why
        subst hqp
        rw [node, Function.update_self]
        exact ⟨(hT.known q hq).thread, fun _ hm => by simp at hm, fun _ hm => by simp at hm, fun _ => .inr hlast⟩
      · rw [node, Function.update_of_ne hqp]
        exact hM.known q hq
    · intro x hx
      rw [life, allocs]; exact hT.released x hx
    · rw [allocs]; exact hM.whole
  | @rollback p _ mem thread lists allocs ids node life =>
    have hM := hT.mono (a := .rollback p) fun _ _ => rfl
    refine ⟨lists, by rw [allocs]; exact hM.count, by rw [ids]; exact hM.ids, order_erase hT.order p, ?_, hM.marked,
      hM.once, ?_, ?_⟩
    · intro q hq
      rw [node]; exact hM.known q (List.mem_of_mem_erase hq)
    · intro x hx
      have hne : x.conn ≠ p := fun e => hT.gone hx (e ▸ mem)
      rw [life _ hne, allocs]; exact hT.released x hx
    · intro q hq
      rw [allocs] at hq
      by_cases hqp : q = p
      · -- no interference changes the thread of an old record
        subst hqp
        refine .inr (.inr ⟨hlast, fun hm => ?_⟩)
        rw [← (hT.known q mem).thread hm]; exact thread
      · exact (hM.whole q hq).imp_left (List.mem_erase_of_ne hqp).2

/-- **A window** keeps track. -/
theorem Track.meddled (hl : m₀.Lists l₀) : ∀ {w h : List Meddle} {m : Mem} {l : List Ptr},
    Track m₀ l₀ h m l rem → ∃ l', Track m₀ l₀ (h ++ w) (w.foldl Mem.meddle m) l' rem := by
  intro w
  induction w with
  | nil => intro h m l hT; exact ⟨l, by simpa using hT⟩
  | cons a w ih =>
    intro h m l hT
    obtain ⟨l₁, ha⟩ := meddle_cases hT.lists a
    obtain ⟨l', hT'⟩ := ih (hT.meddle hl ha)
    exact ⟨l', by simpa using hT'⟩

/-- **A removal** keeps track. -/
theorem Track.remove (hT : Track m₀ l₀ h m l rem) {p : Ptr} {prev : Option Ptr}
    (hp : Hangs m.next m.connHead l p prev) (hm : (m.node p).shouldRemove) :
    Track m₀ l₀ h (removeNodeLocked m prev p) (l.erase p) (rem ++ [⟨p, m.node p, (m.hist p).life⟩]) := by
  have hpl : p ∈ l := hp.mem hT.lists.chain
  have hlife (q : Ptr) : ((removeNodeLocked m prev p).hist q).life =
      if q = p then .released else (m.hist q).life := by
    by_cases hq : q = p <;> simp [removeNodeLocked, Mem.perform, Mem.apply, Mem.note, hq]
  refine ⟨hT.lists.remove hp, hT.count, hT.ids, order_erase hT.order p, ?_, ?_, ?_, ?_, ?_⟩
  · intro q hq
    exact hT.known q (List.mem_of_mem_erase hq)
  · intro x hx
    rcases List.mem_append.1 hx with hx | hx
    · exact hT.marked x hx
    · rw [List.mem_singleton.1 hx]
      exact ⟨hm, (hT.known p hpl).why hm⟩
  · -- it is on the list, so it was not removed before
    have hnot : p ∉ rem.map Removal.conn := by
      intro hx
      obtain ⟨x, hx', rfl⟩ := List.mem_map.1 hx
      exact hT.gone hx' hpl
    rw [List.map_append]
    refine hT.once.append (List.nodup_singleton p) fun q hq hqp => ?_
    rw [List.mem_singleton.1 hqp] at hq
    exact hnot hq
  · intro x hx
    rw [hlife]
    rcases List.mem_append.1 hx with hx | hx
    · have hne : x.conn ≠ p := fun e => hT.gone hx (e ▸ hpl)
      rw [if_neg hne]; exact hT.released x hx
    · rw [List.mem_singleton.1 hx, if_pos rfl]
      exact ⟨hT.lists.alive p hpl, rfl, hT.lists.born p hpl⟩
  · intro q hq
    by_cases hqp : q = p
    · subst hqp; exact .inr (.inl (by simp))
    · rcases hT.whole q hq with hq | hq | hq
      · exact .inl ((List.mem_erase_of_ne hqp).2 hq)
      · exact .inr (.inl (by rw [List.map_append]; exact List.mem_append_left _ hq))
      · exact .inr (.inr hq)

/-! ## One round -/

variable {ws : ℕ → List Meddle} {r r' : Reaping} {pre suf : List Ptr} {cur : Ptr} {n : ℕ}

/-- **The loop invariant**: the records behind `cur` are not marked. -/
structure Reaping.Ok (ws : ℕ → List Meddle) (m₀ : Mem) (l₀ : List Ptr) (r : Reaping) (pre suf : List Ptr) :
    Prop where
  track : Track m₀ l₀ (acts ws r.window) r.mem (pre ++ suf) r.removed
  clean : ∀ p ∈ pre, (r.mem.node p).shouldRemove = false
  ahead : Chain r.mem.next r.cur suf

theorem acts_succ (ws : ℕ → List Meddle) (k : ℕ) : acts ws (k + 1) = acts ws k ++ ws k := by
  simp [acts, List.range_succ]

/-- The search for `cur` with enough fuel. -/
theorem scanFor_eq {next : Ptr → Option Ptr} : ∀ {l : List Ptr} {n : ℕ} {scan prev : Option Ptr},
    Chain next scan l → l.length < n → scanFor next cur n scan prev = some (findPrev cur prev l) := by
  intro l
  induction l with
  | nil =>
    intro n scan prev hc hn
    obtain ⟨n, rfl⟩ := Nat.exists_eq_add_of_lt hn
    simp only [Chain] at hc
    subst hc
    simp [scanFor, findPrev]
  | cons q l ih =>
    intro n scan prev hc hn
    obtain ⟨rfl, hc⟩ := hc
    cases n with
    | zero => simp at hn
    | succ n =>
      simp only [scanFor, findPrev]
      by_cases hq : q = cur
      · rw [if_pos hq, if_pos hq]
      · rw [if_neg hq, if_neg hq]
        exact ih hc (by simpa using hn)

/-- The search for `cur`, whatever its fuel. -/
theorem scanFor_some {next : Ptr → Option Ptr} {x : Option (Option Ptr)} : ∀ {n : ℕ} {l : List Ptr}
    {scan prev : Option Ptr}, Chain next scan l → scanFor next cur n scan prev = some x →
    x = findPrev cur prev l := by
  intro n
  induction n with
  | zero => intro l scan prev _ hs; simp [scanFor] at hs
  | succ n ih =>
    intro l scan prev hc hs
    cases l with
    | nil =>
      simp only [Chain] at hc
      subst hc
      simpa [scanFor, findPrev] using hs.symm
    | cons q l =>
      obtain ⟨rfl, hc⟩ := hc
      simp only [scanFor] at hs
      simp only [findPrev]
      by_cases hq : q = cur
      · rw [if_pos hq] at hs ⊢
        exact (Option.some.inj hs).symm
      · rw [if_neg hq] at hs ⊢
        exact ih hc hs

/-- What a round with a join comes to, `prev` being where the search has found `cur`. -/
def Reaping.joined (r : Reaping) (m : Mem) (cur : Ptr) : Option (Option Ptr) → Reaping
  | none => ⟨m, none, m.connHead, r.window + 1, r.removed⟩
  | some prev =>
    ⟨removeNodeLocked m prev cur, none, (removeNodeLocked m prev cur).connHead, r.window + 1,
      r.removed ++ [⟨cur, m.node cur, (m.hist cur).life⟩]⟩

@[simp] theorem joined_node (r : Reaping) (m : Mem) (cur : Ptr) (x : Option (Option Ptr)) :
    (r.joined m cur x).mem.node = m.node := by cases x <;> rfl

@[simp] theorem joined_allocs (r : Reaping) (m : Mem) (cur : Ptr) (x : Option (Option Ptr)) :
    (r.joined m cur x).mem.allocs = m.allocs := by cases x <;> rfl

@[simp] theorem joined_window (r : Reaping) (m : Mem) (cur : Ptr) (x : Option (Option Ptr)) :
    (r.joined m cur x).window = r.window + 1 := by cases x <;> rfl

theorem round_join (hm : (r.mem.node cur).shouldRemove) :
    reapRound ws n r cur =
      (scanFor (r.mem.joinWindow cur (ws r.window)).next cur n (r.mem.joinWindow cur (ws r.window)).connHead none).map
        (r.joined (r.mem.joinWindow cur (ws r.window)) cur) := by
  simp only [reapRound, if_pos hm]
  cases scanFor (r.mem.joinWindow cur (ws r.window)).next cur n (r.mem.joinWindow cur (ws r.window)).connHead none with
  | none => rfl
  | some x => cases x <;> rfl

theorem round_pass (hm : (r.mem.node cur).shouldRemove = false) :
    reapRound ws n r cur = some { r with prev := some cur, cur := r.mem.next cur } := by
  simp [reapRound, hm]

theorem same_opened (m : Mem) (p : Ptr) : m.Same (m.perform .main [.unlock, .joinCall p]) :=
  (same_unlock m .main).trans (same_joinCall _ .main p)

theorem same_closed (m : Mem) (p : Ptr) : m.Same (m.perform .main [.joinReturn p, .lock]) :=
  (same_joinReturn m .main p).trans (same_lock _ .main)

/-- The record joined stays marked. -/
theorem joinWindow_stays (hl : m.Lists l) {p : Ptr} (hp : p ∈ l) (hm : (m.node p).shouldRemove) (w : List Meddle) :
    ((m.joinWindow p w).node p).shouldRemove := by
  have hs := same_opened m p
  simp only [Mem.joinWindow]
  rw [(same_closed _ p).node]
  exact (meddled_stays (hl.same hs)).2 p (by rw [hs.allocs]; exact hl.born p hp) (by rw [hs.node]; exact hm)

/-- **The window of a join** keeps track; without a mark in it no record becomes marked. -/
theorem Track.joinWindow (hl : m₀.Lists l₀) (hT : Track m₀ l₀ h m l rem) (p : Ptr) (w : List Meddle) :
    ∃ l', Track m₀ l₀ (h ++ w) (m.joinWindow p w) l' rem ∧
      ((∀ q, .mark q ∉ w) →
        ∀ q ∈ l', ((m.joinWindow p w).node q).shouldRemove → q ∈ l ∧ (m.node q).shouldRemove) := by
  have hs := same_opened m p
  obtain ⟨l', hT'⟩ := (hT.same hs).meddled hl (w := w)
  have hc := same_closed (w.foldl Mem.meddle (m.perform .main [.unlock, .joinCall p])) p
  refine ⟨l', hT'.same hc, fun hw q hq hqm => ?_⟩
  simp only [Mem.joinWindow] at hqm
  rw [hc.node] at hqm
  rw [← hs.node]
  exact meddled_marked (hT.lists.same hs) hw q (by rw [hT'.lists.listed_eq]; exact hq) hqm

/-- **A round with a join** keeps the loop invariant: the traversal starts again. -/
theorem ok_joined {l₁ : List Ptr} (hT : Track m₀ l₀ (acts ws (r.window + 1)) m l₁ r.removed)
    (hm : (m.node cur).shouldRemove) :
    (r.joined m cur (findPrev cur none l₁)).Ok ws m₀ l₀ [] (l₁.erase cur) := by
  cases hf : findPrev cur none l₁ with
  | none =>
    -- it was taken back in the window
    rw [List.erase_of_not_mem (Sync.findPrev_none.1 hf)]
    exact ⟨hT, by simp, hT.lists.chain⟩
  | some prev =>
    have hT' := hT.remove (Sync.findPrev_hangs hT.lists.chain hf) hm
    exact ⟨hT', by simp, hT'.lists.chain⟩

/-- A round without a join keeps the loop invariant. -/
theorem Reaping.Ok.pass (hO : r.Ok ws m₀ l₀ pre (cur :: suf)) (hm : (r.mem.node cur).shouldRemove = false) :
    Reaping.Ok ws m₀ l₀ { r with prev := some cur, cur := r.mem.next cur } (pre ++ [cur]) suf := by
  refine ⟨by simpa using hO.track, ?_, hO.ahead.2⟩
  intro p hp
  rcases List.mem_append.1 hp with hp | hp
  · exact hO.clean p hp
  · rw [List.mem_singleton.1 hp]; exact hm

theorem ok_start (hl : m₀.Lists l₀) :
    Reaping.Ok ws m₀ l₀ ⟨m₀.apply .main .lock, none, m₀.connHead, 0, []⟩ [] l₀ :=
  ⟨(Track.init hl).same (same_lock m₀ .main), by simp, hl.chain⟩

/-! ## The loop -/

/-- **What the loop returns**, whatever its fuel. -/
theorem loop_ok (hl : m₀.Lists l₀) : ∀ {n : ℕ} {r : Reaping} {pre suf : List Ptr}, r.Ok ws m₀ l₀ pre suf →
    reapLoop ws n r = some r' →
    ∃ l, Track m₀ l₀ (acts ws r'.window) r'.mem l r'.removed ∧
      (∀ p ∈ l, (r'.mem.node p).shouldRemove = false) ∧ r'.mem.connMutex = none := by
  intro n
  induction n with
  | zero => intro r pre suf _ hr; simp [reapLoop] at hr
  | succ n ih =>
    intro r pre suf hO hr
    simp only [reapLoop] at hr
    cases suf with
    | nil =>
      -- the end of the list: all of it lies behind
      have hcur : r.cur = none := hO.ahead
      rw [hcur, Option.some.injEq] at hr
      subst hr
      refine ⟨pre, ?_, hO.clean, rfl⟩
      have hT := hO.track.same (same_unlock r.mem .main)
      rwa [List.append_nil] at hT
    | cons cur suf =>
      have hcur : r.cur = some cur := hO.ahead.1
      rw [hcur] at hr
      simp only [Option.bind_eq_some_iff] at hr
      obtain ⟨r₁, hround, hr⟩ := hr
      by_cases hm : (r.mem.node cur).shouldRemove
      · -- what the search finds is told by the list after the window, not by the one before
        obtain ⟨l₁, hT, -⟩ := hO.track.joinWindow hl cur (ws r.window)
        have hm₁ := joinWindow_stays hO.track.lists (p := cur) (by simp) hm (ws r.window)
        rw [← acts_succ] at hT
        rw [round_join hm, Option.map_eq_some_iff] at hround
        obtain ⟨x, hx, rfl⟩ := hround
        rw [scanFor_some hT.lists.chain hx] at hr
        exact ih (ok_joined hT hm₁) hr
      · rw [Bool.not_eq_true] at hm
        rw [round_pass hm, Option.some.injEq] at hround
        subst hround
        exact ih (hO.pass hm) hr

/-- **The traversal stops at the first marked record**: the rounds up to it are the one step
`scan` of `reapConnections`. -/
theorem loop_scan : ∀ {suf : List Ptr} {r : Reaping}, Chain r.mem.next r.cur suf → ∃ prev k, ∀ n,
    reapLoop ws (n + k) r =
      reapLoop ws n { r with prev := prev, cur := suf.find? fun p => (r.mem.node p).shouldRemove } := by
  intro suf
  induction suf with
  | nil =>
    intro r hc
    refine ⟨r.prev, 0, fun n => ?_⟩
    rw [List.find?_nil, ← show r.cur = none from hc]
    rfl
  | cons cur suf ih =>
    intro r hc
    by_cases hm : (r.mem.node cur).shouldRemove
    · refine ⟨r.prev, 0, fun n => ?_⟩
      rw [List.find?_cons_of_pos (p := fun p => (r.mem.node p).shouldRemove) hm, ← hc.1]
      rfl
    · obtain ⟨prev, k, hk⟩ := ih (r := { r with prev := some cur, cur := r.mem.next cur }) hc.2
      refine ⟨prev, k + 1, fun n => ?_⟩
      rw [List.find?_cons_of_neg (p := fun p => (r.mem.node p).shouldRemove) hm, ← Nat.add_assoc, reapLoop, hc.1]
      simp only
      rw [round_pass (by simpa using hm)]
      exact hk n

/-- The loop ends from here, with enough fuel. -/
def Ends (ws : ℕ → List Meddle) (r : Reaping) : Prop := ∃ N r', ∀ n ≥ N, reapLoop ws n r = some r'

theorem ends_round {N : ℕ} (hcur : r.cur = some cur) (hr : ∀ n ≥ N, reapRound ws n r cur = some r')
    (he : Ends ws r') : Ends ws r := by
  obtain ⟨M, r₁, hM⟩ := he
  refine ⟨max N M + 1, r₁, fun n hn => ?_⟩
  cases n with
  | zero => omega
  | succ n =>
    have hN : n ≥ N := by omega
    have hM' : n ≥ M := by omega
    simp only [reapLoop, hcur, hr n hN, Option.bind_some]
    exact hM n hM'

/-- The number of marked records on the list. -/
def doomed (m : Mem) (l : List Ptr) : ℕ := (l.filter fun p => (m.node p).shouldRemove).length

/-- Without a new mark, a round with a join has one marked record less. -/
theorem doomed_lt (hnd : l'.Nodup) (hp : cur ∈ l) (hm : (m.node cur).shouldRemove)
    (hsub : ∀ q ∈ l', (m'.node q).shouldRemove → q ∈ l ∧ (m.node q).shouldRemove) (hcur : cur ∉ l') :
    doomed m' l' < doomed m l := by
  have hnd' : (cur :: l'.filter fun p => (m'.node p).shouldRemove).Nodup :=
    List.nodup_cons.2 ⟨fun hq => hcur (List.mem_filter.1 hq).1, hnd.filter _⟩
  have hsub' : (cur :: l'.filter fun p => (m'.node p).shouldRemove) ⊆ l.filter fun p => (m.node p).shouldRemove := by
    intro q hq
    rcases List.mem_cons.1 hq with rfl | hq
    · exact List.mem_filter.2 ⟨hp, hm⟩
    · exact List.mem_filter.2 (hsub q (List.mem_filter.1 hq).1 (List.mem_filter.1 hq).2)
  exact (hnd'.subperm hsub').length_le

/-- The traversal comes to the end of the list, or to a marked record and starts again. -/
theorem ends_traverse (hl : m₀.Lists l₀) {k : ℕ}
    (hrest : ∀ r' l', Reaping.Ok ws m₀ l₀ r' [] l' → r'.window = k + 1 →
      ((∀ p, .mark p ∉ ws k) → doomed r'.mem l' < doomed m l) → Ends ws r') :
    ∀ {suf pre : List Ptr} {r : Reaping}, r.Ok ws m₀ l₀ pre suf → pre ++ suf = l → r.mem = m → r.window = k →
      Ends ws r := by
  intro suf
  induction suf with
  | nil =>
    intro pre r hO _ _ _
    have hcur : r.cur = none := hO.ahead
    refine ⟨1, { r with mem := r.mem.apply .main .unlock }, fun n hn => ?_⟩
    obtain ⟨n, rfl⟩ := Nat.exists_eq_add_of_le' hn
    simp only [reapLoop, hcur]
  | cons cur suf ih =>
    intro pre r hO hpl hrm hrk
    have hcur : r.cur = some cur := hO.ahead.1
    by_cases hm : (r.mem.node cur).shouldRemove
    · obtain ⟨l₁, hT, hsub⟩ := hO.track.joinWindow hl cur (ws r.window)
      have hm₁ := joinWindow_stays hO.track.lists (p := cur) (by simp) hm (ws r.window)
      rw [← acts_succ] at hT
      have hnd := hT.lists.nodup
      -- fuel for the search in the list after the window
      refine ends_round (N := l₁.length + 1) hcur (fun n hn => ?_)
        (hrest _ _ (ok_joined hT hm₁) ?_ fun hw => ?_)
      · rw [round_join hm, scanFor_eq hT.lists.chain (by omega)]
        rfl
      · rw [joined_window, hrk]
      · subst hpl hrm hrk
        refine doomed_lt (hnd.erase cur) (by simp) hm (fun q hq hqm => ?_) hnd.not_mem_erase
        rw [joined_node] at hqm
        exact hsub hw q (List.mem_of_mem_erase hq) hqm
    · rw [Bool.not_eq_true] at hm
      exact ends_round (N := 0) hcur (fun n _ => round_pass hm) (ih (hO.pass hm) (by simpa using hpl) hrm hrk)

/-- When no more record is marked in a window, the marked ones run out. -/
theorem ends_unmarked (hl : m₀.Lists l₀) {K : ℕ} (hK : ∀ k ≥ K, ∀ p, .mark p ∉ ws k) :
    ∀ {d : ℕ} {r : Reaping} {l : List Ptr}, r.Ok ws m₀ l₀ [] l → K ≤ r.window → doomed r.mem l < d → Ends ws r := by
  intro d
  induction d with
  | zero => intro r l _ _ hd; omega
  | succ d ih =>
    intro r l hO hk hd
    refine ends_traverse hl (fun r' l' hO' hw' hlt => ih hO' (by omega) ?_) hO rfl rfl rfl
    have hlt' := hlt (hK r.window hk)
    simp only [List.nil_append] at hlt'
    omega

/-- **The loop ends** if only finitely many windows see a record marked. -/
theorem ends_of_finite (hl : m₀.Lists l₀) {K : ℕ} (hK : ∀ k ≥ K, ∀ p, .mark p ∉ ws k) :
    ∀ {j : ℕ} {r : Reaping} {l : List Ptr}, r.Ok ws m₀ l₀ [] l → K ≤ r.window + j → Ends ws r := by
  intro j
  induction j with
  | zero => intro r l hO hk; exact ends_unmarked hl hK hO hk (Nat.lt_succ_self _)
  | succ j ih =>
    intro r l hO hk
    exact ends_traverse hl (fun r' l' hO' hw' _ => ih hO' (by omega)) hO rfl rfl rfl

/-- A part of a list is the filtered list. -/
theorem eq_filter_of_sublist {q : Ptr → Bool} (hs : l.Sublist l₀) (hnd : l₀.Nodup)
    (hq : ∀ p ∈ l₀, p ∈ l ↔ q p) : l = l₀.filter q := by
  have hsub : l.Sublist (l₀.filter q) := by
    rw [← List.filter_eq_self.2 fun p hp => (hq p (hs.subset hp)).1 hp]
    exact hs.filter q
  refine hsub.eq_of_length_le ((hnd.filter q).subperm fun p hp => ?_).length_le
  obtain ⟨hp, hqp⟩ := List.mem_filter.1 hp
  exact (hq p hp).2 hqp

/-- What is known at the return, in the terms of `Reaped`. -/
theorem reaped_of_track (hl : m₀.Lists l₀) (hT : Track m₀ l₀ h r.mem l r.removed)
    (hclean : ∀ p ∈ l, (r.mem.node p).shouldRemove = false) (hu : r.mem.connMutex = none) :
    Reaped m₀ l₀ h r := by
  have hlist : r.mem.listed = l := hT.lists.listed_eq
  refine ⟨hu, ?_, ?_, hT.marked, hT.once, ?_, ?_, ?_, ?_, ?_, ?_⟩ <;> rw [hlist]
  · exact hT.lists
  · exact hclean
  · exact fun x hx => ⟨(hT.released x hx).1, (hT.released x hx).2.1, hT.gone hx⟩
  · exact hT.order
  · exact fun p hp hp₀ => (hT.known p hp).kept hp₀ (hclean p hp)
  · exact fun p hp hge => (hT.known p hp).fresh hge (hclean p hp)
  · exact hT.whole
  · intro hh
    have hstill : r.mem.allocs = m₀.allocs := by rw [hT.count, hh]; rfl
    obtain ⟨new, old, rfl, hold, hnew, -⟩ := hT.order
    -- no interference has made a record
    have hnil : new = [] := by
      refine List.eq_nil_iff_forall_not_mem.2 fun p hp => ?_
      have hlt := hT.lists.born p (List.mem_append_left _ hp)
      rw [hstill] at hlt
      exact absurd hlt (not_lt.2 (hnew p hp))
    subst hnil
    rw [List.nil_append] at *
    refine eq_filter_of_sublist hold hl.nodup fun p hp => ⟨fun hm => ?_, fun hn => ?_⟩
    · rw [← (hT.known p hm).kept hp (hclean p hm), hclean p hm]; rfl
    · rcases hT.whole p (.inl hp) with hm | hm | ⟨hm, -⟩
      · exact hm
      · -- it was removed, and so was marked
        obtain ⟨x, hx, rfl⟩ := List.mem_map.1 hm
        rcases (hT.marked x hx).2 with ⟨-, hmark⟩ | hmark
        · rw [hmark] at hn; cases hn
        · rw [hh] at hmark; cases hmark
      · rw [hh] at hm; cases hm

/-- **`reap_connections` under interference**: called on any list of distinct records, with
any marks, it returns if only finitely many of its windows see a record marked; and whenever
it returns, whatever has happened in its windows, it has done what it is for. -/
theorem reap_correct (ws : ℕ → List Meddle) (hl : m.Lists l) :
    ((∃ K, ∀ k ≥ K, ∀ p, .mark p ∉ ws k) → ∃ N r, ∀ n ≥ N, reap ws n m = some r) ∧
      ∀ n r, reap ws n m = some r → Reaped m l (acts ws r.window) r := by
  constructor
  · rintro ⟨K, hK⟩
    exact ends_of_finite hl hK (ok_start hl) (Nat.le_add_left K _)
  · intro n r hr
    obtain ⟨l', hT, hclean, hu⟩ := loop_ok hl (ok_start hl) hr
    exact reaped_of_track hl hT hclean hu

/-- Two connections, the older one marked. -/
def twoConns : Mem :=
  ((Mem.init.meddle (.prepend 4 0 [] 0 true)).meddle (.prepend 5 1 [] 0 true)).meddle (.mark 0)

/-- While the older one is joined the listener adds a connection and the newer one ends. -/
def busyWindow : ℕ → List Meddle
  | 0 => [.prepend 6 2 [] 0 true, .mark 1]
  | _ => []

theorem twoConns_lists : twoConns.Lists [1, 0] :=
  ⟨⟨rfl, rfl, rfl⟩, by decide, by decide +kernel, by decide +kernel⟩

/-- Both are removed, the new one is left. -/
theorem reap_correct_two :
    (reap busyWindow 9 twoConns).map (fun r => (r.mem.listed, r.removed.map Removal.conn)) = some ([2], [0, 1]) ∧
      ∃ N r, (∀ n ≥ N, reap busyWindow n twoConns = some r) ∧
        Reaped twoConns [1, 0] (acts busyWindow r.window) r := by
  refine ⟨by decide +kernel, ?_⟩
  have hK : ∃ K, ∀ k ≥ K, ∀ p, .mark p ∉ busyWindow k := by
    refine ⟨1, fun k hk p => ?_⟩
    cases k with
    | zero => omega
    | succ k => exact List.not_mem_nil
  obtain ⟨N, r, hr⟩ := (reap_correct busyWindow twoConns_lists).1 hK
  exact ⟨N, r, hr, (reap_correct busyWindow twoConns_lists).2 N r (hr N le_rfl)⟩

/-! ## Without end -/

/-- A new connection in every window, which ends at once. -/
def rushHour (a : ℕ) (k : ℕ) : List Meddle := [.prepend (a + k + 4) (a + k) [] 0 true, .mark (a + k)]

theorem Meddled.of_prepend {fd : Fd} {c : Sock} {ip : Bytes} {port : ℕ} {started : Bool}
    (ha : Meddled m l (.prepend fd c ip port started) m' l') : m.allocs ∈ l' ∧ m'.allocs = m.allocs + 1 := by
  cases ha with
  | idle hi => exact hi.elim
  | prepend _ allocs => exact ⟨List.mem_cons_self, allocs⟩

theorem Meddled.of_mark {p : Ptr} (ha : Meddled m l (.mark p) m' l') (hp : p ∈ l) :
    p ∈ l' ∧ m'.allocs = m.allocs ∧ (m'.node p).shouldRemove := by
  cases ha with
  | idle hi => exact absurd hp hi
  | mark mem _ allocs _ node => exact ⟨mem, allocs, by rw [node, Function.update_self]⟩

/-- After such a window the new record is on the list, marked. -/
theorem rush_window (hl : m₀.Lists l₀) (hT : Track m₀ l₀ h m l rem) (p : Ptr) {a k : ℕ} (hk : m.allocs = a + k) :
    (m.joinWindow p (rushHour a k)).allocs = a + (k + 1) ∧
      ∃ l', Track m₀ l₀ (h ++ rushHour a k) (m.joinWindow p (rushHour a k)) l' rem ∧ a + k ∈ l' ∧
        ((m.joinWindow p (rushHour a k)).node (a + k)).shouldRemove := by
  have hs := same_opened m p
  have hT₁ := hT.same hs
  obtain ⟨l₂, ha⟩ := meddle_cases hT₁.lists (.prepend (a + k + 4) (a + k) [] 0 true)
  have hT₂ := hT₁.meddle hl ha
  obtain ⟨hnew, hk₂⟩ := ha.of_prepend
  rw [hs.allocs, hk] at hnew hk₂
  obtain ⟨l₃, hb⟩ := meddle_cases hT₂.lists (.mark (a + k))
  have hT₃ := hT₂.meddle hl hb
  obtain ⟨hmem, hk₃, hmark⟩ := hb.of_mark hnew
  have hc := same_closed (((m.perform .main [.unlock, .joinCall p]).meddle
    (.prepend (a + k + 4) (a + k) [] 0 true)).meddle (.mark (a + k))) p
  refine ⟨?_, l₃, ?_, hmem, ?_⟩
  · exact hc.allocs.trans (hk₃.trans hk₂)
  · have hT₄ := hT₃.same hc
    rwa [List.append_assoc] at hT₄
  · exact (congrArg (fun f => (f (a + k)).shouldRemove) hc.node).trans hmark

/-- **Interference without end**: if in every window a connection is accepted and closed by
its peer, a call that finds a marked record never returns. -/
theorem reap_forever (hl : m.Lists l) (hm : ∃ p ∈ l, (m.node p).shouldRemove) (n : ℕ) :
    reap (rushHour m.allocs) n m = none := by
  have key : ∀ {n : ℕ} {r : Reaping} {pre suf : List Ptr}, r.Ok (rushHour m.allocs) m l pre suf →
      r.mem.allocs = m.allocs + r.window → (∃ p ∈ suf, (r.mem.node p).shouldRemove) →
      reapLoop (rushHour m.allocs) n r = none := by
    intro n
    induction n with
    | zero => intros; rfl
    | succ n ih =>
      rintro r pre suf hO hk ⟨p, hp, hpm⟩
      cases suf with
      | nil => simp at hp
      | cons cur suf =>
        simp only [reapLoop, hO.ahead.1, Option.bind_eq_none_iff]
        intro r₁ hround
        by_cases hc : (r.mem.node cur).shouldRemove
        · obtain ⟨hk', l₁, hT, hmem, hmark⟩ := rush_window hl hO.track cur hk
          rw [← acts_succ] at hT
          have hcur : m.allocs + r.window ≠ cur := by
            rw [← hk]; exact (hO.track.lists.born cur (by simp)).ne'
          rw [round_join hc, Option.map_eq_some_iff] at hround
          obtain ⟨x, hx, rfl⟩ := hround
          rw [scanFor_some hT.lists.chain hx]
          -- the new record is marked, and not the one that is removed
          have hc₁ := joinWindow_stays hO.track.lists (p := cur) (by simp) hc (rushHour m.allocs r.window)
          refine ih (ok_joined hT hc₁) ?_ ⟨_, (List.mem_erase_of_ne hcur).2 hmem, ?_⟩
          · rw [joined_allocs, joined_window, hk']
          · rw [joined_node]; exact hmark
        · rw [Bool.not_eq_true] at hc
          rw [round_pass hc, Option.some.injEq] at hround
          subst hround
          refine ih (hO.pass hc) hk ⟨p, (List.mem_cons.1 hp).resolve_left ?_, hpm⟩
          rintro rfl
          rw [hc] at hpm; cases hpm
  exact key (ok_start hl) rfl hm

/-- **The call need not return**, though what happens in each of its windows is finite. -/
theorem reap_runs_on : ¬ ∀ (ws : ℕ → List Meddle) (m : Mem) (l : List Ptr), m.Lists l →
    ∃ n r, reap ws n m = some r := by
  intro h
  obtain ⟨n, r, hr⟩ := h (rushHour twoConns.allocs) twoConns [1, 0] twoConns_lists
  rw [reap_forever twoConns_lists ⟨0, by decide, by decide +kernel⟩ n] at hr
  cases hr

end Chat
