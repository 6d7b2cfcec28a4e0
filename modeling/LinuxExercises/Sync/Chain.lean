import Mathlib.Logic.Function.Basic
import Mathlib.Data.List.Nodup
import Mathlib.Data.List.Perm.Subperm

/-!
# Singly linked lists in a memory of links

A memory `next : P → Option P` and a head spell a list (`Chain`). `walk` follows the
links for a bounded number of steps, `unlink` takes a node out behind a given
predecessor (`none`: it is the head).

* `Chain.walk_eq`, `Chain.walk_bounded`: a walk of enough steps visits exactly the list.
* `Chain.push`, `Chain.unlink`: insertion at the head and removal, as list operations.
* `Chain.from_iff`, `Chain.not_from_next`: a traversal meets each node once.
* `findPrev_hangs`, `findLink_hangs`: the two searches for a predecessor.
-/

namespace Sync

variable {P : Type*}

/-- The links from the head `h` spell the list. -/
def Chain (next : P → Option P) : Option P → List P → Prop
  | h, [] => h = none
  | h, p :: l => h = some p ∧ Chain next (next p) l

/-- Follow the links for at most `n` steps. -/
def walk (next : P → Option P) : ℕ → Option P → List P
  | 0, _ => []
  | _ + 1, none => []
  | n + 1, some p => p :: walk next n (next p)

variable {next : P → Option P} {h : Option P} {l : List P}

theorem Chain.walk_eq : ∀ {l : List P} {h : Option P} {n : ℕ}, Chain next h l → l.length ≤ n →
    walk next n h = l := by
  intro l
  induction l with
  | nil => intro h n hc _; cases n <;> simp only [Chain] at hc <;> subst hc <;> rfl
  | cons p l ih =>
    intro h n hc hn
    obtain ⟨rfl, hc⟩ := hc
    cases n with
    | zero => simp at hn
    | succ n => simp only [walk]; rw [ih hc (by simpa using hn)]

/-- Nodes that are numbers below `n` are visited by a walk of `n` steps. -/
theorem Chain.walk_bounded {next : ℕ → Option ℕ} {h : Option ℕ} {l : List ℕ} {n : ℕ} (hc : Chain next h l)
    (hl : l.Nodup) (hb : ∀ p ∈ l, p < n) : walk next n h = l := by
  have hsub : l ⊆ List.range n := fun p hp => List.mem_range.2 (hb p hp)
  exact hc.walk_eq (by simpa using (hl.subperm hsub).length_le)

/-- Only the links of the listed nodes matter. -/
theorem Chain.congr {next' : P → Option P} : ∀ {l : List P} {h : Option P}, Chain next h l →
    (∀ p ∈ l, next' p = next p) → Chain next' h l := by
  intro l
  induction l with
  | nil => intro h hc _; exact hc
  | cons p l ih =>
    intro h hc he
    refine ⟨hc.1, ?_⟩
    rw [he p List.mem_cons_self]
    exact ih hc.2 fun q hq => he q (List.mem_cons_of_mem _ hq)

/-- The part of a chain behind some of its nodes. -/
theorem Chain.drop : ∀ {a b : List P} {h : Option P}, Chain next h (a ++ b) → ∃ c, Chain next c b := by
  intro a
  induction a with
  | nil => intro b h hc; exact ⟨h, hc⟩
  | cons p a ih => intro b h hc; exact ih hc.2

/-- The node a listed node points to is listed. -/
theorem Chain.next_mem (hc : Chain next h l) {p q : P} (hp : p ∈ l) (hq : next p = some q) : q ∈ l := by
  obtain ⟨a, b, rfl⟩ := List.append_of_mem hp
  obtain ⟨c, -, hb⟩ := Chain.drop hc
  cases b with
  | nil => rw [hq] at hb; simp [Chain] at hb
  | cons r b => rw [hq] at hb; obtain ⟨hqr, -⟩ := hb; simp at hqr; simp [hqr]

theorem Chain.head_mem (hc : Chain next h l) {p : P} (hp : h = some p) : p ∈ l := by
  cases l with
  | nil => rw [hp] at hc; simp [Chain] at hc
  | cons q l => obtain ⟨hq, -⟩ := hc; rw [hp] at hq; simp at hq; simp [hq]

/-- **Insertion at the head.** -/
theorem Chain.push {p : P} (hc : Chain next h l) (hn : next p = h) :
    Chain next (some p) (p :: l) := ⟨rfl, hn ▸ hc⟩

/-! ## What lies ahead of a pointer -/

/-- `x` is met by following the links from the pointer. -/
inductive From (next : P → Option P) : Option P → P → Prop where
  | here (p : P) : From next (some p) p
  | there {p x : P} : From next (next p) x → From next (some p) x

theorem from_none {x : P} : ¬ From next none x := by rintro ⟨⟩

theorem from_some {p x : P} : From next (some p) x ↔ x = p ∨ From next (next p) x := by
  constructor
  · rintro (- | h)
    · exact .inl rfl
    · exact .inr h
  · rintro (rfl | h)
    · exact .here _
    · exact .there h

/-- The nodes ahead of the head are the listed ones. -/
theorem Chain.from_iff : ∀ {l : List P} {h : Option P}, Chain next h l → ∀ {x : P}, From next h x ↔ x ∈ l := by
  intro l
  induction l with
  | nil => rintro h rfl x; simp [from_none]
  | cons p l ih =>
    rintro h ⟨rfl, hc⟩ x
    rw [from_some, ih hc, List.mem_cons]

/-- **No cycle**: a listed node is not ahead of itself. -/
theorem Chain.not_from_next (hc : Chain next h l) (hl : l.Nodup) {p : P} (hp : p ∈ l) :
    ¬ From next (next p) p := by
  obtain ⟨a, b, rfl⟩ := List.append_of_mem hp
  obtain ⟨c, -, hb⟩ := Chain.drop hc
  rw [hb.from_iff]
  exact (List.nodup_cons.1 (List.nodup_append.1 hl).2.1).1

variable [DecidableEq P]

/-- Writing the link of a node that is not listed changes nothing. -/
theorem Chain.write {p : P} {x : Option P} (hc : Chain next h l) (hp : p ∉ l) :
    Chain (Function.update next p x) h l :=
  hc.congr fun q hq => Function.update_of_ne (fun e : q = p => hp (e ▸ hq)) _ _

/-- `prev` is where `p` hangs: the head (`none`) or the node in front of it. -/
def Hangs (next : P → Option P) (h : Option P) (l : List P) (p : P) : Option P → Prop
  | none => h = some p
  | some q => q ∈ l ∧ next q = some p

omit [DecidableEq P] in
theorem Hangs.mem {p : P} {prev : Option P} (hc : Chain next h l) (hp : Hangs next h l p prev) : p ∈ l := by
  cases prev with
  | none => exact hc.head_mem hp
  | some q => exact hc.next_mem hp.1 hp.2

/-- Take `p` out behind `prev`: the new head and the new links. -/
def unlink (next : P → Option P) (h : Option P) (p : P) : Option P → Option P × (P → Option P)
  | none => (next p, next)
  | some q => (h, Function.update next q (next p))

/-- **Removal behind the predecessor.** -/
theorem Chain.unlink {p : P} {prev : Option P} (hc : Chain next h l) (hl : l.Nodup)
    (hp : Hangs next h l p prev) :
    Chain (Sync.unlink next h p prev).2 (Sync.unlink next h p prev).1 (l.erase p) := by
  cases prev with
  | none =>
    simp only [Hangs] at hp
    cases l with
    | nil => simp only [Chain] at hc; rw [hc] at hp; simp at hp
    | cons q l =>
      obtain ⟨hq, hc⟩ := hc
      rw [hp] at hq; simp only [Option.some.injEq] at hq; subst hq
      simpa [Sync.unlink] using hc
  | some q =>
    simp only [Hangs, Sync.unlink] at hp ⊢
    induction l generalizing h with
    | nil => simp at hp
    | cons r l ih =>
      obtain ⟨rfl, hc⟩ := hc
      obtain ⟨hr, hl⟩ := List.nodup_cons.1 hl
      obtain ⟨hq, hqp⟩ := hp
      by_cases hqr : q = r
      · subst hqr
        -- `p` is the next node
        cases l with
        | nil => simp only [Chain] at hc; rw [hc] at hqp; simp at hqp
        | cons p' l =>
          obtain ⟨hp', hc⟩ := hc
          rw [hqp] at hp'; simp only [Option.some.injEq] at hp'; subst hp'
          have hqp' : q ≠ p := fun e => hr (e ▸ List.mem_cons_self)
          have hne : (q == p) = false := by simpa using hqp'
          rw [List.erase_cons, if_neg (by simpa using hqp'), List.erase_cons_head]
          refine ⟨rfl, ?_⟩
          rw [Function.update_self]
          exact hc.write fun hm => hr (List.mem_cons_of_mem _ hm)
      · have hq' : q ∈ l := (List.mem_cons.1 hq).resolve_left hqr
        have hpl : p ∈ l := Chain.next_mem hc hq' hqp
        have hrp : r ≠ p := fun e => hr (e ▸ hpl)
        rw [List.erase_cons, if_neg (by simpa using hrp)]
        refine ⟨rfl, ?_⟩
        rw [Function.update_of_ne (Ne.symm hqr)]
        exact ih hc hl ⟨hq', hqp⟩

/-- Search `p` in a list with a trailing pointer: the trailing pointer at the hit. -/
def findPrev (p : P) : Option P → List P → Option (Option P)
  | _, [] => none
  | prev, q :: l => if q = p then some prev else findPrev p (some q) l

theorem findPrev_none {p : P} : ∀ {l : List P} {prev : Option P}, findPrev p prev l = none ↔ p ∉ l := by
  intro l
  induction l with
  | nil => intro prev; simp [findPrev]
  | cons q l ih =>
    intro prev
    by_cases hq : q = p
    · simp [findPrev, hq]
    · simp [findPrev, hq, ih, Ne.symm hq]

theorem findPrev_some {p : P} : ∀ {l : List P} {h prev r : Option P}, Chain next h l →
    findPrev p prev l = some r → (r = prev ∧ h = some p) ∨ ∃ q ∈ l, r = some q ∧ next q = some p := by
  intro l
  induction l with
  | nil => intro h prev r _ hf; simp [findPrev] at hf
  | cons q l ih =>
    intro h prev r hc hf
    obtain ⟨rfl, hc⟩ := hc
    simp only [findPrev] at hf
    split at hf
    · rename_i hq; subst hq; simp at hf; exact Or.inl ⟨hf.symm, rfl⟩
    · rcases ih hc hf with ⟨rfl, hn⟩ | ⟨q', hq', hr⟩
      · exact Or.inr ⟨q, List.mem_cons_self, rfl, hn⟩
      · exact Or.inr ⟨q', List.mem_cons_of_mem _ hq', hr⟩

/-- **The search with a trailing pointer** finds where a listed node hangs. -/
theorem findPrev_hangs {p : P} {r : Option P} (hc : Chain next h l) (hf : findPrev p none l = some r) :
    Hangs next h l p r := by
  rcases findPrev_some hc hf with ⟨rfl, hh⟩ | ⟨q, hq, rfl, hn⟩
  · exact hh
  · exact ⟨hq, hn⟩

/-- Search for the node in front of `p`, or see that `p` is the head. -/
def findLink (next : P → Option P) (h : Option P) (p : P) (l : List P) : Option (Option P) :=
  if h = some p then some none else (l.find? fun q => next q = some p).map some

/-- **The search for the link to `p`** finds where it hangs. -/
theorem findLink_hangs {p : P} {r : Option P} (hf : findLink next h p l = some r) :
    Hangs next h l p r := by
  unfold findLink at hf
  split at hf
  · simp only [Option.some.injEq] at hf; subst hf; assumption
  · obtain ⟨q, hq, rfl⟩ := Option.map_eq_some_iff.1 hf
    exact ⟨List.mem_of_find?_eq_some hq, by simpa using List.find?_some hq⟩

/-- A listed node hangs somewhere. -/
theorem findLink_none {p : P} (hc : Chain next h l) : findLink next h p l = none → p ∉ l := by
  intro hf hp
  unfold findLink at hf
  split at hf
  · simp at hf
  · rename_i hh
    simp only [Option.map_eq_none_iff, List.find?_eq_none, decide_eq_true_eq] at hf
    obtain ⟨r, hr⟩ := Option.ne_none_iff_exists'.1 (mt findPrev_none.1 (not_not.2 hp) : findPrev p none l ≠ none)
    rcases findPrev_some hc hr with ⟨-, hh'⟩ | ⟨q, hq, -, hn⟩
    · exact hh hh'
    · exact hf q hq hn

end Sync
