import Mathlib.Data.List.Nodup
import Mathlib.Data.Nat.Notation
import Mathlib.Logic.Function.Basic
import Mathlib.Tactic.Common

/-!
# Linked lists

Nodes with a pointer `next` to another node, or to none. A null pointer is `none`. A `Segment` is
the list of the nodes that one passes from a pointer to another one, and a `Chain` ends in a null
pointer. Two lists are separate when they have no node in common, so writing `next` of a node of one
does not change the other (`Segment.congr`).

The loops over a chain take a bound on the number of their rounds. A loop that exceeds it returns
`none`, like one that dereferences a null pointer. Each loop is shown to return for any bound from
the length of the chain on.
-/

namespace Extern

variable {P : Type}

/-- From the pointer `head` one comes to `tail` over the nodes `ps`. -/
def Segment (next : P → Option P) : Option P → List P → Option P → Prop
  | head, [], tail => head = tail
  | head, p :: ps, tail => head = some p ∧ Segment next (next p) ps tail

/-- The nodes of a list. -/
abbrev Chain (next : P → Option P) (head : Option P) (ps : List P) : Prop :=
  Segment next head ps none

section Segment

variable {next next' : P → Option P} {head tail : Option P} {p : P} {ps qs : List P}

@[simp] theorem chain_none : Chain next none ps ↔ ps = [] := by
  cases ps with
  | nil => simp [Segment]
  | cons p ps => simp [Segment]

@[simp] theorem chain_nil : Chain next head [] ↔ head = none := Iff.rfl

/-- A segment depends only on its own nodes. -/
theorem Segment.congr (h : Segment next head ps tail) (hnext : ∀ p ∈ ps, next' p = next p) :
    Segment next' head ps tail := by
  induction ps generalizing head with
  | nil => exact h
  | cons p ps ih =>
    obtain ⟨rfl, hrest⟩ := h
    refine ⟨rfl, ?_⟩
    rw [hnext p List.mem_cons_self]
    exact ih hrest fun q hq => hnext q (List.mem_cons_of_mem p hq)

theorem segment_append :
    Segment next head (ps ++ qs) tail ↔
      ∃ mid, Segment next head ps mid ∧ Segment next mid qs tail := by
  induction ps generalizing head with
  | nil => simp [Segment]
  | cons p ps ih => simp [Segment, ih, and_assoc]

/-- Where the last node points to. -/
theorem segment_concat :
    Segment next head (ps ++ [p]) tail ↔ Segment next head ps (some p) ∧ next p = tail := by
  rw [segment_append]
  constructor
  · rintro ⟨mid, hps, rfl, hp⟩
    exact ⟨hps, hp⟩
  · rintro ⟨hps, hp⟩
    exact ⟨some p, hps, rfl, hp⟩

theorem Segment.cons_of_some (h : Chain next (some p) ps) : ∃ qs, ps = p :: qs ∧
    Chain next (next p) qs := by
  cases ps with
  | nil => cases h
  | cons q qs =>
    obtain ⟨hq, hrest⟩ := h
    cases hq
    exact ⟨qs, rfl, hrest⟩

variable [DecidableEq P]

/-- Writing to a node that is not in the segment. -/
theorem Segment.update (h : Segment next head ps tail) (hp : p ∉ ps) (target : Option P) :
    Segment (Function.update next p target) head ps tail :=
  h.congr fun _ hq => Function.update_of_ne (ne_of_mem_of_not_mem hq hp) ..

/-- A node is put at the front. -/
theorem Segment.push (h : Chain next head ps) (hp : p ∉ ps) :
    Chain (Function.update next p head) (some p) (p :: ps) := by
  refine ⟨rfl, ?_⟩
  rw [Function.update_self]
  exact h.update hp head

end Segment

/-! ## Loops that only read -/

/-- The first node that passes the test:
`for (p = head; p; p = p->next) if (test(p)) return p; return NULL`. -/
def search (next : P → Option P) (test : P → Bool) : ℕ → Option P → Option (Option P)
  | _, none => some none
  | 0, some _ => none
  | bound + 1, some p => if test p then some (some p) else search next test bound (next p)

/-- The last node: `for (p = head; p && p->next; p = p->next);`. -/
def lastNode (next : P → Option P) : ℕ → Option P → Option (Option P)
  | _, none => some none
  | 0, some _ => none
  | bound + 1, some p =>
    match next p with
    | none => some (some p)
    | some q => lastNode next bound (some q)

/-- The node before `node`: `while (p->next != node) p = p->next`. -/
def nodeBefore [DecidableEq P] (next : P → Option P) (node : P) : ℕ → P → Option P
  | 0, _ => none
  | bound + 1, p =>
    if next p = some node then some p
    else
      match next p with
      | none => none
      | some q => nodeBefore next node bound q

section Reading

variable {next : P → Option P} {head : Option P} {ps : List P} {bound : ℕ}

theorem Segment.search (h : Chain next head ps) (hbound : ps.length ≤ bound) (test : P → Bool) :
    Extern.search next test bound head = some (ps.find? test) := by
  induction ps generalizing head bound with
  | nil =>
    obtain rfl : head = none := h
    cases bound <;> rfl
  | cons p ps ih =>
    obtain ⟨rfl, hrest⟩ := h
    cases bound with
    | zero => cases hbound
    | succ bound =>
      rw [Extern.search, List.find?_cons]
      cases test p with
      | true => rfl
      | false => exact ih hrest (Nat.le_of_succ_le_succ hbound)

theorem Segment.lastNode (h : Chain next head ps) (hbound : ps.length ≤ bound) :
    Extern.lastNode next bound head = some ps.getLast? := by
  induction ps generalizing head bound with
  | nil =>
    obtain rfl : head = none := h
    cases bound <;> rfl
  | cons p ps ih =>
    obtain ⟨rfl, hrest⟩ := h
    cases bound with
    | zero => cases hbound
    | succ bound =>
      cases ps with
      | nil =>
        have hnull : next p = none := hrest
        rw [Extern.lastNode, hnull]
        rfl
      | cons q ps =>
        have hq : next p = some q := hrest.1
        rw [Extern.lastNode, hq]
        rw [hq] at hrest
        exact ih hrest (Nat.le_of_succ_le_succ hbound)

theorem Segment.nodeBefore [DecidableEq P] {p node : P} (h : Chain next (some p) (p :: ps))
    (hnode : node ∈ ps) (hbound : ps.length ≤ bound) :
    ∃ before prev after, p :: ps = before ++ prev :: node :: after ∧
      Extern.nodeBefore next node bound p = some prev := by
  induction ps generalizing p bound with
  | nil => cases hnode
  | cons q ps ih =>
    obtain ⟨-, hq, hrest⟩ := h
    cases bound with
    | zero => cases hbound
    | succ bound =>
      rw [Extern.nodeBefore, hq]
      by_cases hqn : q = node
      · subst hqn
        exact ⟨[], p, ps, rfl, if_pos rfl⟩
      · have hnode' : node ∈ ps := (List.mem_cons.mp hnode).resolve_left (Ne.symm hqn)
        obtain ⟨before, prev, after, heq, hrun⟩ :=
          ih ⟨rfl, hrest⟩ hnode' (Nat.le_of_succ_le_succ hbound)
        refine ⟨p :: before, prev, after, ?_, ?_⟩
        · rw [heq, List.cons_append]
        · rw [if_neg fun he => hqn (Option.some.inj he)]
          exact hrun

end Reading

/-! ## Loops that write -/

section Writing

variable [DecidableEq P]

/-- Take `node` out of the list, and leave its own pointer: the new pointers, and the new head. -/
def unlink (next : P → Option P) (node : P) (bound : ℕ) (head : Option P) :
    Option ((P → Option P) × Option P) :=
  if head = some node then some (next, next node)
  else do
    let first ← head
    let prev ← nodeBefore next node bound first
    return (Function.update next prev (next node), head)

/-- Join two lists: the new pointers, and the head. -/
def splice (next : P → Option P) (bound : ℕ) (low high : Option P) :
    Option ((P → Option P) × Option P) := do
  match ← lastNode next bound low with
  | some tail => return (Function.update next tail high, low)
  | none => return (next, high)

/-- Distribute a list over two, each node to the front: the new pointers, and the two heads. -/
def distribute (toHigh : P → Bool) : ℕ → (P → Option P) → Option P → Option P → Option P →
    Option ((P → Option P) × Option P × Option P)
  | _, next, none, low, high => some (next, low, high)
  | 0, _, some _, _, _ => none
  | bound + 1, next, some p, low, high =>
    if toHigh p then
      distribute toHigh bound (Function.update next p high) (next p) low (some p)
    else distribute toHigh bound (Function.update next p low) (next p) (some p) high

variable {next : P → Option P} {head : Option P} {ps : List P} {node : P} {bound : ℕ}

theorem Segment.unlink (h : Chain next head ps) (hnodup : ps.Nodup) (hnode : node ∈ ps)
    (hbound : ps.length ≤ bound) :
    ∃ next' head', Extern.unlink next node bound head = some (next', head') ∧
      Chain next' head' (ps.erase node) ∧ ∀ p ∉ ps, next' p = next p := by
  cases ps with
  | nil => cases hnode
  | cons first ps =>
    obtain rfl : head = some first := h.1
    by_cases hfirst : first = node
    · subst hfirst
      refine ⟨next, next first, if_pos rfl, ?_, fun _ _ => rfl⟩
      rw [List.erase_cons_head]
      exact h.2
    · have hmem : node ∈ ps := (List.mem_cons.mp hnode).resolve_left (Ne.symm hfirst)
      obtain ⟨before, prev, after, heq, hprev⟩ :=
        Segment.nodeBefore h hmem (Nat.le_of_succ_le hbound)
      have hhead : ¬ some first = some node := fun he => hfirst (Option.some.inj he)
      have hsplit : first :: ps = (before ++ [prev]) ++ node :: after := by
        rw [heq, List.append_assoc, List.singleton_append]
      rw [hsplit] at h hnodup ⊢
      obtain ⟨hleft, -, hdisjoint⟩ := List.nodup_append.mp hnodup
      refine ⟨Function.update next prev (next node), some first, ?_, ?_, ?_⟩
      · rw [Extern.unlink, if_neg hhead]
        simp only [Option.bind_eq_bind, Option.bind_some, hprev]
        rfl
      · obtain ⟨mid, hbefore, rfl, hafter⟩ := segment_append.mp h
        obtain ⟨hbefore, -⟩ := segment_concat.mp hbefore
        have hnode_before : node ∉ before ++ [prev] := fun hp =>
          hdisjoint node hp node List.mem_cons_self rfl
        have hprev_after : prev ∉ after := fun hp =>
          hdisjoint prev (by simp) prev (List.mem_cons_of_mem _ hp) rfl
        have hprev_before : prev ∉ before := fun hp =>
          (List.nodup_append.mp hleft).2.2 prev hp prev (List.mem_singleton_self _) rfl
        rw [List.erase_append_right _ hnode_before, List.erase_cons_head]
        refine segment_append.mpr ⟨next node, segment_concat.mpr ⟨?_, ?_⟩, ?_⟩
        · exact hbefore.update hprev_before _
        · exact Function.update_self ..
        · exact hafter.update hprev_after _
      · intro p hp
        refine Function.update_of_ne ?_ ..
        rintro rfl
        exact hp (by simp)

theorem Segment.splice {low high : Option P} {qs : List P} (hlow : Chain next low ps)
    (hhigh : Chain next high qs) (hnodup : (ps ++ qs).Nodup) (hbound : ps.length ≤ bound) :
    ∃ next' head', Extern.splice next bound low high = some (next', head') ∧
      Chain next' head' (ps ++ qs) ∧ ∀ p ∉ ps, next' p = next p := by
  obtain ⟨hps, -, hdisjoint⟩ := List.nodup_append.mp hnodup
  have hlast := hlow.lastNode hbound
  rcases List.eq_nil_or_concat ps with rfl | ⟨before, tail, rfl⟩
  · obtain rfl : low = none := hlow
    refine ⟨next, high, ?_, hhigh, fun _ _ => rfl⟩
    simp only [Extern.splice, hlast, List.getLast?_nil, Option.bind_eq_bind, Option.bind_some]
    rfl
  · rw [List.concat_eq_append] at *
    refine ⟨Function.update next tail high, low, ?_, ?_, ?_⟩
    · simp only [Extern.splice, hlast, List.getLast?_concat, Option.bind_eq_bind,
        Option.bind_some]
      rfl
    · have htail_before : tail ∉ before := fun hp =>
        (List.nodup_append.mp hps).2.2 tail hp tail (List.mem_singleton_self _) rfl
      have htail_high : tail ∉ qs := fun hp => hdisjoint tail (by simp) tail hp rfl
      obtain ⟨hbefore, -⟩ := segment_concat.mp hlow
      refine segment_append.mpr ⟨high, segment_concat.mpr ⟨?_, Function.update_self ..⟩, ?_⟩
      · exact hbefore.update htail_before high
      · exact hhigh.update htail_high high
    · intro p hp
      refine Function.update_of_ne ?_ ..
      rintro rfl
      exact hp (by simp)

theorem Segment.distribute {low high : Option P} {lows highs : List P} (h : Chain next head ps)
    (hlow : Chain next low lows) (hhigh : Chain next high highs)
    (hnodup : (ps ++ (lows ++ highs)).Nodup) (hbound : ps.length ≤ bound) (toHigh : P → Bool) :
    ∃ next' low' high',
      Extern.distribute toHigh bound next head low high = some (next', low', high') ∧
      Chain next' low' ((ps.filter (!toHigh ·)).reverse ++ lows) ∧
      Chain next' high' ((ps.filter toHigh).reverse ++ highs) ∧
      ∀ p ∉ ps, next' p = next p := by
  induction ps generalizing next head low high lows highs bound with
  | nil =>
    obtain rfl : head = none := h
    refine ⟨next, low, high, ?_, hlow, hhigh, fun _ _ => rfl⟩
    cases bound <;> rfl
  | cons p ps ih =>
    obtain ⟨rfl, hrest⟩ := h
    cases bound with
    | zero => cases hbound
    | succ bound =>
      have hbound' : ps.length ≤ bound := Nat.le_of_succ_le_succ hbound
      rw [List.cons_append, List.nodup_cons, List.mem_append, List.mem_append] at hnodup
      obtain ⟨hp, hnodup⟩ := hnodup
      rw [not_or, not_or] at hp
      obtain ⟨hps, hlows, hhighs⟩ := hp
      have hframe : ∀ {next' : P → Option P} {target : Option P},
          (∀ q ∉ ps, next' q = Function.update next p target q) →
          ∀ q ∉ p :: ps, next' q = next q := by
        intro next' target hnext q hq
        rw [List.mem_cons, not_or] at hq
        rw [hnext q hq.2, Function.update_of_ne hq.1]
      rw [Extern.distribute]
      cases htest : toHigh p with
      | true =>
        have hperm : (ps ++ (lows ++ p :: highs)).Nodup := by
          rw [← List.append_assoc, List.nodup_middle, List.append_assoc, List.nodup_cons]
          simp [hps, hlows, hhighs, hnodup]
        obtain ⟨next', low', high', hrun, hl, hh, hnext⟩ := ih (hrest.update hps high)
          (hlow.update hlows high) (hhigh.push hhighs) hperm hbound'
        refine ⟨next', low', high', hrun, ?_, ?_, hframe hnext⟩
        · rwa [List.filter_cons_of_neg (by simp [htest])]
        · rw [List.filter_cons_of_pos htest, List.reverse_cons, List.append_assoc]
          exact hh
      | false =>
        have hperm : (ps ++ (p :: lows ++ highs)).Nodup := by
          rw [List.cons_append, List.nodup_middle, List.nodup_cons]
          simp [hps, hlows, hhighs, hnodup]
        obtain ⟨next', low', high', hrun, hl, hh, hnext⟩ := ih (hrest.update hps low)
          (hlow.push hlows) (hhigh.update hhighs low) hperm hbound'
        refine ⟨next', low', high', hrun, ?_, ?_, hframe hnext⟩
        · rw [List.filter_cons_of_pos (by simp [htest]), List.reverse_cons, List.append_assoc]
          exact hl
        · rwa [List.filter_cons_of_neg (by simp [htest])]

end Writing

/-! ## Tables of lists -/

section Tables

variable {next next' : P → Option P} {table : List (Option P)} {chains : List (List P)}

theorem forall₂_iff_getElem? {α β : Type} {R : α → β → Prop} {xs : List α} {ys : List β} :
    List.Forall₂ R xs ys ↔
      xs.length = ys.length ∧ ∀ (i : ℕ) x y, xs[i]? = some x → ys[i]? = some y → R x y := by
  constructor
  · intro h
    refine ⟨h.length_eq, ?_⟩
    induction h with
    | nil =>
      intro i x y hx
      cases hx
    | cons hxy _ ih =>
      intro i x y hx hy
      cases i with
      | zero =>
        cases hx
        cases hy
        exact hxy
      | succ i => exact ih i x y hx hy
  · rintro ⟨hlength, h⟩
    induction xs generalizing ys with
    | nil =>
      obtain rfl := List.length_eq_zero_iff.mp hlength.symm
      exact .nil
    | cons x xs ih =>
      cases ys with
      | nil => cases hlength
      | cons y ys =>
        exact .cons (h 0 x y rfl rfl)
          (ih (Nat.succ.inj hlength) fun i x' y' hx hy => h (i + 1) x' y' hx hy)

/-- The chains depend only on their own nodes. -/
theorem chains_congr (h : List.Forall₂ (Chain next) table chains)
    (hnext : ∀ p ∈ chains.flatten, next' p = next p) :
    List.Forall₂ (Chain next') table chains := by
  induction h with
  | nil => exact .nil
  | cons hps _ ih =>
    refine .cons (hps.congr fun p hp => hnext p ?_) (ih fun p hp => hnext p ?_)
    · exact List.mem_append_left _ hp
    · exact List.mem_append_right _ hp

end Tables

end Extern
