import Rhizofs.Foundations.Program
import Mathlib.Algebra.Order.Group.Multiset
import Mathlib.Data.Multiset.Range

/-!
# Who owns an allocated block

A program that allocates and frees is verified here with an identity for every block. The `Heap`
hands out the identities in order and remembers every block that was passed to `free`, and every
block whose ownership was handed to somebody else. `Accounts h owned` is the law of conservation:
every block handed out so far is in exactly one place, freed once, handed over once, or one of the
blocks `owned` that somebody still has to free. Allocating, freeing and handing over move a block
from one place to another (`accounts_alloc`, `accounts_free`, `accounts_give`); a second `free` of a
block breaks the law for good (`not_accounts_of_twice`), and so does a block nobody owns any more
(`Accounts.unique`).

`Own Ret` are the programs over the external calls `Ret` that work on a heap.
-/

namespace Extern

/-- The identities below `next` are handed out. `freed` and `given` list the blocks that were freed
and handed over, as often as they were. -/
structure Heap where
  next : ℕ
  freed : Multiset ℕ
  given : Multiset ℕ

namespace Heap

/-- A heap from which nothing has been allocated. -/
def empty : Heap := { next := 0, freed := 0, given := 0 }

/-- The heap after the block `h.next` has been allocated. -/
def alloc (h : Heap) : Heap := { h with next := h.next + 1 }

/-- The heap after `blocks` have been freed. -/
def free (h : Heap) (blocks : Multiset ℕ) : Heap := { h with freed := h.freed + blocks }

/-- The heap after `blocks` have been handed over. -/
def give (h : Heap) (blocks : Multiset ℕ) : Heap := { h with given := h.given + blocks }

/-- The block is allocated, and neither freed nor handed over. -/
def Live (h : Heap) (p : ℕ) : Prop := p < h.next ∧ p ∉ h.freed ∧ p ∉ h.given

/-- Every block is in exactly one place: freed, handed over, or owned. -/
def Accounts (h : Heap) (owned : Multiset ℕ) : Prop :=
  h.freed + h.given + owned = Multiset.range h.next

variable {h : Heap} {owned owned' blocks : Multiset ℕ} {p : ℕ}

theorem accounts_empty : Heap.empty.Accounts 0 := rfl

theorem accounts_alloc (hacc : h.Accounts owned) : h.alloc.Accounts (h.next ::ₘ owned) := by
  unfold Accounts alloc at *
  rw [Multiset.range_succ, ← hacc, Multiset.add_cons]

theorem accounts_free (hacc : h.Accounts (blocks + owned)) : (h.free blocks).Accounts owned := by
  unfold Accounts free at *
  rw [← hacc]
  dsimp only
  ac_rfl

theorem accounts_give (hacc : h.Accounts (blocks + owned)) : (h.give blocks).Accounts owned := by
  unfold Accounts give at *
  rw [← hacc]
  dsimp only
  ac_rfl

@[simp] theorem free_zero (h : Heap) : h.free 0 = h := by simp [free]

/-- Freeing something is seen. -/
theorem free_eq_self_iff : h.free blocks = h ↔ blocks = 0 := by
  constructor
  · intro heq
    have hfreed : h.freed + blocks = h.freed := congrArg Heap.freed heq
    exact left_eq_add.mp hfreed.symm
  · rintro rfl
    exact h.free_zero

theorem free_free (h : Heap) (blocks blocks' : Multiset ℕ) :
    (h.free blocks).free blocks' = h.free (blocks + blocks') := by
  simp [free, add_assoc]

/-- The heap determines who owns what. -/
theorem Accounts.unique (hacc : h.Accounts owned) (hacc' : h.Accounts owned') : owned = owned' :=
  add_left_cancel (hacc.trans hacc'.symm)

theorem Accounts.nodup (hacc : h.Accounts owned) : (h.freed + h.given + owned).Nodup := by
  rw [hacc]
  exact Multiset.nodup_range _

theorem Accounts.lt_next (hacc : h.Accounts owned) (hp : p ∈ h.freed + h.given + owned) :
    p < h.next := by
  rw [hacc] at hp
  exact Multiset.mem_range.mp hp

/-- What is owned is live. -/
theorem Accounts.live (hacc : h.Accounts owned) (hp : p ∈ owned) : h.Live p := by
  have hdisj := (Multiset.nodup_add.mp hacc.nodup).2.2
  refine ⟨hacc.lt_next (Multiset.mem_add.mpr (.inr hp)), ?_, ?_⟩
  · intro hfreed
    exact Multiset.disjoint_left.mp hdisj (Multiset.mem_add.mpr (.inl hfreed)) hp
  · intro hgiven
    exact Multiset.disjoint_left.mp hdisj (Multiset.mem_add.mpr (.inr hgiven)) hp

/-- A block that nobody owns has been freed exactly once, or handed over and never freed. -/
theorem Accounts.count_freed (hacc : h.Accounts owned) (hlt : p < h.next) (hp : p ∉ owned) :
    h.freed.count p = if p ∈ h.given then 0 else 1 := by
  have hcount : (h.freed + h.given + owned).count p = 1 := by
    rw [hacc]
    exact Multiset.count_eq_one_of_mem (Multiset.nodup_range _) (Multiset.mem_range.mpr hlt)
  rw [Multiset.count_add, Multiset.count_add, Multiset.count_eq_zero_of_notMem hp] at hcount
  split_ifs with hgiven
  · have := Multiset.count_pos.mpr hgiven
    omega
  · rw [Multiset.count_eq_zero_of_notMem hgiven] at hcount
    omega

/-- **Freeing a block that has gone** breaks the law, whoever owns what afterwards. -/
theorem not_accounts_of_twice (hgone : p ∈ h.freed + h.given) (hp : p ∈ blocks) :
    ¬ (h.free blocks).Accounts owned := by
  intro hacc
  have hle := Multiset.nodup_iff_count_le_one.mp hacc.nodup p
  have h₁ := Multiset.count_pos.mpr hgone
  have h₂ := Multiset.count_pos.mpr hp
  simp only [free, Multiset.count_add] at hle h₁
  omega

end Heap

/-! ## Programs on a heap -/

/-- A program over the external calls `Ret` that works on a heap. -/
def Own {Call : Type} (Ret : Call → Type) (α : Type) : Type := Heap → Prog Ret (α × Heap)

namespace Own

variable {Call : Type} {Ret : Call → Type} {α β : Type}

instance : Monad (Own Ret) where
  pure a := fun h => .ret (a, h)
  bind p f := fun h => p h >>= fun r => f r.1 r.2

/-- A program that leaves the heap alone. -/
def lift (p : Prog Ret α) : Own Ret α := fun h => p >>= fun a => .ret (a, h)

/-- Allocate a block; `ok` is the call that says whether there is memory. -/
def allocate (ok : Prog Ret Bool) : Own Ret (Option ℕ) := fun h =>
  ok >>= fun ok => .ret (if ok then (some h.next, h.alloc) else (none, h))

/-- Run a constructor that allocates one block for its result. -/
def create (p : Prog Ret (Option α)) : Own Ret (Option (α × ℕ)) := fun h =>
  p >>= fun r => .ret (match r with
    | some a => (some (a, h.next), h.alloc)
    | none => (none, h))

/-- Free blocks. -/
def free (blocks : Multiset ℕ) : Own Ret Unit := fun h => .ret ((), h.free blocks)

/-- Hand blocks over. -/
def give (blocks : Multiset ℕ) : Own Ret Unit := fun h => .ret ((), h.give blocks)

/-- The block of a pointer, none for `NULL`. -/
def block (p : Option ℕ) : Multiset ℕ := p.elim 0 ({·})

@[simp] theorem block_none : block none = 0 := rfl

@[simp] theorem block_some (p : ℕ) : block (some p) = {p} := rfl

variable {h h' : Heap} {tr : List (Event Ret)}

@[simp] theorem traces_pure {a b : α} :
    ((pure a : Own Ret α) h).Traces tr (b, h') ↔ tr = [] ∧ b = a ∧ h' = h := by
  change tr = [] ∧ (b, h') = (a, h) ↔ _
  rw [Prod.mk.injEq]

theorem traces_bind {p : Own Ret α} {f : α → Own Ret β} {b : β} :
    ((p >>= f) h).Traces tr (b, h') ↔
      ∃ a h₁ tr₁ tr₂, tr = tr₁ ++ tr₂ ∧ (p h).Traces tr₁ (a, h₁) ∧
        ((f a) h₁).Traces tr₂ (b, h') := by
  change (p h >>= fun r => f r.1 r.2).Traces tr (b, h') ↔ _
  rw [Prog.traces_bind]
  exact Prod.exists

theorem traces_lift {p : Prog Ret α} {a : α} :
    ((lift p) h).Traces tr (a, h') ↔ p.Traces tr a ∧ h' = h := by
  unfold lift
  rw [Prog.traces_bind]
  constructor
  · rintro ⟨a', tr₁, tr₂, rfl, hp, rfl, heq⟩
    obtain ⟨rfl, rfl⟩ := Prod.mk.inj heq
    exact ⟨by simpa using hp, rfl⟩
  · rintro ⟨hp, rfl⟩
    exact ⟨a, tr, [], by simp, hp, rfl, rfl⟩

@[simp] theorem free_bind (blocks : Multiset ℕ) (f : Unit → Own Ret β) (h : Heap) :
    (free blocks >>= f) h = f () (h.free blocks) := rfl

theorem lift_bind (p : Prog Ret α) (f : α → Own Ret β) (h : Heap) :
    (lift p >>= f) h = p >>= fun a => f a h := by
  change (p >>= fun a => .ret (a, h)) >>= (fun r => f r.1 r.2) = _
  rw [Prog.bind_assoc]
  rfl

theorem traces_lift_bind {p : Prog Ret α} {f : α → Own Ret β} {b : β} :
    ((lift p >>= f) h).Traces tr (b, h') ↔
      ∃ a tr₁ tr₂, tr = tr₁ ++ tr₂ ∧ p.Traces tr₁ a ∧ ((f a) h).Traces tr₂ (b, h') := by
  rw [lift_bind, Prog.traces_bind]

theorem allocate_bind (ok : Prog Ret Bool) (f : Option ℕ → Own Ret β) (h : Heap) :
    (allocate ok >>= f) h = ok >>= fun ok => if ok then f (some h.next) h.alloc else f none h := by
  change (allocate ok h) >>= (fun r => f r.1 r.2) = _
  rw [allocate, Prog.bind_assoc]
  congr 1
  funext ok
  cases ok <;> rfl

/-- An allocation succeeds and hands out the next block, or it fails and changes nothing. -/
theorem traces_allocate_bind {ok : Prog Ret Bool} {f : Option ℕ → Own Ret β} {b : β} :
    ((allocate ok >>= f) h).Traces tr (b, h') ↔
      ∃ tr₁ tr₂, tr = tr₁ ++ tr₂ ∧
        (ok.Traces tr₁ true ∧ ((f (some h.next)) h.alloc).Traces tr₂ (b, h') ∨
          ok.Traces tr₁ false ∧ ((f none) h).Traces tr₂ (b, h')) := by
  rw [allocate_bind, Prog.traces_bind]
  constructor
  · rintro ⟨_ | _, tr₁, tr₂, htr, hok, hf⟩
    · exact ⟨tr₁, tr₂, htr, .inr ⟨hok, hf⟩⟩
    · exact ⟨tr₁, tr₂, htr, .inl ⟨hok, hf⟩⟩
  · rintro ⟨tr₁, tr₂, htr, ⟨hok, hf⟩ | ⟨hok, hf⟩⟩
    · exact ⟨true, tr₁, tr₂, htr, hok, hf⟩
    · exact ⟨false, tr₁, tr₂, htr, hok, hf⟩

theorem create_bind (p : Prog Ret (Option α)) (f : Option (α × ℕ) → Own Ret β) (h : Heap) :
    (create p >>= f) h = p >>= fun r => match r with
      | some a => f (some (a, h.next)) h.alloc
      | none => f none h := by
  change (create p h) >>= (fun r => f r.1 r.2) = _
  rw [create, Prog.bind_assoc]
  congr 1
  funext r
  cases r <;> rfl

/-- A constructor has a result in the next block, or none and changes nothing. -/
theorem traces_create_bind {p : Prog Ret (Option α)} {f : Option (α × ℕ) → Own Ret β} {b : β} :
    ((create p >>= f) h).Traces tr (b, h') ↔
      ∃ tr₁ tr₂, tr = tr₁ ++ tr₂ ∧
        ((∃ a, p.Traces tr₁ (some a) ∧ ((f (some (a, h.next))) h.alloc).Traces tr₂ (b, h')) ∨
          p.Traces tr₁ none ∧ ((f none) h).Traces tr₂ (b, h')) := by
  rw [create_bind, Prog.traces_bind]
  constructor
  · rintro ⟨_ | a, tr₁, tr₂, htr, hp, hf⟩
    · exact ⟨tr₁, tr₂, htr, .inr ⟨hp, hf⟩⟩
    · exact ⟨tr₁, tr₂, htr, .inl ⟨a, hp, hf⟩⟩
  · rintro ⟨tr₁, tr₂, htr, ⟨a, hp, hf⟩ | ⟨hp, hf⟩⟩
    · exact ⟨some a, tr₁, tr₂, htr, hp, hf⟩
    · exact ⟨none, tr₁, tr₂, htr, hp, hf⟩

/-- The rule for sequencing. -/
theorem wp_seq {L : Type} {S : Spec Ret L} {Q : β × Heap → L → Prop} {R : α × Heap → L → Prop}
    {p : Own Ret α} {f : α → Own Ret β} {l : L} (hp : (p h).wp S R l)
    (hf : ∀ a h' l', R (a, h') l' → (f a h').wp S Q l') : ((p >>= f) h).wp S Q l :=
  Prog.wp_seq S hp fun r l' hr => hf r.1 r.2 l' hr

/-! ### Ownership triples -/

/-- A run of `p` from a heap where `pre` is owned ends in one where `post` of the result is owned,
and nothing else changes its owner. -/
def Triple (pre : Multiset ℕ) (p : Own Ret α) (post : α → Multiset ℕ) : Prop :=
  ∀ ⦃rest : Multiset ℕ⦄ ⦃h : Heap⦄ ⦃tr : List (Event Ret)⦄ ⦃a : α⦄ ⦃h' : Heap⦄,
    h.Accounts (pre + rest) → (p h).Traces tr (a, h') → h'.Accounts (post a + rest)

section Triple

variable {pre : Multiset ℕ} {post : β → Multiset ℕ}

theorem triple_pure {a : β} (hpre : pre = post a) : Triple pre (pure a : Own Ret β) post := by
  intro rest h tr b h' hacc hrun
  obtain ⟨-, rfl, rfl⟩ := traces_pure.mp hrun
  rwa [← hpre]

theorem triple_bind {p : Own Ret α} {f : α → Own Ret β} {mid : α → Multiset ℕ}
    (hp : Triple pre p mid) (hf : ∀ a, Triple (mid a) (f a) post) : Triple pre (p >>= f) post := by
  intro rest h tr b h' hacc hrun
  obtain ⟨a, h₁, tr₁, tr₂, rfl, hfirst, hrest⟩ := traces_bind.mp hrun
  exact hf a (hp hacc hfirst) hrest

theorem triple_lift_bind {p : Prog Ret α} {f : α → Own Ret β} (hf : ∀ a, Triple pre (f a) post) :
    Triple pre (lift p >>= f) post := by
  intro rest h tr b h' hacc hrun
  obtain ⟨a, h₁, tr₁, tr₂, rfl, hfirst, hrest⟩ := traces_bind.mp hrun
  obtain ⟨-, rfl⟩ := traces_lift.mp hfirst
  exact hf a hacc hrest

theorem triple_allocate_bind {ok : Prog Ret Bool} {f : Option ℕ → Own Ret β}
    (hnone : Triple pre (f none) post) (hsome : ∀ p, Triple ({p} + pre) (f (some p)) post) :
    Triple pre (allocate ok >>= f) post := by
  intro rest h tr b h' hacc hrun
  obtain ⟨tr₁, tr₂, rfl, ⟨-, hrest⟩ | ⟨-, hrest⟩⟩ := traces_allocate_bind.mp hrun
  · have hacc' := Heap.accounts_alloc hacc
    rw [← Multiset.singleton_add, ← add_assoc] at hacc'
    exact hsome _ hacc' hrest
  · exact hnone hacc hrest

theorem triple_free_bind {blocks : Multiset ℕ} (mid : Multiset ℕ) {f : Unit → Own Ret β}
    (hpre : pre = blocks + mid) (hf : Triple mid (f ()) post) :
    Triple pre (free blocks >>= f) post := by
  intro rest h tr b h' hacc hrun
  rw [hpre, add_assoc] at hacc
  exact hf (Heap.accounts_free hacc) hrun

/-- What else is owned stays owned. -/
theorem Triple.frame {p : Own Ret β} (hp : Triple pre p post) (other : Multiset ℕ) :
    Triple (pre + other) p (fun b => post b + other) := by
  intro rest h tr b h' hacc hrun
  rw [add_assoc] at hacc ⊢
  exact hp hacc hrun

/-- A first part that needs nothing. -/
theorem triple_frame_bind {p : Own Ret α} {f : α → Own Ret β} {mid : α → Multiset ℕ}
    (hp : Triple 0 p mid) (hf : ∀ a, Triple (mid a + pre) (f a) post) :
    Triple pre (p >>= f) post := by
  have hframe := hp.frame pre
  rw [zero_add] at hframe
  exact triple_bind hframe hf

end Triple

/-! ### Growing heaps -/

/-- A program that takes nothing back: what is allocated or freed before is so afterwards. -/
def Grows (p : Own Ret α) : Prop :=
  ∀ h, (p h).Returns fun r => h.next ≤ r.2.next ∧ h.freed ≤ r.2.freed

section Grows

theorem grows_pure (a : α) : Grows (pure a : Own Ret α) := fun _ => ⟨le_rfl, le_rfl⟩

theorem grows_bind {p : Own Ret α} {f : α → Own Ret β} (hp : Grows p) (hf : ∀ a, Grows (f a)) :
    Grows (p >>= f) := by
  intro h
  refine (hp h).bind fun r hr => ?_
  exact (hf r.1 r.2).mono fun r' hr' => ⟨hr.1.trans hr'.1, hr.2.trans hr'.2⟩

theorem grows_lift (p : Prog Ret α) : Grows (lift p : Own Ret α) :=
  fun _ => .then p fun _ => ⟨le_rfl, le_rfl⟩

theorem grows_allocate (ok : Prog Ret Bool) : Grows (allocate ok) := by
  intro h
  refine .then ok fun ok => ?_
  cases ok with
  | false => exact ⟨le_rfl, le_rfl⟩
  | true => exact ⟨Nat.le_succ _, le_rfl⟩

theorem grows_free (blocks : Multiset ℕ) : Grows (free blocks : Own Ret Unit) :=
  fun _ => ⟨le_rfl, Multiset.le_add_right _ _⟩

end Grows

/-! ### Forgetting the identities -/

/-- Without the identities `p` is the program `q`, its results being read by `f`. -/
def Erases (f : α → β) (p : Own Ret α) (q : Prog Ret β) : Prop :=
  ∀ h, (p h >>= fun r => .ret (f r.1)) = q

section Erases

variable {γ δ : Type} {f : α → β}

theorem erases_pure (f : α → β) (a : α) : Erases f (pure a : Own Ret α) (.ret (f a)) := fun _ => rfl

theorem erases_bind {g : γ → δ} {p : Own Ret γ} {q : Prog Ret δ} {k : γ → Own Ret α}
    {k' : δ → Prog Ret β} (hp : Erases g p q) (hk : ∀ a, Erases f (k a) (k' (g a))) :
    Erases f (p >>= k) (q >>= k') := by
  intro h
  rw [← hp h, Prog.bind_assoc]
  change (p h >>= fun r => k r.1 r.2) >>= _ = _
  rw [Prog.bind_assoc]
  congr 1
  funext r
  exact hk r.1 r.2

theorem erases_lift_bind {p : Prog Ret γ} {k : γ → Own Ret α} {k' : γ → Prog Ret β}
    (hk : ∀ a, Erases f (k a) (k' a)) : Erases f (lift p >>= k) (p >>= k') := by
  intro h
  rw [lift_bind, Prog.bind_assoc]
  congr 1
  funext a
  exact hk a h

theorem erases_allocate_bind {ok : Prog Ret Bool} {k : Option ℕ → Own Ret α}
    {k' : Bool → Prog Ret β} (hsome : ∀ p, Erases f (k (some p)) (k' true))
    (hnone : Erases f (k none) (k' false)) : Erases f (allocate ok >>= k) (ok >>= k') := by
  intro h
  rw [allocate_bind, Prog.bind_assoc]
  congr 1
  funext ok
  cases ok with
  | true => exact hsome _ _
  | false => exact hnone _

theorem erases_create_bind {p : Prog Ret (Option γ)} {k : Option (γ × ℕ) → Own Ret α}
    {k' : Option γ → Prog Ret β} (hsome : ∀ c n, Erases f (k (some (c, n))) (k' (some c)))
    (hnone : Erases f (k none) (k' none)) : Erases f (create p >>= k) (p >>= k') := by
  intro h
  rw [create_bind, Prog.bind_assoc]
  congr 1
  funext r
  cases r with
  | some c => exact hsome c _ _
  | none => exact hnone _

/-- Freeing leaves no trace. -/
theorem erases_free_bind {blocks : Multiset ℕ} {k : Unit → Own Ret α} {q : Prog Ret β}
    (hk : Erases f (k ()) q) : Erases f (free blocks >>= k) q := fun h => hk (h.free blocks)

/-- A run, without the identities. -/
theorem Erases.traces {p : Own Ret α} {q : Prog Ret β} {a : α} (he : Erases f p q)
    (hrun : (p h).Traces tr (a, h')) : q.Traces tr (f a) := by
  rw [← he h, Prog.traces_bind]
  exact ⟨(a, h'), tr, [], by simp, hrun, rfl, rfl⟩

end Erases

end Own

end Extern
