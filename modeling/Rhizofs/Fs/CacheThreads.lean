import Rhizofs.Foundations.Interleaving
import Rhizofs.Fs.AttrCache

/-!
# Threads at the attribute cache

`attrcache.c` as several threads run it at once. Only the changes of the table are made under the
mutex: the fullness test of `AttrCache_set`, the number that `AttrCache_shrink` computes and the
lookup of `AttrCache_remove` come before it is taken. Here each of these tests and each section
under the mutex is one call (`CacheCall`), and the other threads run between the calls. A thread
that has the cache for itself computes the functions of the previous modules (`runs_set`,
`runs_remove`, `runs_copyStat`).

What a call can do to the table is `act_cases`: it takes nodes out (`AttrCache.Shrunk`) or is the
insertion of `AttrCache_set` (`AttrCache.setSection_spec`).
-/

namespace Rhizofs.CacheThreads

open Extern Kazlib

/-! ## Calls -/

/-- A pointer to a node. The allocator may use an address again, so it comes with the number of the
allocation. -/
structure NodeRef where
  node : Hnode CString CacheEntry
  birth : ℕ

/-- The tests outside the mutex and the sections under it. -/
inductive CacheCall
  | maxcount
  | isFull
  | shrinkNum
  | time
  | shrinkSection (currentTime : ℤ) (shrinkNum : ℕ)
  | setSection (path : CString) (cacheEntry : CacheEntry)
  | lookup (path : CString)
  | deleteSection (hashNode : NodeRef)
  | copyStatSection (path : CString)

/-- The answers. -/
abbrev CacheRet : CacheCall → Type
  | .maxcount => ℕ
  | .isFull => Bool
  | .shrinkNum => ℕ
  | .time => ℤ
  | .shrinkSection .. => Unit
  | .setSection .. => Bool
  | .lookup _ => Option NodeRef
  | .deleteSection _ => Unit
  | .copyStatSection _ => Option Stat

/-- Make one call. -/
abbrev request (c : CacheCall) : Prog CacheRet (CacheRet c) := Prog.perform c

/-- `AttrCache_shrink`. -/
def shrink : Prog CacheRet Bool := do
  let shrinkNum ← request .shrinkNum
  if shrinkNum = 0 then return true
  let currentTime ← request .time
  if currentTime = -1 then return false
  request (.shrinkSection currentTime shrinkNum)
  return true

/-- `AttrCache_set`. -/
def set (path : CString) (cacheEntry : CacheEntry) : Prog CacheRet Bool := do
  if (← request .maxcount) = 0 then return true
  if ← request .isFull then let _ ← shrink
  request (.setSection path cacheEntry)

/-- `AttrCache_remove`. -/
def remove (path : CString) : Prog CacheRet Unit := do
  match ← request (.lookup path) with
  | none => return ()
  | some hashNode => request (.deleteSection hashNode)

/-- `AttrCache_copy_stat`. -/
def copyStat (path : CString) : Prog CacheRet (Option Stat) := request (.copyStatSection path)

theorem shrink_eq : shrink = .call .shrinkNum fun shrinkNum =>
    if shrinkNum = 0 then .ret true
    else .call .time fun currentTime =>
      if currentTime = -1 then .ret false
      else .call (.shrinkSection currentTime shrinkNum) fun _ => .ret true := rfl

theorem set_eq (path : CString) (cacheEntry : CacheEntry) :
    set path cacheEntry = .call .maxcount fun maxcount =>
      if maxcount = 0 then .ret true
      else .call .isFull fun full =>
        if full then shrink >>= fun _ => request (.setSection path cacheEntry)
        else request (.setSection path cacheEntry) := rfl

/-- The calls of `AttrCache_shrink`. -/
def OfShrink : CacheCall → Prop
  | .shrinkNum | .time | .shrinkSection .. => True
  | _ => False

theorem calls_shrink : shrink.Calls OfShrink := by
  rw [shrink_eq]
  refine ⟨trivial, fun shrinkNum => ?_⟩
  dsimp only
  split_ifs
  · trivial
  refine ⟨trivial, fun currentTime => ?_⟩
  dsimp only
  split_ifs
  · trivial
  · exact ⟨trivial, fun _ => trivial⟩

/-- The program of an operation. -/
def body : AttrCache.Op → Prog CacheRet AttrCache.Reply
  | .set path cacheEntry => do return .done (← set path cacheEntry)
  | .copyStat path => do return .stat (← copyStat path)
  | .remove path => do
    remove path
    return .done true
  | .shrink => do return .done (← shrink)

/-! ## The shared cache -/

/-- The cache and the clock, with the number of the allocation of the node last stored for a path
and of the next one. -/
structure CacheWorld where
  cache : AttrCache
  now : ℤ
  birth : CString → ℕ
  births : ℕ

namespace CacheWorld

/-- A new cache. -/
def init (maxSize maxAgeSec : ℕ) (now : ℤ) : CacheWorld :=
  { cache := .init maxSize maxAgeSec
    now := now
    birth := fun _ => 0
    births := 1 }

/-- The pointer to a node of the table. -/
def ref (w : CacheWorld) (node : Hnode CString CacheEntry) : NodeRef := ⟨node, w.birth node.key⟩

/-- The node is in the table, and is the one that was allocated last for its path. -/
def Holds (w : CacheWorld) (hashNode : NodeRef) : Prop :=
  hashNode.node ∈ w.cache.hashtable.nodes ∧ w.birth hashNode.node.key = hashNode.birth

/-- The world with another table. -/
def withTable (w : CacheWorld) (hashtable : Hash CString CacheEntry) : CacheWorld :=
  { w with cache := { w.cache with hashtable := hashtable } }

@[simp] theorem withTable_hashtable (w : CacheWorld) (hashtable : Hash CString CacheEntry) :
    (w.withTable hashtable).cache.hashtable = hashtable := rfl

/-- The effect of a call and what it returns. An allocation may fail. Deleting a node that is not in
the table is undefined, and no step. -/
def act : (c : CacheCall) → CacheWorld → CacheRet c → CacheWorld → Prop
  | .maxcount, w, maxcount, w' => maxcount = w.cache.hashtable.maxcount ∧ w' = w
  | .isFull, w, full, w' => full = w.cache.hashtable.isFull ∧ w' = w
  | .shrinkNum, w, shrinkNum, w' =>
    shrinkNum = min w.cache.batchSize w.cache.hashtable.count ∧ w' = w
  | .time, w, currentTime, w' => currentTime = w.now ∧ w' = w
  | .shrinkSection currentTime shrinkNum, w, _, w' =>
    w' = w.withTable (w.cache.shrinkSection currentTime shrinkNum).hashtable
  | .setSection path cacheEntry, w, ok, w' => ∃ cache : AttrCache,
    (w.cache.setSection path cacheEntry).Runs (fun _ _ _ _ => True) () (ok, cache) () ∧
      w' =
        { w with
          cache := cache
          birth := if ok then Function.update w.birth path w.births else w.birth
          births := w.births + 1 }
  | .lookup path, w, found, w' =>
    found = (w.cache.hashtable.lookup hashfuncDjb2 path).map w.ref ∧ w' = w
  | .deleteSection hashNode, w, _, w' =>
    w.Holds hashNode ∧ w' = w.withTable (w.cache.hashtable.delete hashNode.node)
  | .copyStatSection path, w, found, w' => found = (w.cache.copyStat w.now path).1 ∧
    w' = w.withTable (w.cache.copyStat w.now path).2.hashtable

end CacheWorld

variable {Tid : Type}

/-- Any number of threads at one cache. The clock shows any time at any moment. -/
def system (Tid : Type) :
    Concurrent Tid AttrCache.Op CacheRet AttrCache.Reply CacheWorld where
  body := body
  start _ _ w := w
  act _ := CacheWorld.act
  finish _ _ _ w := w
  env w w' := ∃ now, w' = { w with now := now }

theorem system_start (t : Tid) (op : AttrCache.Op) (w : CacheWorld) :
    (system Tid).start t op w = w :=
  rfl

theorem system_finish (t : Tid) (op : AttrCache.Op) (reply : AttrCache.Reply) (w : CacheWorld) :
    (system Tid).finish t op reply w = w :=
  rfl

/-- The configurations of the threads. -/
abbrev Threads (Tid : Type) : Type :=
  Concurrent.Config Tid AttrCache.Op CacheRet AttrCache.Reply CacheWorld

/-! ## A thread alone -/

section Alone

variable {w w' : CacheWorld} {path : CString}

/-- Alone, `AttrCache_shrink` computes the function. -/
theorem runs_shrink {ok : Bool} (h : shrink.Runs CacheWorld.act w ok w') :
    w.cache.shrink w.now = (ok, w'.cache) ∧ w'.now = w.now := by
  rw [shrink_eq] at h
  obtain ⟨shrinkNum, w₁, ⟨rfl, hw₁⟩, h⟩ := h
  subst w₁
  dsimp only at h
  rw [AttrCache.shrink_eq]
  by_cases hzero : min w.cache.batchSize w.cache.hashtable.count = 0
  · rw [if_pos hzero] at h ⊢
    obtain ⟨rfl, rfl⟩ := h
    exact ⟨rfl, rfl⟩
  rw [if_neg hzero] at h ⊢
  obtain ⟨currentTime, w₁, ⟨rfl, hw₁⟩, h⟩ := h
  subst w₁
  dsimp only at h
  by_cases htime : w.now = -1
  · rw [if_pos htime] at h ⊢
    obtain ⟨rfl, rfl⟩ := h
    exact ⟨rfl, rfl⟩
  · rw [if_neg htime] at h ⊢
    obtain ⟨_, _, rfl, rfl, rfl⟩ := h
    exact ⟨rfl, rfl⟩

/-- Alone, `AttrCache_set` computes the function. -/
theorem runs_set {cacheEntry : CacheEntry} {ok : Bool}
    (h : (set path cacheEntry).Runs CacheWorld.act w ok w') :
    (w.cache.set w.now path cacheEntry).Runs (fun _ _ _ _ => True) () (ok, w'.cache) () := by
  rw [set_eq] at h
  obtain ⟨maxcount, w₁, ⟨rfl, hw₁⟩, h⟩ := h
  subst w₁
  dsimp only at h
  rw [AttrCache.set_eq]
  by_cases hzero : w.cache.hashtable.maxcount = 0
  · rw [if_pos hzero] at h ⊢
    obtain ⟨rfl, rfl⟩ := h
    exact ⟨rfl, rfl⟩
  rw [if_neg hzero] at h ⊢
  obtain ⟨full, w₁, ⟨rfl, hw₁⟩, h⟩ := h
  subst w₁
  dsimp only at h
  by_cases hfull : w.cache.hashtable.isFull = true
  · rw [if_pos hfull] at h ⊢
    obtain ⟨_, w₂, hshrink, h⟩ := (Prog.runs_bind _ shrink _ _ _ _).mp h
    obtain ⟨ok', _, ⟨cache, hrun, rfl⟩, rfl, rfl⟩ := h
    rw [(runs_shrink hshrink).1]
    exact hrun
  · rw [if_neg hfull] at h ⊢
    obtain ⟨ok', _, ⟨cache, hrun, rfl⟩, rfl, rfl⟩ := h
    exact hrun

/-- Alone, `AttrCache_remove` computes the function. -/
theorem runs_remove {r : Unit} (h : (remove path).Runs CacheWorld.act w r w') :
    w'.cache = w.cache.remove path := by
  obtain ⟨found, w₁, ⟨hfound, hw₁⟩, h⟩ := h
  subst w₁
  unfold AttrCache.remove
  cases hl : w.cache.hashtable.lookup hashfuncDjb2 path with
  | none =>
    rw [hl] at hfound
    subst hfound
    obtain ⟨-, rfl⟩ := h
    rfl
  | some node =>
    rw [hl] at hfound
    subst hfound
    obtain ⟨_, _, ⟨-, rfl⟩, -, rfl⟩ := h
    rfl

/-- Alone, `AttrCache_copy_stat` computes the function. -/
theorem runs_copyStat {found : Option Stat} (h : (copyStat path).Runs CacheWorld.act w found w') :
    w.cache.copyStat w.now path = (found, w'.cache) := by
  obtain ⟨_, _, ⟨rfl, rfl⟩, rfl, rfl⟩ := h
  exact Prod.ext rfl (AttrCache.copyStat_fields w.cache w.now path).symm

end Alone

/-! ## What a call does to the table -/

/-- What a call can do: it takes nodes out of the table, or is the section of `AttrCache_set`. -/
theorem act_cases {w w' : CacheWorld} {c : CacheCall} {r : CacheRet c}
    (h : w.cache.hashtable.Wf hashfuncDjb2) (hact : w.act c r w') :
    (∃ hashtable removed, AttrCache.Shrunk w.cache.hashtable hashtable 0 removed ∧
      w' = w.withTable hashtable) ∨
    ∃ path cacheEntry ok cache, c = .setSection path cacheEntry ∧
      (w.cache.setSection path cacheEntry).Runs (fun _ _ _ _ => True) () (ok, cache) () ∧
      w' =
        { w with
          cache := cache
          birth := if ok then Function.update w.birth path w.births else w.birth
          births := w.births + 1 } := by
  have hsame : ∃ hashtable removed, AttrCache.Shrunk w.cache.hashtable hashtable 0 removed ∧
      w = w.withTable hashtable := ⟨_, _, .refl h 0, rfl⟩
  cases c with
  | setSection path cacheEntry =>
    obtain ⟨cache, hrun, rfl⟩ := hact
    exact .inr ⟨path, cacheEntry, r, cache, rfl, hrun, rfl⟩
  | shrinkSection currentTime shrinkNum =>
    obtain ⟨removed, hs, -⟩ := w.cache.shrinkSection_shrunk h currentTime shrinkNum
    exact .inl ⟨_, removed, hs, hact⟩
  | deleteSection hashNode => exact .inl ⟨_, _, AttrCache.shrunk_delete h hact.1.1, hact.2⟩
  | copyStatSection path =>
    obtain ⟨removed, hs⟩ := AttrCache.copyStat_shrunk h w.now path
    exact .inl ⟨_, removed, hs, hact.2⟩
  | maxcount => exact .inl (hact.2 ▸ hsame)
  | isFull => exact .inl (hact.2 ▸ hsame)
  | shrinkNum => exact .inl (hact.2 ▸ hsame)
  | time => exact .inl (hact.2 ▸ hsame)
  | lookup path => exact .inl (hact.2 ▸ hsame)

/-! ## Coming to an insertion -/

/-- An idle thread can come to its insertion while the table has room, if the tests are allowed. -/
theorem reachable_insertion [DecidableEq Tid] {ok : Threads Tid → Tid → CacheCall → Prop}
    {w₀ : CacheWorld} {config : Threads Tid}
    (h : Concurrent.ReachableIf (system Tid) ok w₀ config) (t : Tid) (path : CString)
    (cacheEntry : CacheEntry) (hidle : config.threads t = none)
    (hpos : config.world.cache.hashtable.maxcount ≠ 0)
    (hroom : config.world.cache.hashtable.isFull = false)
    (hok : ∀ config, ok config t .maxcount ∧ ok config t .isFull) :
    Concurrent.ReachableIf (system Tid) ok w₀ ⟨config.world,
      Function.update config.threads t (some (.set path cacheEntry,
        .call (.setSection path cacheEntry) fun ok => .ret (.done ok)))⟩ := by
  have h₁ : Concurrent.ReachableIf (system Tid) ok w₀ ⟨config.world,
      Function.update config.threads t (some (.set path cacheEntry,
        .call .maxcount fun maxcount =>
          (if maxcount = 0 then .ret true
          else .call .isFull fun full =>
            if full then shrink >>= fun _ => request (.setSection path cacheEntry)
            else request (.setSection path cacheEntry)) >>= fun ok => .ret (.done ok)))⟩ :=
    h.start t (.set path cacheEntry) hidle
  have h₂ := h₁.act t (Function.update_self ..) (hok _).1 ⟨rfl, rfl⟩
  dsimp only at h₂
  rw [if_neg hpos, Function.update_idem, Prog.call_bind] at h₂
  have h₃ := h₂.act t (Function.update_self ..) (hok _).2 ⟨rfl, rfl⟩
  dsimp only at h₃
  rw [hroom, Function.update_idem] at h₃
  exact h₃

/-- An entry for the tests below. -/
def anEntry : CacheEntry := ⟨Stat.zero, 10⟩

end Rhizofs.CacheThreads
