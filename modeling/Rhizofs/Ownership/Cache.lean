import Rhizofs.Foundations.Ownership
import Rhizofs.Fs.CacheEviction
import Mathlib.Algebra.BigOperators.Group.List.Basic

/-!
# What the attribute cache owns

`attrcache.c` with an identity for every node of the table and for the path and the `CacheEntry`
that the node points to. `hash_delete_free` frees all three, `hash_scan_delete` none of them. A run
is a sequence of calls on one cache; the callers of `AttrCache_set` create the path and the entry,
and free them when the cache did not take them over.

Everything that was taken over stays accounted for if and only if nothing is evicted and the cache
allows entries (`conserved_iff`). Without the identities the operations are those of `AttrCache`
(`copyStat_erase`, `remove_erase`, `set_erase`).
-/

namespace Rhizofs.Ownership

open Extern Kazlib

/-- The identities of a node of the table, of its path and of its `CacheEntry`. -/
structure Stored where
  node : ℕ
  path : ℕ
  cacheEntry : ℕ

/-- The three blocks. -/
def Stored.blocks (stored : Stored) : Multiset ℕ :=
  {stored.cacheEntry} + {stored.path} + {stored.node}

/-- An `AttrCache`, with what its table holds for a path. -/
structure OwnedCache where
  cache : AttrCache
  stored : CString → Stored

namespace OwnedCache

/-- The blocks that the table points to. -/
def blocks (c : OwnedCache) : Multiset ℕ :=
  (c.cache.paths.map fun path => (c.stored path).blocks).sum

/-- `CacheEntry_hash_destroy`. -/
def cacheEntryHashDestroy (stored : Stored) : Own MemRet Unit := do
  Own.free {stored.cacheEntry}
  Own.free {stored.path}
  Own.free {stored.node}

/-- `hash_delete_free`. -/
def hashDeleteFree (c : OwnedCache) (node : Hnode CString CacheEntry) :
    Own MemRet OwnedCache := do
  cacheEntryHashDestroy (c.stored node.key)
  return { c with cache := { c.cache with hashtable := c.cache.hashtable.delete node } }

/-- `AttrCache_get`. -/
def get (c : OwnedCache) (now : ℤ) (path : CString) : Own MemRet (Option CacheEntry × OwnedCache) :=
  match c.cache.hashtable.lookup hashfuncDjb2 path with
  | none => return (none, c)
  | some node =>
    if c.cache.entryIsDeprecated now node.data then do
      let c ← c.hashDeleteFree node
      return (none, c)
    else return (some node.data, c)

/-- `AttrCache_copy_stat`. -/
def copyStat (c : OwnedCache) (now : ℤ) (path : CString) : Own MemRet (Option Stat × OwnedCache) := do
  let (cacheEntry, c) ← c.get now path
  return (cacheEntry.map (·.statResult), c)

/-- `AttrCache_remove`. -/
def remove (c : OwnedCache) (path : CString) : Own MemRet OwnedCache :=
  match c.cache.hashtable.lookup hashfuncDjb2 path with
  | none => return c
  | some node => c.hashDeleteFree node

/-- `AttrCache_shrink`. Both scans use `hash_scan_delete`. -/
def shrink (c : OwnedCache) (now : ℤ) : Bool × OwnedCache :=
  ((c.cache.shrink now).1, { c with cache := (c.cache.shrink now).2 })

/-- `hash_alloc_insert` of the blocks `pathBlock` and `entryBlock`. -/
def hashAllocInsert (c : OwnedCache) (path : CString) (cacheEntry : CacheEntry)
    (pathBlock entryBlock : ℕ) : Own MemRet (Bool × OwnedCache) := do
  let some node ← Own.allocate (alloc .record) | return (false, c)
  let hashtable ← Own.lift (c.cache.hashtable.insert hashfuncDjb2 path cacheEntry)
  return (true, {
    cache := { c.cache with hashtable := hashtable }
    stored := Function.update c.stored path ⟨node, pathBlock, entryBlock⟩ })

/-- `AttrCache_set`, with the blocks of its two arguments. -/
def set (c : OwnedCache) (now : ℤ) (path : CString) (cacheEntry : CacheEntry)
    (pathBlock entryBlock : ℕ) : Own MemRet (Bool × OwnedCache) := do
  if c.cache.hashtable.maxcount = 0 then return (true, c)
  let c := if c.cache.hashtable.isFull then (c.shrink now).2 else c
  let c ← c.remove path
  c.hashAllocInsert path cacheEntry pathBlock entryBlock

/-- The loop of `hash_free_nodes` over the scanned nodes. -/
def hashFreeNodes (c : OwnedCache) : List (Hnode CString CacheEntry) → Own MemRet Unit
  | [] => return
  | node :: scan => do
    cacheEntryHashDestroy (c.stored node.key)
    c.hashFreeNodes scan

/-- `AttrCache_deinit`. -/
def deinit (c : OwnedCache) : Own MemRet Unit := c.hashFreeNodes c.cache.hashtable.nodes

end OwnedCache

/-! ## Runs -/

/-- The cache, if it is initialised, with the heap and the blocks whose ownership `AttrCache_set`
took. -/
structure CacheState where
  cache : Option OwnedCache
  heap : Heap
  taken : Multiset ℕ

namespace CacheState

/-- Before the first call. -/
def initial : CacheState := { cache := none, heap := .empty, taken := 0 }

/-- The blocks in the table. -/
def blocks (s : CacheState) : Multiset ℕ := s.cache.elim 0 OwnedCache.blocks

/-- `AttrCache_set` returned `ok` for the blocks `args`, which stay with its caller otherwise. -/
def afterSet (s : CacheState) (ok : Bool) (c : OwnedCache) (h : Heap) (args : Multiset ℕ) :
    CacheState :=
  if ok then { cache := some c, heap := h, taken := s.taken + args }
  else { cache := some c, heap := h.give args, taken := s.taken }

end CacheState

/-- The calls, with the readings of the clock. -/
inductive CacheCall
  | init (maxSize maxAgeSec : ℕ)
  | set (now : ℤ) (path : CString) (cacheEntry : CacheEntry)
  | copyStat (now : ℤ) (path : CString)
  | remove (path : CString)
  | shrink (now : ℤ)
  | deinit

/-- What a call does. Only `AttrCache_init` may be called when there is no cache. -/
inductive CacheStep : CacheState → CacheCall → CacheState → Prop
  | init {s : CacheState} {maxSize maxAgeSec : ℕ} (stored : CString → Stored) :
      CacheStep s (.init maxSize maxAgeSec)
        { s with cache := some ⟨.init maxSize maxAgeSec, stored⟩ }
  | initFails {s : CacheState} {maxSize maxAgeSec : ℕ} :
      CacheStep s (.init maxSize maxAgeSec) { s with cache := none }
  | set {s : CacheState} {c c' : OwnedCache} {now : ℤ} {path : CString} {cacheEntry : CacheEntry}
      {ok : Bool} {h' : Heap} {tr : List (Event MemRet)} (cache : s.cache = some c)
      (run : ((c.set now path cacheEntry s.heap.next s.heap.alloc.next) s.heap.alloc.alloc).Traces tr
        ((ok, c'), h')) :
      CacheStep s (.set now path cacheEntry)
        (s.afterSet ok c' h' {s.heap.next, s.heap.alloc.next})
  | copyStat {s : CacheState} {c c' : OwnedCache} {now : ℤ} {path : CString} {found : Option Stat}
      {h' : Heap} {tr : List (Event MemRet)} (cache : s.cache = some c)
      (run : ((c.copyStat now path) s.heap).Traces tr ((found, c'), h')) :
      CacheStep s (.copyStat now path) { s with cache := some c', heap := h' }
  | remove {s : CacheState} {c c' : OwnedCache} {path : CString} {h' : Heap}
      {tr : List (Event MemRet)} (cache : s.cache = some c)
      (run : ((c.remove path) s.heap).Traces tr (c', h')) :
      CacheStep s (.remove path) { s with cache := some c', heap := h' }
  | shrink {s : CacheState} {c : OwnedCache} {now : ℤ} (cache : s.cache = some c) :
      CacheStep s (.shrink now) { s with cache := some (c.shrink now).2 }
  | deinit {s : CacheState} {c : OwnedCache} {h' : Heap} {tr : List (Event MemRet)}
      (cache : s.cache = some c) (run : (c.deinit s.heap).Traces tr ((), h')) :
      CacheStep s .deinit { s with cache := none, heap := h' }

/-- A run, with the state and the call of every step. -/
inductive CacheRun : List (CacheState × CacheCall) → CacheState → Prop
  | start : CacheRun [] .initial
  | step {steps : List (CacheState × CacheCall)} {s s' : CacheState} {call : CacheCall}
      (run : CacheRun steps s) (step : CacheStep s call s') : CacheRun (steps ++ [(s, call)]) s'

/-- Shrinking takes nodes out of the table. -/
def OwnedCache.Evicts (c : OwnedCache) (now : ℤ) : Prop := c.cache.shrinkNum ≠ 0 ∧ now ≠ -1

/-- The call takes nothing out of the table without freeing it, and does not take over what it does
not store. -/
def CacheState.Keeps (s : CacheState) : CacheCall → Prop
  | .init _ _ => ∀ c, s.cache = some c → c.cache.paths = []
  | .set now _ _ => ∀ c, s.cache = some c → c.cache.hashtable.maxcount ≠ 0 ∧
      (c.cache.hashtable.isFull → ¬ c.Evicts now)
  | .shrink now => ∀ c, s.cache = some c → ¬ c.Evicts now
  | _ => True

/-- Every block that was taken over is in the table, or has been freed exactly once; without a cache
all have been freed. -/
structure CacheState.Conserved (s : CacheState) : Prop where
  placed : ∀ p ∈ s.taken, p ∈ s.blocks ∧ p ∉ s.heap.freed ∨
    p ∉ s.blocks ∧ s.heap.freed.count p = 1
  released : s.cache = none → ∀ p ∈ s.taken, s.heap.freed.count p = 1

/-! ## The operations without identities -/

namespace OwnedCache

theorem remove_erase (c : OwnedCache) (path : CString) :
    Own.Erases OwnedCache.cache (c.remove path) (.ret (c.cache.remove path)) := by
  intro h
  unfold remove AttrCache.remove
  cases c.cache.hashtable.lookup hashfuncDjb2 path <;> rfl

theorem copyStat_erase (c : OwnedCache) (now : ℤ) (path : CString) :
    Own.Erases (fun r => (r.1, r.2.cache)) (c.copyStat now path)
      (.ret (c.cache.copyStat now path)) := by
  intro h
  unfold copyStat get AttrCache.copyStat AttrCache.get
  cases c.cache.hashtable.lookup hashfuncDjb2 path with
  | none => rfl
  | some node =>
    dsimp only
    split_ifs <;> rfl

theorem hashAllocInsert_erase (c : OwnedCache) (path : CString) (cacheEntry : CacheEntry)
    (pathBlock entryBlock : ℕ) :
    Own.Erases (fun r => (r.1, r.2.cache)) (c.hashAllocInsert path cacheEntry pathBlock entryBlock)
      (do
        let (ok, hashtable) ← c.cache.hashtable.allocInsert hashfuncDjb2 path cacheEntry
        return (ok, { c.cache with hashtable := hashtable })) := by
  unfold hashAllocInsert Hash.allocInsert
  rw [Prog.bind_assoc]
  apply Own.erases_allocate_bind _ (Own.erases_pure _ _)
  intro node
  rw [if_neg (by decide), Prog.bind_assoc]
  apply Own.erases_lift_bind
  intro hashtable
  exact Own.erases_pure _ _

theorem setSection_erase (c : OwnedCache) (path : CString) (cacheEntry : CacheEntry)
    (pathBlock entryBlock : ℕ) :
    Own.Erases (fun r => (r.1, r.2.cache)) (do
      let c ← c.remove path
      c.hashAllocInsert path cacheEntry pathBlock entryBlock)
      (c.cache.setSection path cacheEntry) := by
  have hbind : c.cache.setSection path cacheEntry =
      (Prog.ret (c.cache.remove path) : Prog MemRet AttrCache) >>= fun cache => do
        let (ok, hashtable) ← cache.hashtable.allocInsert hashfuncDjb2 path cacheEntry
        return (ok, { cache with hashtable := hashtable }) := rfl
  rw [hbind]
  exact Own.erases_bind (remove_erase c path)
    fun c => hashAllocInsert_erase c path cacheEntry pathBlock entryBlock

/-- **Without the identities**, storing an entry is `AttrCache_set` of the cache. -/
theorem set_erase (c : OwnedCache) (now : ℤ) (path : CString) (cacheEntry : CacheEntry)
    (pathBlock entryBlock : ℕ) :
    Own.Erases (fun r => (r.1, r.2.cache)) (c.set now path cacheEntry pathBlock entryBlock)
      (c.cache.set now path cacheEntry) := by
  rw [AttrCache.set_eq]
  unfold set
  split_ifs
  · exact Own.erases_pure _ _
  · exact setSection_erase (c.shrink now).2 path cacheEntry pathBlock entryBlock
  · exact setSection_erase c path cacheEntry pathBlock entryBlock

end OwnedCache

/-! ## One operation -/

namespace OwnedCache

section Operation

variable {c c' : OwnedCache} {h h' : Heap} {tr : List (Event MemRet)} {now : ℤ} {path : CString}
  {rest : Multiset ℕ}

theorem blocks_perm {paths : List CString} (hperm : c.cache.paths.Perm paths) :
    c.blocks = (paths.map fun path => (c.stored path).blocks).sum := (hperm.map _).sum_eq

/-- Deleting a node takes its path out of the table. -/
theorem paths_delete (hwf : c.cache.hashtable.Wf hashfuncDjb2) {node : Hnode CString CacheEntry}
    (hmem : node ∈ c.cache.hashtable.nodes) :
    c.cache.paths.Perm (node.key ::
      ({ c.cache with hashtable := c.cache.hashtable.delete node } : AttrCache).paths) := by
  have hkey : node.key ∈ c.cache.paths := List.mem_map.mpr ⟨node, hmem, rfl⟩
  have hfilter : ((c.cache.hashtable.nodes.filter (·.key ≠ node.key)).map (·.key)) =
      c.cache.paths.erase node.key := by
    have hnodup : c.cache.paths.Nodup := hwf.nodup
    rw [hnodup.erase_eq_filter, AttrCache.paths, List.filter_map]
    congr 2
    funext node'
    simp [bne, Bool.beq_eq_decide_eq]
  have hdelete := (Hash.nodes_delete hwf hmem).map (·.key)
  rw [hfilter] at hdelete
  exact (List.perm_cons_erase hkey).trans (hdelete.symm.cons _)

theorem blocks_delete (hwf : c.cache.hashtable.Wf hashfuncDjb2) {node : Hnode CString CacheEntry}
    (hmem : node ∈ c.cache.hashtable.nodes) :
    c.blocks = (c.stored node.key).blocks + ({ c with cache := { c.cache with
      hashtable := c.cache.hashtable.delete node } } : OwnedCache).blocks := by
  rw [blocks_perm (paths_delete hwf hmem), List.map_cons, List.sum_cons]
  rfl

/-- The paths of the table are among the blocks `taken`. -/
def PathsIn (c : OwnedCache) (taken : Multiset ℕ) : Prop :=
  ∀ path ∈ c.cache.paths, (c.stored path).path ∈ taken

/-- An operation that deletes nodes and frees what they pointed to. -/
structure Deletes (rest : Multiset ℕ) (c c' : OwnedCache) (h h' : Heap) : Prop where
  wf : c'.cache.hashtable.Wf hashfuncDjb2
  paths : c'.cache.paths ⊆ c.cache.paths
  stored : c'.stored = c.stored
  accounts : h'.Accounts (c'.blocks + rest)
  given : h'.given = h.given
  next : h'.next = h.next

theorem Deletes.refl (hwf : c.cache.hashtable.Wf hashfuncDjb2)
    (hacc : h.Accounts (c.blocks + rest)) : Deletes rest c c h h :=
  ⟨hwf, List.Subset.refl _, rfl, hacc, rfl, rfl⟩

theorem Deletes.pathsIn (hdel : Deletes rest c c' h h') {taken : Multiset ℕ}
    (hpaths : c.PathsIn taken) : c'.PathsIn taken := by
  intro path hpath
  rw [hdel.stored]
  exact hpaths path (hdel.paths hpath)

theorem cacheEntryHashDestroy_bind {α : Type} (stored : Stored) (f : Unit → Own MemRet α)
    (h : Heap) : (cacheEntryHashDestroy stored >>= f) h = f () (h.free stored.blocks) := by
  change f () (((h.free {stored.cacheEntry}).free {stored.path}).free {stored.node}) = _
  rw [Heap.free_free, Heap.free_free]
  rfl

theorem deletes_hashDeleteFree (hwf : c.cache.hashtable.Wf hashfuncDjb2)
    (hacc : h.Accounts (c.blocks + rest)) {node : Hnode CString CacheEntry}
    (hmem : node ∈ c.cache.hashtable.nodes)
    (hrun : ((c.hashDeleteFree node) h).Traces tr (c', h')) : Deletes rest c c' h h' := by
  rw [hashDeleteFree, cacheEntryHashDestroy_bind] at hrun
  obtain ⟨-, rfl, rfl⟩ := Own.traces_pure.mp hrun
  refine ⟨Hash.wf_delete hwf hmem, ?_, rfl, ?_, rfl, rfl⟩
  · intro path hpath
    exact (paths_delete hwf hmem).mem_iff.mpr (List.mem_cons_of_mem _ hpath)
  · rw [blocks_delete hwf hmem, add_assoc] at hacc
    exact Heap.accounts_free hacc

theorem deletes_remove (hwf : c.cache.hashtable.Wf hashfuncDjb2)
    (hacc : h.Accounts (c.blocks + rest)) (hrun : ((c.remove path) h).Traces tr (c', h')) :
    Deletes rest c c' h h' := by
  unfold remove at hrun
  cases hl : c.cache.hashtable.lookup hashfuncDjb2 path with
  | none =>
    rw [hl] at hrun
    obtain ⟨-, rfl, rfl⟩ := Own.traces_pure.mp hrun
    exact .refl hwf hacc
  | some node =>
    rw [hl] at hrun
    exact deletes_hashDeleteFree hwf hacc (Hash.lookup_eq_some hwf hl).1 hrun

theorem deletes_copyStat (hwf : c.cache.hashtable.Wf hashfuncDjb2)
    (hacc : h.Accounts (c.blocks + rest)) {found : Option Stat}
    (hrun : ((c.copyStat now path) h).Traces tr ((found, c'), h')) : Deletes rest c c' h h' := by
  obtain ⟨⟨cacheEntry, c₁⟩, h₁, tr₁, tr₂, rfl, hget, hrest⟩ := Own.traces_bind.mp hrun
  obtain ⟨rfl, hout, rfl⟩ := Own.traces_pure.mp hrest
  obtain ⟨-, rfl⟩ := Prod.mk.inj hout
  unfold get at hget
  cases hl : c.cache.hashtable.lookup hashfuncDjb2 path with
  | none =>
    rw [hl] at hget
    obtain ⟨-, hout₁, rfl⟩ := Own.traces_pure.mp hget
    obtain ⟨-, rfl⟩ := Prod.mk.inj hout₁
    exact .refl hwf hacc
  | some node =>
    simp only [hl] at hget
    split_ifs at hget
    · obtain ⟨c₂, h₂, tr₃, tr₄, rfl, hdelete, hrest₁⟩ := Own.traces_bind.mp hget
      obtain ⟨-, hout₁, rfl⟩ := Own.traces_pure.mp hrest₁
      obtain ⟨-, rfl⟩ := Prod.mk.inj hout₁
      exact deletes_hashDeleteFree hwf hacc (Hash.lookup_eq_some hwf hl).1 hdelete
    · obtain ⟨-, hout₁, rfl⟩ := Own.traces_pure.mp hget
      obtain ⟨-, rfl⟩ := Prod.mk.inj hout₁
      exact .refl hwf hacc

/-- The loop of `hash_free_nodes` frees everything. -/
theorem hashFreeNodes_eq (c : OwnedCache) (scan : List (Hnode CString CacheEntry)) (h : Heap) :
    (c.hashFreeNodes scan) h =
      .ret ((), h.free (scan.map fun node => (c.stored node.key).blocks).sum) := by
  induction scan generalizing h with
  | nil =>
    change Prog.ret ((), h) = _
    simp
  | cons node scan ih =>
    rw [hashFreeNodes, cacheEntryHashDestroy_bind, ih, Heap.free_free, List.map_cons,
      List.sum_cons]

theorem deinit_eq (c : OwnedCache) (h : Heap) : c.deinit h = .ret ((), h.free c.blocks) := by
  rw [deinit, hashFreeNodes_eq, blocks, AttrCache.paths, List.map_map]
  rfl

/-- Shrinking takes paths out of the table. -/
theorem paths_shrink (hwf : c.cache.hashtable.Wf hashfuncDjb2) (now : ℤ) :
    (c.shrink now).2.cache.hashtable.Wf hashfuncDjb2 ∧
      ∃ gone : List CString, c.cache.paths.Perm (gone ++ (c.shrink now).2.cache.paths) ∧
        (gone = [] ↔ ¬ c.Evicts now) := by
  by_cases hevicts : c.Evicts now
  · have hnum : min c.cache.batchSize c.cache.hashtable.count ≠ 0 := hevicts.1
    have hshrink : (c.shrink now).2.cache = c.cache.shrinkSection now c.cache.shrinkNum := by
      simp only [shrink, AttrCache.shrink_eq]
      rw [if_neg hnum, if_neg hevicts.2]
      rfl
    obtain ⟨removed, hs, hle⟩ := c.cache.shrinkSection_shrunk hwf now c.cache.shrinkNum
    rw [hshrink]
    obtain ⟨kept, hkept, hsub⟩ : (c.cache.shrinkSection now c.cache.shrinkNum).paths.Subperm
        c.cache.paths := List.subperm_of_subset hs.wf.nodup (List.map_subset _ hs.subset)
    obtain ⟨gone, hgone⟩ := hsub.exists_perm_append
    have hperm := (hgone.trans List.perm_append_comm).trans (hkept.append_left gone)
    refine ⟨hs.wf, gone, hperm, iff_of_false ?_ (not_not.mpr hevicts)⟩
    rintro rfl
    have hlen := hperm.length_eq
    have hcount := hs.count_eq
    simp only [AttrCache.paths, List.nil_append, List.length_map] at hlen
    unfold AttrCache.shrinkNum at hle
    omega
  · have hshrink : (c.shrink now).2 = c := by
      rw [shrink, AttrCache.nodes_shrink_unchanged]
      unfold Evicts at hevicts
      tauto
    rw [hshrink]
    exact ⟨hwf, [], .refl _, iff_of_true rfl hevicts⟩

/-- Shrinking frees nothing of what it takes out, so it loses the paths among it. -/
theorem shrink_loses (hwf : c.cache.hashtable.Wf hashfuncDjb2) (now : ℤ) :
    (c.shrink now).2.cache.paths ⊆ c.cache.paths ∧
      ∃ lost, c.blocks = (c.shrink now).2.blocks + lost ∧ (lost = 0 ↔ ¬ c.Evicts now) ∧
        (lost ≠ 0 → ∃ path ∈ c.cache.paths, (c.stored path).path ∈ lost) := by
  obtain ⟨-, gone, hperm, hgone⟩ := paths_shrink hwf now
  refine ⟨fun path hmem => hperm.mem_iff.mpr (List.mem_append.mpr (.inr hmem)),
    (gone.map fun path => (c.stored path).blocks).sum, ?_, ?_, ?_⟩
  · rw [blocks_perm hperm, List.map_append, List.sum_append, add_comm]
    rfl
  · rw [← hgone]
    cases gone with
    | nil => simp
    | cons path gone => simp [Stored.blocks]
  · intro hlost
    cases gone with
    | nil => exact absurd rfl hlost
    | cons path gone =>
      refine ⟨path, hperm.mem_iff.mpr (by simp), ?_⟩
      simp [Stored.blocks]

/-- How `AttrCache_set` ends for the blocks `args`: they are in the table when it returned `ok`, and
still the caller's otherwise. -/
structure Stores (args rest taken : Multiset ℕ) (h h' : Heap) (ok : Bool) (c' : OwnedCache) :
    Prop where
  wf : c'.cache.hashtable.Wf hashfuncDjb2
  accounts : h'.Accounts (c'.blocks + ((if ok then 0 else args) + rest))
  given : h'.given = h.given
  next : h.next ≤ h'.next
  pathsIn : c'.PathsIn (if ok then taken + args else taken)

/-- Storing the blocks of a path that is not in the table. -/
theorem stores_hashAllocInsert (hwf : c.cache.hashtable.Wf hashfuncDjb2)
    (hnew : ∀ node ∈ c.cache.hashtable.nodes, node.key ≠ path) {cacheEntry : CacheEntry}
    {taken : Multiset ℕ} (hpaths : c.PathsIn taken) {pathBlock entryBlock : ℕ} {ok : Bool}
    (hacc : h.Accounts (c.blocks + ({pathBlock, entryBlock} + rest)))
    (hrun : ((c.hashAllocInsert path cacheEntry pathBlock entryBlock) h).Traces tr
      ((ok, c'), h')) : Stores {pathBlock, entryBlock} rest taken h h' ok c' := by
  obtain ⟨tr₁, tr₂, rfl, ⟨-, hrest⟩ | ⟨-, hrest⟩⟩ := Own.traces_allocate_bind.mp hrun
  · obtain ⟨hashtable, h₁, tr₃, tr₄, rfl, hinsert, hrest₁⟩ := Own.traces_bind.mp hrest
    obtain ⟨hinsert₁, rfl⟩ := Own.traces_lift.mp hinsert
    obtain ⟨-, hout, rfl⟩ := Own.traces_pure.mp hrest₁
    obtain ⟨rfl, rfl⟩ := Prod.mk.inj hout
    obtain ⟨hwf', -, hnodes⟩ := Hash.insert_spec hwf hnew hinsert₁.runs
    have hperm : ({ c.cache with hashtable := hashtable } : AttrCache).paths.Perm
        (path :: c.cache.paths) :=
      hnodes.map fun node : Hnode CString CacheEntry => node.key
    have hother : ∀ path' ∈ c.cache.paths, path' ≠ path := by
      rintro _ hmem rfl
      obtain ⟨node, hnode, hkey⟩ := List.mem_map.mp hmem
      exact hnew node hnode hkey
    have hblocks : ({
        cache := { c.cache with hashtable := hashtable }
        stored := Function.update c.stored path ⟨h.next, pathBlock, entryBlock⟩ } :
          OwnedCache).blocks = {entryBlock} + {pathBlock} + {h.next} + c.blocks := by
      rw [blocks_perm hperm, List.map_cons, List.sum_cons]
      dsimp only
      rw [Function.update_self, blocks]
      congr 2
      apply List.map_congr_left
      intro path' hmem
      rw [Function.update_of_ne (hother path' hmem)]
    refine ⟨hwf', ?_, rfl, Nat.le_succ _, ?_⟩
    · have hacc' := Heap.accounts_alloc hacc
      rw [← Multiset.singleton_add] at hacc'
      rw [hblocks, if_pos rfl, zero_add]
      convert hacc' using 1
      rw [Multiset.insert_eq_cons, ← Multiset.singleton_add]
      ac_rfl
    · intro path' hpath'
      rcases List.mem_cons.mp (hperm.mem_iff.mp hpath') with rfl | hmem
      · simp
      · simp [Function.update_of_ne (hother path' hmem), hpaths path' hmem]
  · obtain ⟨-, hout, rfl⟩ := Own.traces_pure.mp hrest
    obtain ⟨rfl, rfl⟩ := Prod.mk.inj hout
    exact ⟨hwf, hacc, rfl, le_refl _, hpaths⟩

/-- The table in which `AttrCache_set` looks for the old entry. -/
theorem fullShrink_loses (hwf : c.cache.hashtable.Wf hashfuncDjb2) (now : ℤ) {taken : Multiset ℕ}
    (hpaths : c.PathsIn taken) :
    let c₁ := if c.cache.hashtable.isFull then (c.shrink now).2 else c
    c₁.cache.hashtable.Wf hashfuncDjb2 ∧ c₁.PathsIn taken ∧
      ∃ lost, c.blocks = c₁.blocks + lost ∧
        (lost = 0 ↔ (c.cache.hashtable.isFull → ¬ c.Evicts now)) ∧
        (lost ≠ 0 → ∃ p ∈ lost, p ∈ taken) := by
  dsimp only
  split_ifs with hfull
  · obtain ⟨hsub, lost, hblocks, hzero, hmem⟩ := shrink_loses hwf now
    refine ⟨(paths_shrink hwf now).1, fun path hpath => hpaths path (hsub hpath), lost, hblocks,
      by simpa [hfull] using hzero, fun hlost => ?_⟩
    obtain ⟨path, hpath, hin⟩ := hmem hlost
    exact ⟨_, hin, hpaths path hpath⟩
  · exact ⟨hwf, hpaths, 0, by simp, by simp [hfull], by simp⟩

/-- **What `AttrCache_set` loses**: what it takes over for a cache that allows no entries, and what
shrinking a full table takes out. -/
theorem stores_set (hwf : c.cache.hashtable.Wf hashfuncDjb2) {taken : Multiset ℕ}
    (hpaths : c.PathsIn taken) {cacheEntry : CacheEntry} {pathBlock entryBlock : ℕ} {ok : Bool}
    (hacc : h.Accounts (c.blocks + ({pathBlock, entryBlock} + rest)))
    (hrun : ((c.set now path cacheEntry pathBlock entryBlock) h).Traces tr ((ok, c'), h')) :
    ∃ lost, Stores {pathBlock, entryBlock} (lost + rest) taken h h' ok c' ∧
      (lost = 0 ↔ c.cache.hashtable.maxcount ≠ 0 ∧
        (c.cache.hashtable.isFull → ¬ c.Evicts now)) ∧
      (lost ≠ 0 → ∃ p ∈ lost, p ∈ if ok then taken + {pathBlock, entryBlock} else taken) := by
  unfold set at hrun
  by_cases hmax : c.cache.hashtable.maxcount = 0
  · rw [if_pos hmax] at hrun
    obtain ⟨-, hout, rfl⟩ := Own.traces_pure.mp hrun
    obtain ⟨rfl, rfl⟩ := Prod.mk.inj hout
    refine ⟨{pathBlock, entryBlock}, ⟨hwf, by simpa using hacc, rfl, le_refl _, ?_⟩, ?_, ?_⟩
    · intro path' hpath'
      exact Multiset.mem_add.mpr (.inl (hpaths path' hpath'))
    · simp [hmax]
    · intro _
      exact ⟨pathBlock, by simp⟩
  rw [if_neg hmax] at hrun
  obtain ⟨hwf₁, hpaths₁, lost, hblocks, hzero, hlost⟩ := fullShrink_loses hwf now hpaths
  obtain ⟨c₂, h₂, tr₁, tr₂, rfl, hremove, hinsert⟩ := Own.traces_bind.mp hrun
  have hacc₁ : h.Accounts ((if c.cache.hashtable.isFull then (c.shrink now).2 else c).blocks +
      ({pathBlock, entryBlock} + (lost + rest))) := by
    rw [hblocks] at hacc
    convert hacc using 1
    ac_rfl
  have hdel := deletes_remove hwf₁ hacc₁ hremove
  have hcache : c₂.cache = _ := ((remove_erase _ path).traces hremove).2
  have hnew : ∀ node ∈ c₂.cache.hashtable.nodes, node.key ≠ path := by
    intro node hmem
    rw [hcache] at hmem
    exact ((AttrCache.mem_nodes_remove hwf₁).mp hmem).2
  have hstores := stores_hashAllocInsert hdel.wf hnew (hdel.pathsIn hpaths₁) hdel.accounts hinsert
  refine ⟨lost, ⟨hstores.wf, hstores.accounts, hstores.given.trans hdel.given,
    hdel.next ▸ hstores.next, hstores.pathsIn⟩, by rw [hzero]; tauto, fun hne => ?_⟩
  obtain ⟨p, hp, htaken⟩ := hlost hne
  refine ⟨p, hp, ?_⟩
  split_ifs
  · exact Multiset.mem_add.mpr (.inl htaken)
  · exact htaken

end Operation

end OwnedCache

/-! ## Every run -/

/-- The invariant of a run in which the blocks `lost` are neither in the table nor freed. -/
structure CacheState.Inv (s : CacheState) (lost : Multiset ℕ) : Prop where
  wf : ∀ c, s.cache = some c → c.cache.hashtable.Wf hashfuncDjb2
  pathsIn : ∀ c, s.cache = some c → c.PathsIn s.taken
  accounts : s.heap.Accounts (s.blocks + lost)
  taken : ∀ p ∈ s.taken, p < s.heap.next ∧ p ∉ s.heap.given
  lost : lost ≠ 0 → ∃ p ∈ lost, p ∈ s.taken

section Run

variable {s s' : CacheState} {c c' : OwnedCache} {h' : Heap} {call : CacheCall}
  {lost : Multiset ℕ}

theorem OwnedCache.blocks_eq_zero_iff (c : OwnedCache) : c.blocks = 0 ↔ c.cache.paths = [] := by
  unfold blocks
  cases c.cache.paths with
  | nil => simp
  | cons path paths => simp [Stored.blocks]

theorem OwnedCache.exists_taken {taken : Multiset ℕ} (hpaths : c.PathsIn taken)
    (hne : c.blocks ≠ 0) : ∃ p ∈ c.blocks, p ∈ taken := by
  unfold blocks PathsIn at *
  cases hp : c.cache.paths with
  | nil => simp [hp] at hne
  | cons path paths =>
    rw [hp] at hpaths
    refine ⟨(c.stored path).path, ?_, hpaths path List.mem_cons_self⟩
    simp [Stored.blocks]

theorem CacheState.exists_taken (s : CacheState)
    (hpaths : ∀ c, s.cache = some c → c.PathsIn s.taken) (hne : s.blocks ≠ 0) :
    ∃ p ∈ s.blocks, p ∈ s.taken := by
  unfold blocks at *
  cases hc : s.cache with
  | none => simp [hc] at hne
  | some c =>
    rw [hc] at hne
    exact c.exists_taken (hpaths c hc) hne

theorem exists_mem_add {more taken : Multiset ℕ} (hmore : more ≠ 0 → ∃ p ∈ more, p ∈ taken)
    (hlost : lost ≠ 0 → ∃ p ∈ lost, p ∈ taken) (hne : more + lost ≠ 0) :
    ∃ p ∈ more + lost, p ∈ taken := by
  by_cases hzero : more = 0
  · rw [hzero, zero_add] at hne ⊢
    exact hlost hne
  · obtain ⟨p, hp, hin⟩ := hmore hzero
    exact ⟨p, Multiset.mem_add.mpr (.inl hp), hin⟩

/-- The invariant with the heap after nothing but frees. -/
theorem CacheState.Inv.deletes (hinv : s.Inv lost) (hc : s.cache = some c)
    (hdel : OwnedCache.Deletes lost c c' s.heap h') :
    ({ s with cache := some c', heap := h' } : CacheState).Inv lost where
  wf := by
    rintro _ ⟨⟩
    exact hdel.wf
  pathsIn := by
    rintro _ ⟨⟩
    exact hdel.pathsIn (hinv.pathsIn c hc)
  accounts := hdel.accounts
  taken := by
    intro p hp
    dsimp only
    rw [hdel.next, hdel.given]
    exact hinv.taken p hp
  lost := hinv.lost

/-- The invariant when the table is forgotten. -/
theorem CacheState.Inv.forget (hinv : s.Inv lost) {cache : Option OwnedCache}
    (hempty : ∀ c, cache = some c → c.cache.hashtable.Wf hashfuncDjb2 ∧ c.cache.paths = []) :
    ({ s with cache := cache } : CacheState).Inv (s.blocks + lost) where
  wf := fun c hc => (hempty c hc).1
  pathsIn := by
    intro c hc path hpath
    rw [(hempty c hc).2] at hpath
    cases hpath
  accounts := by
    have hzero : ({ s with cache := cache } : CacheState).blocks = 0 := by
      unfold blocks
      cases cache with
      | none => rfl
      | some c => exact (c.blocks_eq_zero_iff).mpr (hempty c rfl).2
    rw [hzero, zero_add]
    exact hinv.accounts
  taken := hinv.taken
  lost := exists_mem_add (s.exists_taken hinv.pathsIn) hinv.lost

theorem CacheState.blocks_eq_zero_iff (s : CacheState) :
    s.blocks = 0 ↔ ∀ c, s.cache = some c → c.cache.paths = [] := by
  unfold blocks
  cases s.cache with
  | none => simp
  | some c => simpa using c.blocks_eq_zero_iff

/-- The invariant after `AttrCache_set`. -/
theorem CacheState.Inv.set (hinv : s.Inv lost) (hc : s.cache = some c) {now : ℤ} {path : CString}
    {cacheEntry : CacheEntry} {ok : Bool} {tr : List (Event MemRet)}
    (hrun : ((c.set now path cacheEntry s.heap.next s.heap.alloc.next) s.heap.alloc.alloc).Traces tr
      ((ok, c'), h')) :
    ∃ more, (s.afterSet ok c' h' {s.heap.next, s.heap.alloc.next}).Inv (more + lost) ∧
      (more = 0 ↔ s.Keeps (.set now path cacheEntry)) := by
  have hacc := Heap.accounts_alloc (Heap.accounts_alloc hinv.accounts)
  have hblocks : s.blocks = c.blocks := by rw [blocks, hc]; rfl
  have hargs : s.heap.alloc.alloc.Accounts
      (c.blocks + ({s.heap.next, s.heap.alloc.next} + lost)) := by
    convert hacc using 1
    rw [hblocks, Multiset.insert_eq_cons, ← Multiset.singleton_add, ← Multiset.singleton_add,
      ← Multiset.singleton_add]
    ac_rfl
  obtain ⟨more, hstores, hzero, hmore⟩ :=
    OwnedCache.stores_set (hinv.wf c hc) (hinv.pathsIn c hc) hargs hrun
  have hkeeps : s.Keeps (.set now path cacheEntry) ↔ c.cache.hashtable.maxcount ≠ 0 ∧
      (c.cache.hashtable.isFull → ¬ c.Evicts now) := by
    simp [Keeps, hc]
  refine ⟨more, ?_, hzero.trans hkeeps.symm⟩
  have htaken : ∀ p ∈ s.taken, p < h'.next ∧ p ∉ h'.given := by
    intro p hp
    obtain ⟨hlt, hnot⟩ := hinv.taken p hp
    have hnext := hstores.next
    rw [hstores.given]
    refine ⟨?_, hnot⟩
    simp only [Heap.alloc] at hnext
    omega
  have hwf : ∀ c₁, some c' = some c₁ → c₁.cache.hashtable.Wf hashfuncDjb2 := by
    rintro _ ⟨⟩
    exact hstores.wf
  have hnew : ∀ p ∈ ({s.heap.next, s.heap.alloc.next} : Multiset ℕ), s.heap.next ≤ p ∧
      p < s.heap.alloc.alloc.next := by
    intro p hp
    simp only [Multiset.insert_eq_cons, Multiset.mem_cons, Multiset.mem_singleton, Heap.alloc]
      at hp ⊢
    omega
  cases ok with
  | true =>
    refine ⟨hwf, ?_, by simpa [blocks, afterSet] using hstores.accounts, ?_, ?_⟩
    · rintro _ ⟨⟩
      exact hstores.pathsIn
    · intro p hp
      rcases Multiset.mem_add.mp hp with hp | hp
      · exact htaken p hp
      · obtain ⟨hge, hlt⟩ := hnew p hp
        refine ⟨lt_of_lt_of_le hlt hstores.next, ?_⟩
        change p ∉ h'.given
        rw [hstores.given]
        intro hgiven
        have := hinv.accounts.lt_next
          (Multiset.mem_add.mpr (.inl (Multiset.mem_add.mpr (.inr hgiven))))
        omega
    · apply exists_mem_add hmore
      intro hne
      obtain ⟨p, hp, hin⟩ := hinv.lost hne
      exact ⟨p, hp, Multiset.mem_add.mpr (.inl hin)⟩
  | false =>
    refine ⟨hwf, ?_, ?_, ?_, ?_⟩
    · rintro _ ⟨⟩
      exact hstores.pathsIn
    · have hback : h'.Accounts
          ({s.heap.next, s.heap.alloc.next} + (c'.blocks + (more + lost))) := by
        convert hstores.accounts using 1
        rw [if_neg Bool.false_ne_true]
        ac_rfl
      exact Heap.accounts_give hback
    · intro p hp
      obtain ⟨hlt, hnot⟩ := htaken p hp
      refine ⟨hlt, fun hgiven => ?_⟩
      rcases Multiset.mem_add.mp hgiven with hgiven | hgiven
      · exact hnot hgiven
      · have := (hinv.taken p hp).1
        have := (hnew p hgiven).1
        omega
    · exact exists_mem_add hmore hinv.lost

/-- What a step loses. -/
theorem CacheState.Inv.step (hinv : s.Inv lost) (hstep : CacheStep s call s') :
    ∃ more, s'.Inv (more + lost) ∧ (more = 0 ↔ s.Keeps call) := by
  cases hstep with
  | init stored =>
    refine ⟨s.blocks, hinv.forget ?_, s.blocks_eq_zero_iff⟩
    rintro _ ⟨⟩
    exact ⟨Hash.wf_create _, by simp [AttrCache.paths, AttrCache.init, Hash.nodes, Hash.create]⟩
  | initFails =>
    refine ⟨s.blocks, hinv.forget ?_, s.blocks_eq_zero_iff⟩
    rintro _ ⟨⟩
  | set hc hrun => exact hinv.set hc hrun
  | copyStat hc hrun =>
    have hacc := hinv.accounts
    rw [blocks, hc] at hacc
    have hdel := OwnedCache.deletes_copyStat (hinv.wf _ hc) hacc hrun
    exact ⟨0, by simpa using hinv.deletes hc hdel, by simp [Keeps]⟩
  | remove hc hrun =>
    have hacc := hinv.accounts
    rw [blocks, hc] at hacc
    have hdel := OwnedCache.deletes_remove (hinv.wf _ hc) hacc hrun
    exact ⟨0, by simpa using hinv.deletes hc hdel, by simp [Keeps]⟩
  | @shrink c now hc =>
    obtain ⟨hsub, more, hblocks, hzero, hmem⟩ := OwnedCache.shrink_loses (hinv.wf _ hc) now
    refine ⟨more, ⟨?_, ?_, ?_, hinv.taken, ?_⟩, by simpa [Keeps, hc] using hzero⟩
    · rintro _ ⟨⟩
      exact (OwnedCache.paths_shrink (hinv.wf _ hc) now).1
    · rintro _ ⟨⟩ path hpath
      exact hinv.pathsIn c hc path (hsub hpath)
    · have hacc := hinv.accounts
      rw [blocks, hc, Option.elim_some, hblocks, add_assoc] at hacc
      exact hacc
    · apply exists_mem_add _ hinv.lost
      intro hne
      obtain ⟨path, hpath, hin⟩ := hmem hne
      exact ⟨_, hin, hinv.pathsIn c hc path hpath⟩
  | @deinit c _ _ hc hrun =>
    rw [OwnedCache.deinit_eq] at hrun
    obtain ⟨-, heq⟩ := hrun
    obtain ⟨-, rfl⟩ := Prod.mk.inj heq
    refine ⟨0, ⟨by simp, by simp, ?_, hinv.taken, by simpa using hinv.lost⟩, by simp [Keeps]⟩
    have hacc := hinv.accounts
    rw [blocks, hc, Option.elim_some] at hacc
    simpa [blocks] using Heap.accounts_free hacc

/-- What a run loses. -/
theorem inv_of_cacheRun {steps : List (CacheState × CacheCall)} (hrun : CacheRun steps s) :
    ∃ lost, s.Inv lost ∧ (lost = 0 ↔ ∀ step ∈ steps, step.1.Keeps step.2) := by
  induction hrun with
  | start =>
    refine ⟨0, ⟨by simp [CacheState.initial], by simp [CacheState.initial], Heap.accounts_empty,
      by simp [CacheState.initial], by simp⟩, by simp⟩
  | step _ hstep ih =>
    obtain ⟨lost, hinv, hiff⟩ := ih
    obtain ⟨more, hinv', hiff'⟩ := hinv.step hstep
    refine ⟨more + lost, hinv', ?_⟩
    have hsum : more + lost = 0 ↔ more = 0 ∧ lost = 0 := by
      simp only [← Multiset.card_eq_zero, Multiset.card_add, Nat.add_eq_zero_iff]
    rw [hsum, hiff, hiff']
    simp [or_imp, forall_and, and_comm]

/-- With nothing lost everything is conserved, and otherwise something that was taken over is not. -/
theorem CacheState.Inv.conserved_state_iff (hinv : s.Inv lost) : s.Conserved ↔ lost = 0 := by
  constructor
  · intro hcons
    by_contra hne
    obtain ⟨p, hp, htaken⟩ := hinv.lost hne
    have hlive := hinv.accounts.live (Multiset.mem_add.mpr (.inr hp))
    have hdisj := (Multiset.nodup_add.mp (Multiset.nodup_add.mp hinv.accounts.nodup).2.1).2.2
    rcases hcons.placed p htaken with ⟨hblocks, -⟩ | ⟨-, hcount⟩
    · exact Multiset.disjoint_left.mp hdisj hblocks hp
    · rw [Multiset.count_eq_zero_of_notMem hlive.2.1] at hcount
      cases hcount
  · rintro rfl
    have hacc : s.heap.Accounts s.blocks := by simpa using hinv.accounts
    have hgone : ∀ p ∈ s.taken, p ∉ s.blocks → s.heap.freed.count p = 1 := by
      intro p hp hnot
      obtain ⟨hlt, hgiven⟩ := hinv.taken p hp
      rw [hacc.count_freed hlt hnot, if_neg hgiven]
    constructor
    · intro p hp
      by_cases hblocks : p ∈ s.blocks
      · exact .inl ⟨hblocks, (hacc.live hblocks).2.1⟩
      · exact .inr ⟨hblocks, hgone p hp hblocks⟩
    · intro hnone p hp
      apply hgone p hp
      simp [blocks, hnone]

/-- **When the cache conserves what it took over.** In every state of every run each path and entry
that was taken over is in the table or has been freed exactly once, if and only if no call evicted
nodes, stored into a cache that allows none, or initialised a cache that was in use. -/
theorem conserved_iff {steps : List (CacheState × CacheCall)} (hrun : CacheRun steps s) :
    s.Conserved ↔ ∀ step ∈ steps, step.1.Keeps step.2 := by
  obtain ⟨lost, hinv, hiff⟩ := inv_of_cacheRun hrun
  rw [hinv.conserved_state_iff, hiff]

end Run

/-! ## A cache for one entry -/

/-- A new cache for one entry. -/
def cacheForOne : OwnedCache := ⟨.init 1 60, fun _ => ⟨0, 0, 0⟩⟩

/-- The same cache after an entry for `/a` has been stored. -/
def cacheWithOne : OwnedCache where
  cache := { AttrCache.init 1 60 with
    hashtable := (Hash.create 1).link hashfuncDjb2 [47, 97] ⟨.zero, 0⟩ }
  stored := Function.update (fun _ => ⟨0, 0, 0⟩) [47, 97] ⟨2, 0, 1⟩

/-- The state in which its path and its `CacheEntry` have been taken over. -/
def oneStored : CacheState := ⟨some cacheWithOne, Heap.empty.alloc.alloc.alloc, {0, 1}⟩

theorem cacheStep_oneStored :
    CacheStep ⟨some cacheForOne, .empty, 0⟩ (.set 0 [47, 97] ⟨.zero, 0⟩) oneStored := by
  have hset : ((cacheForOne.set 0 [47, 97] ⟨.zero, 0⟩ 0 1) Heap.empty.alloc.alloc).Traces
      [⟨.record, true⟩] ((true, cacheWithOne), Heap.empty.alloc.alloc.alloc) :=
    ⟨true, [], rfl, rfl, rfl⟩
  have hstep : CacheStep ⟨some cacheForOne, .empty, 0⟩ (.set 0 [47, 97] ⟨.zero, 0⟩)
      (CacheState.afterSet ⟨some cacheForOne, .empty, 0⟩ true cacheWithOne
        Heap.empty.alloc.alloc.alloc {0, 1}) := .set rfl hset
  simpa [CacheState.afterSet, oneStored] using hstep

/-- The cache is initialised, and the entry is stored. -/
theorem cacheRun_oneStored : CacheRun
    [(.initial, .init 1 60), (⟨some cacheForOne, .empty, 0⟩, .set 0 [47, 97] ⟨.zero, 0⟩)]
    oneStored :=
  .step (.step .start (.init fun _ => ⟨0, 0, 0⟩)) cacheStep_oneStored

/-- What shrinking takes out of the table is still not freed when the cache has been torn down. -/
theorem not_conserved : ∃ steps s, CacheRun steps s ∧ s.cache = none ∧ s.taken = {0, 1} ∧
    s.heap.freed = 0 ∧ ¬ s.Conserved := by
  have hshrunk := cacheRun_oneStored.step (.shrink rfl : CacheStep oneStored (.shrink 0) _)
  have hdeinit : ((cacheWithOne.shrink 0).2.deinit Heap.empty.alloc.alloc.alloc).Traces []
      ((), Heap.empty.alloc.alloc.alloc) := ⟨rfl, rfl⟩
  have hrun := hshrunk.step (.deinit rfl hdeinit)
  refine ⟨_, _, hrun, rfl, rfl, rfl, fun hcons => ?_⟩
  have hfreed : (0 : Multiset ℕ).count 0 = 1 := hcons.released rfl 0 (by decide)
  cases hfreed

/-- What is removed from the cache has been freed when it has been torn down. -/
theorem conserved_removed : ∃ steps s, CacheRun steps s ∧ s.cache = none ∧ s.taken = {0, 1} ∧
    s.Conserved := by
  have hremove : ((cacheWithOne.remove [47, 97]) Heap.empty.alloc.alloc.alloc).Traces []
      (⟨(cacheWithOne.cache.remove [47, 97]), cacheWithOne.stored⟩,
        Heap.empty.alloc.alloc.alloc.free {1, 0, 2}) := ⟨rfl, rfl⟩
  have hremoved := cacheRun_oneStored.step (.remove rfl hremove)
  have hdeinit := hremoved.step (.deinit rfl (by rw [OwnedCache.deinit_eq]; exact ⟨rfl, rfl⟩))
  refine ⟨_, _, hdeinit, rfl, rfl, (conserved_iff hdeinit).mpr ?_⟩
  simp only [List.cons_append, List.nil_append, List.forall_mem_cons]
  refine ⟨by simp [CacheState.Keeps, CacheState.initial], ?_, trivial, trivial, by simp⟩
  rintro _ ⟨⟩
  exact ⟨by decide, fun hfull => absurd hfull (by decide)⟩

end Rhizofs.Ownership
