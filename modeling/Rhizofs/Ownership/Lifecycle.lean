import Rhizofs.Ownership.Cache

/-!
# What the client owns from start to end

`Rhizofs_fuse_main` with the FUSE operations `init` and `destroy`, the socket pool and the attribute
cache, and an identity for everything that `SocketPool_init`, `AttrCache_init` and the users of the
cache acquire: the copy of the socket name, the thread key, the hash table, its nodes and what they
point to. Neither `SocketPool_deinit` nor `AttrCache_deinit` forgets what it has released, and the
socket pool is torn down by `Rhizofs_init` on failure, by `Rhizofs_destroy` and by every
`RhizoPriv_destroy`.

So a run releases everything exactly once if and only if the socket name was never duplicated, and
then there was nothing to release (`teardown_once_iff`).
-/

namespace Rhizofs.Ownership

open Extern Kazlib

/-! ## The outside -/

/-- The external calls of the client's start and end. -/
inductive LifeCall
  | alloc (c : Chunk)
  /-- `strdup` of the socket name. -/
  | dupSocketName (socketName : CString)
  | keyCreate
  | mutexInit
  | mutexDestroy
  | zmqInit
  | ctxDestroy (context : ℕ)
  /-- `fuse_get_context`: whether there is one. -/
  | fuseGetContext
  | fuseExit
  /-- What `Rhizofs_fuse_main` does before it starts FUSE: reading keys and checking the
  connection. -/
  | prepare
  /-- Whether FUSE gets to call `Rhizofs_init`. -/
  | fuseStarts
  /-- Whether FUSE calls `Rhizofs_destroy` after a `Rhizofs_init` that failed. -/
  | fuseDestroys

/-- The answers. `zmq_init` answers with a context, `pthread_key_create` with a key. -/
abbrev LifeRet : LifeCall → Type
  | .zmqInit | .keyCreate => Option ℕ
  | .ctxDestroy _ | .fuseExit => Unit
  | _ => Bool

/-- Make one call. -/
abbrev life (c : LifeCall) : Prog LifeRet (LifeRet c) := Prog.perform c

/-- Run a function that only allocates as part of the client. -/
def lifeMem {α : Type} (p : Own MemRet α) : Own LifeRet α :=
  fun h => (p h).translate fun c => life (.alloc c)

/-! ## The socket pool -/

/-- The number of a thread key, and its identity. -/
structure ThreadKey where
  number : ℕ
  block : ℕ

/-- What `SocketPool_deinit` releases for a key. The number 0 counts as no key. -/
def ThreadKey.toDelete : Option ThreadKey → Multiset ℕ
  | some key => if key.number ≠ 0 then {key.block} else 0
  | none => 0

/-- What a `SocketPool` owns. -/
structure OwnedPool where
  socketName : Option ℕ
  key : Option ThreadKey

namespace OwnedPool

/-- A pool of zero bytes. -/
def zero : OwnedPool := { socketName := none, key := none }

/-- What `SocketPool_deinit` releases. -/
def blocks (sp : OwnedPool) : Multiset ℕ := Own.block sp.socketName + ThreadKey.toDelete sp.key

/-- `SocketPool_deinit`, which leaves the pool as it is. -/
def deinit (sp : OwnedPool) : Own LifeRet Unit := do
  Own.free (Own.block sp.socketName)
  Own.free (ThreadKey.toDelete sp.key)

/-- `SocketPool_init`. Its error exit frees the name, but keeps the pointer to it. -/
def init (socketName : CString) : Own LifeRet (Bool × OwnedPool) := do
  match ← Own.allocate (life (.dupSocketName socketName)) with
  | none => return (false, zero)
  | some name => do
    match ← Own.create (life .keyCreate) with
    | none => do
      Own.free {name}
      return (false, { zero with socketName := some name })
    | some (number, block) =>
      return (true, { socketName := some name, key := some ⟨number, block⟩ })

end OwnedPool

/-! ## The attribute cache -/

/-- The hash table of an `AttrCache`: its two allocations, and what its nodes point to. -/
structure OwnedTable where
  hash : ℕ
  table : ℕ
  contents : OwnedCache

/-- The end of `hash_free_nodes`. -/
def OwnedTable.cleared (t : OwnedTable) : OwnedTable :=
  { t with contents := { t.contents with cache := { t.contents.cache with
      hashtable := { t.contents.cache.hashtable with
        table := List.replicate t.contents.cache.hashtable.nchains []
        nodecount := 0 } } } }

/-- What an `AttrCache` owns. -/
structure OwnedAttrCache where
  hashtable : Option OwnedTable

namespace OwnedAttrCache

/-- A cache of zero bytes. -/
def zero : OwnedAttrCache := { hashtable := none }

/-- `AttrCache_deinit`, which keeps the pointer to the table. -/
def deinit (c : OwnedAttrCache) : Own LifeRet OwnedAttrCache := do
  match c.hashtable with
  | none => do
    let _ ← Own.lift (life .mutexDestroy)
    return c
  | some t => do
    lifeMem t.contents.deinit
    Own.free {t.table}
    Own.free {t.hash}
    let _ ← Own.lift (life .mutexDestroy)
    return { hashtable := some t.cleared }

/-- `AttrCache_init` with `hash_create`. -/
def init (maxSize maxAgeSec : ℕ) : Own LifeRet (Bool × OwnedAttrCache) := do
  match ← Own.allocate (life (.alloc .record)) with
  | none => do
    let c ← zero.deinit
    return (false, c)
  | some hash => do
    match ← Own.allocate (life (.alloc (.entries INIT_SIZE))) with
    | none => do
      Own.free {hash}
      let c ← zero.deinit
      return (false, c)
    | some table => do
      let c := { hashtable := some ⟨hash, table, ⟨.init maxSize maxAgeSec, fun _ => ⟨0, 0, 0⟩⟩⟩ }
      let ok ← Own.lift (life .mutexInit)
      if ok then return (true, c)
      else do
        let c ← c.deinit
        return (false, c)

end OwnedAttrCache

/-- What the operations of a mounted file system do with the cache. -/
inductive CacheUse
  | set (now : ℤ) (path : CString) (cacheEntry : CacheEntry)
  | copyStat (now : ℤ) (path : CString)
  | remove (path : CString)

/-- One use. A caller of `AttrCache_set` creates the path and the entry, and frees them when the
cache does not take them over. -/
def OwnedCache.use (c : OwnedCache) : CacheUse → Own LifeRet OwnedCache
  | .set now path cacheEntry => do
    match ← Own.allocate (life (.alloc (.bytes (path.length + 1)))) with
    | none => return c
    | some pathBlock => do
      match ← Own.allocate (life (.alloc .record)) with
      | none => do
        Own.free {pathBlock}
        return c
      | some entryBlock => do
        let (ok, c) ← lifeMem (c.set now path cacheEntry pathBlock entryBlock)
        if ok then return c
        else do
          Own.free ({pathBlock} + {entryBlock})
          return c
  | .copyStat now path => do
    let (_, c) ← lifeMem (c.copyStat now path)
    return c
  | .remove path => lifeMem (c.remove path)

/-- The uses of the cache while the file system is mounted. -/
def OwnedCache.serve : List CacheUse → OwnedCache → Own LifeRet OwnedCache
  | [], c => return c
  | u :: uses, c => do
    let c ← c.use u
    serve uses c

/-- The cache of a mounted file system in use. -/
def OwnedAttrCache.serve (uses : List CacheUse) (c : OwnedAttrCache) :
    Own LifeRet OwnedAttrCache :=
  match c.hashtable with
  | none => return c
  | some t => do
    let contents ← OwnedCache.serve uses t.contents
    return { hashtable := some { t with contents := contents } }

/-! ## The client -/

/-- `RhizoPriv`. -/
structure RhizoPriv where
  context : ℕ

/-- The global `socketpool` and `attrcache`. -/
structure Globals where
  socketpool : OwnedPool
  attrcache : OwnedAttrCache

/-- The globals before the program has run. -/
def Globals.zero : Globals := { socketpool := .zero, attrcache := .zero }

/-- `RhizoPriv_create`. -/
def RhizoPriv.create : Prog LifeRet (Option RhizoPriv) := do
  let ok ← life (.alloc .record)
  if !ok then return none
  let some context ← life .zmqInit | return none
  return some ⟨context⟩

/-- `RhizoPriv_destroy`. -/
def RhizoPriv.destroy (g : Globals) (priv : Option RhizoPriv) : Own LifeRet Unit := do
  g.socketpool.deinit
  match priv with
  | none => return
  | some priv => Own.lift (life (.ctxDestroy priv.context))

def ATTRCACHE_MAXSIZE : ℕ := 1000
def ATTRCACHE_DEFAULT_MAXAGE_SEC : ℕ := 3

/-- The `error` exit of `Rhizofs_init`. -/
def initFailed (g : Globals) (priv : Option RhizoPriv) :
    Own LifeRet (Option RhizoPriv × Globals) := do
  g.socketpool.deinit
  let attrcache ← g.attrcache.deinit
  RhizoPriv.destroy g priv
  Own.lift (life .fuseExit)
  return (none, { g with attrcache := attrcache })

/-- `Rhizofs_init`. -/
def rhizofsInit (hostSocket : CString) (g : Globals) :
    Own LifeRet (Option RhizoPriv × Globals) := do
  match ← Own.lift RhizoPriv.create with
  | none => initFailed g none
  | some priv => do
    let (ok, socketpool) ← OwnedPool.init hostSocket
    let g := { g with socketpool := socketpool }
    if ok then do
      let (ok, attrcache) ← OwnedAttrCache.init ATTRCACHE_MAXSIZE ATTRCACHE_DEFAULT_MAXAGE_SEC
      let g := { g with attrcache := attrcache }
      if ok then return (some priv, g) else initFailed g (some priv)
    else initFailed g (some priv)

/-- `Rhizofs_destroy`, with the private data that `Rhizofs_init` returned. -/
def rhizofsDestroy (g : Globals) (priv : Option RhizoPriv) : Own LifeRet Globals := do
  g.socketpool.deinit
  let attrcache ← g.attrcache.deinit
  let fcontext ← Own.lift (life .fuseGetContext)
  if fcontext then do
    RhizoPriv.destroy g priv
    return { g with attrcache := attrcache }
  else return { g with attrcache := attrcache }

/-- `fuse_main`: the file system is mounted, used and unmounted. -/
def fuseMain (hostSocket : CString) (uses : List CacheUse) (g : Globals) :
    Own LifeRet Globals := do
  let starts ← Own.lift (life .fuseStarts)
  if starts then do
    let (priv, g) ← rhizofsInit hostSocket g
    match priv with
    | some priv => do
      let attrcache ← g.attrcache.serve uses
      rhizofsDestroy { g with attrcache := attrcache } (some priv)
    | none => do
      let destroys ← Own.lift (life .fuseDestroys)
      if destroys then rhizofsDestroy g none else return g
  else return g

/-- `Rhizofs_fuse_main`, its return code aside. -/
def rhizofsFuseMain (hostSocket : CString) (uses : List CacheUse) : Own LifeRet Unit := do
  match ← Own.lift RhizoPriv.create with
  | none => RhizoPriv.destroy .zero none
  | some priv => do
    let ok ← Own.lift (life .prepare)
    if ok then do
      let g ← fuseMain hostSocket uses .zero
      RhizoPriv.destroy g (some priv)
    else RhizoPriv.destroy .zero (some priv)

/-! ## Functions that acquire no socket name -/

/-- A function that duplicates no socket name, on a heap that only grows. -/
structure Tame {α : Type} (p : Own LifeRet α) : Prop where
  calls : ∀ h, (p h).Calls fun c => ∀ socketName, c ≠ .dupSocketName socketName
  grows : Own.Grows p

section TameRules

variable {α β : Type}

theorem tame_pure (a : α) : Tame (pure a : Own LifeRet α) := ⟨fun _ => trivial, Own.grows_pure a⟩

theorem tame_bind {p : Own LifeRet α} {f : α → Own LifeRet β} (hp : Tame p)
    (hf : ∀ a, Tame (f a)) : Tame (p >>= f) :=
  ⟨fun h => (hp.calls h).bind fun r => (hf r.1).calls r.2,
    Own.grows_bind hp.grows fun a => (hf a).grows⟩

theorem tame_free (blocks : Multiset ℕ) : Tame (Own.free blocks : Own LifeRet Unit) :=
  ⟨fun _ => trivial, Own.grows_free blocks⟩

theorem tame_lift {p : Prog LifeRet α}
    (hp : p.Calls fun c => ∀ socketName, c ≠ .dupSocketName socketName) :
    Tame (Own.lift p) :=
  ⟨fun _ => hp.bind fun _ => trivial, Own.grows_lift p⟩

theorem tame_life {c : LifeCall} (hc : ∀ socketName, c ≠ .dupSocketName socketName) :
    Tame (Own.lift (life c)) := tame_lift ⟨hc, fun _ => trivial⟩

theorem tame_allocate (c : Chunk) : Tame (Own.allocate (life (.alloc c))) := by
  refine ⟨fun h => ⟨nofun, fun ok => ?_⟩, Own.grows_allocate _⟩
  cases ok <;> trivial

/-- What only allocates and frees. -/
theorem tame_lifeMem {p : Own MemRet α} (hp : Own.Grows p) : Tame (lifeMem p) := by
  refine ⟨fun h => Prog.Calls.translate _ (fun c => ?_) (p h), fun h => (hp h).translate _⟩
  exact ⟨nofun, fun _ => trivial⟩

end TameRules

namespace OwnedCache

theorem grows_cacheEntryHashDestroy (stored : Stored) :
    Own.Grows (cacheEntryHashDestroy stored) :=
  Own.grows_bind (Own.grows_free _) fun _ => Own.grows_bind (Own.grows_free _) fun _ =>
    Own.grows_free _

theorem grows_hashDeleteFree (c : OwnedCache) (node : Hnode CString CacheEntry) :
    Own.Grows (c.hashDeleteFree node) :=
  Own.grows_bind (grows_cacheEntryHashDestroy _) fun _ => Own.grows_pure _

theorem grows_remove (c : OwnedCache) (path : CString) : Own.Grows (c.remove path) := by
  unfold remove
  split
  · exact Own.grows_pure _
  · exact grows_hashDeleteFree c _

theorem grows_copyStat (c : OwnedCache) (now : ℤ) (path : CString) :
    Own.Grows (c.copyStat now path) := by
  refine Own.grows_bind ?_ fun _ => Own.grows_pure _
  unfold get
  split
  · exact Own.grows_pure _
  · split_ifs
    · exact Own.grows_bind (grows_hashDeleteFree c _) fun _ => Own.grows_pure _
    · exact Own.grows_pure _

theorem grows_hashAllocInsert (c : OwnedCache) (path : CString) (cacheEntry : CacheEntry)
    (pathBlock entryBlock : ℕ) :
    Own.Grows (c.hashAllocInsert path cacheEntry pathBlock entryBlock) := by
  refine Own.grows_bind (Own.grows_allocate _) fun node => ?_
  cases node with
  | none => exact Own.grows_pure _
  | some node => exact Own.grows_bind (Own.grows_lift _) fun _ => Own.grows_pure _

theorem grows_set (c : OwnedCache) (now : ℤ) (path : CString) (cacheEntry : CacheEntry)
    (pathBlock entryBlock : ℕ) :
    Own.Grows (c.set now path cacheEntry pathBlock entryBlock) := by
  unfold set
  split_ifs
  · exact Own.grows_pure _
  all_goals exact Own.grows_bind (grows_remove _ _) fun c => grows_hashAllocInsert c _ _ _ _

theorem tame_use (c : OwnedCache) (u : CacheUse) : Tame (c.use u) := by
  cases u with
  | set now path cacheEntry =>
    refine tame_bind (tame_allocate _) fun pathBlock => ?_
    cases pathBlock with
    | none => exact tame_pure _
    | some pathBlock =>
      refine tame_bind (tame_allocate _) fun entryBlock => ?_
      cases entryBlock with
      | none => exact tame_bind (tame_free _) fun _ => tame_pure _
      | some entryBlock =>
        refine tame_bind (tame_lifeMem (grows_set _ _ _ _ _ _)) fun ⟨ok, c⟩ => ?_
        cases ok with
        | false => exact tame_bind (tame_free _) fun _ => tame_pure _
        | true => exact tame_pure _
  | copyStat now path =>
    exact tame_bind (tame_lifeMem (grows_copyStat _ _ _)) fun _ => tame_pure _
  | remove path => exact tame_lifeMem (grows_remove _ _)

theorem tame_serve (uses : List CacheUse) (c : OwnedCache) : Tame (serve uses c) := by
  induction uses generalizing c with
  | nil => exact tame_pure _
  | cons u uses ih => exact tame_bind (tame_use c u) ih

theorem grows_deinit (c : OwnedCache) : Own.Grows c.deinit := by
  intro h
  rw [deinit_eq]
  exact Own.grows_free _ h

end OwnedCache

namespace OwnedAttrCache

theorem tame_deinit (c : OwnedAttrCache) : Tame c.deinit := by
  unfold deinit
  cases c.hashtable with
  | none => exact tame_bind (tame_life nofun) fun _ => tame_pure _
  | some t =>
    refine tame_bind (tame_lifeMem t.contents.grows_deinit) fun _ => ?_
    refine tame_bind (tame_free _) fun _ => tame_bind (tame_free _) fun _ => ?_
    exact tame_bind (tame_life nofun) fun _ => tame_pure _

theorem tame_init (maxSize maxAgeSec : ℕ) : Tame (init maxSize maxAgeSec) := by
  refine tame_bind (tame_allocate _) fun hash => ?_
  cases hash with
  | none => exact tame_bind (tame_deinit _) fun _ => tame_pure _
  | some hash =>
    refine tame_bind (tame_allocate _) fun table => ?_
    cases table with
    | none =>
      exact tame_bind (tame_free _) fun _ => tame_bind (tame_deinit _) fun _ => tame_pure _
    | some table =>
      refine tame_bind (tame_life nofun) fun ok => ?_
      cases ok with
      | false => exact tame_bind (tame_deinit _) fun _ => tame_pure _
      | true => exact tame_pure _

theorem tame_serve (uses : List CacheUse) (c : OwnedAttrCache) : Tame (c.serve uses) := by
  unfold serve
  cases c.hashtable with
  | none => exact tame_pure _
  | some t => exact tame_bind (OwnedCache.tame_serve uses _) fun _ => tame_pure _

end OwnedAttrCache

theorem tame_privCreate : Tame (Own.lift RhizoPriv.create) := by
  refine tame_lift ⟨nofun, fun ok => ?_⟩
  cases ok with
  | false => trivial
  | true =>
    refine ⟨nofun, fun context => ?_⟩
    cases context <;> trivial

/-! ## How often the socket name is released -/

/-- The socket name was duplicated. -/
def nameAcquired : Event LifeRet → Option Unit
  | ⟨.dupSocketName _, true⟩ => some ()
  | _ => none

/-- The outside, noting that the socket name was duplicated. -/
abbrev lifeSpec : Spec LifeRet (List Unit) := Prog.observing (fun _ _ => True) nameAcquired

section Wp

variable {α : Type} {h : Heap} {acquired : List Unit}

/-- A program that duplicates no socket name. -/
theorem wp_of_calls {p : Prog LifeRet α} {P : α → Prop}
    (hp : p.Calls fun c => ∀ socketName, c ≠ .dupSocketName socketName) (hr : p.Returns P) :
    p.wp lifeSpec (fun a acquired' => P a ∧ acquired' = acquired) acquired := by
  refine hp.wp_returns (I := (· = acquired)) hr (fun _ _ _ _ => trivial) ?_ rfl
  rintro c _ r _ hc rfl ⟨-, rfl⟩
  have hnone : nameAcquired ⟨c, r⟩ = none := by
    cases c with
    | dupSocketName socketName => exact absurd rfl (hc socketName)
    | _ => rfl
  rw [hnone, Option.toList_none, List.append_nil]

theorem Tame.wp {p : Own LifeRet α} (hp : Tame p) :
    (p h).wp lifeSpec (fun r acquired' => (h.next ≤ r.2.next ∧ h.freed ≤ r.2.freed) ∧
      acquired' = acquired) acquired :=
  wp_of_calls (hp.calls h) (hp.grows h)

/-- `RhizoPriv_create` leaves the heap alone. -/
theorem wp_privCreate_bind {f : Option RhizoPriv → Own LifeRet α}
    {Q : α × Heap → List Unit → Prop} (hf : ∀ priv, (f priv h).wp lifeSpec Q acquired) :
    ((Own.lift RhizoPriv.create >>= f) h).wp lifeSpec Q acquired := by
  refine Own.wp_seq (R := fun r acquired' => r.2 = h ∧ acquired' = acquired)
    (wp_of_calls (tame_privCreate.calls h) (.then _ fun _ => rfl)) ?_
  rintro priv _ _ ⟨rfl, rfl⟩
  exact hf priv

theorem OwnedPool.deinit_eq (sp : OwnedPool) (h : Heap) :
    sp.deinit h = .ret ((), h.free sp.blocks) := by
  change Prog.ret ((), (h.free _).free _) = _
  rw [Heap.free_free]
  rfl

theorem OwnedPool.deinit_bind {β : Type} (sp : OwnedPool) (f : Unit → Own LifeRet β) (h : Heap) :
    (sp.deinit >>= f) h = f () (h.free sp.blocks) := by
  change (sp.deinit h >>= fun r => f r.1 r.2) = _
  rw [deinit_eq]
  rfl

/-- A call that duplicates no socket name. -/
theorem wp_life_bind {c : LifeCall} {f : LifeRet c → Own LifeRet α}
    {Q : α × Heap → List Unit → Prop} (hc : ∀ r, nameAcquired ⟨c, r⟩ = none)
    (hf : ∀ r, (f r h).wp lifeSpec Q acquired) :
    ((Own.lift (life c) >>= f) h).wp lifeSpec Q acquired := by
  rw [Own.lift_bind]
  exact Prog.wp_unobserved_bind hc fun r _ => hf r

/-! ### Before anything is acquired -/

/-- Nothing has changed. -/
def Unchanged (h : Heap) (acquired : List Unit) (r : α × Heap) (acquired' : List Unit) : Prop :=
  r.2 = h ∧ acquired' = acquired

theorem OwnedPool.deinit_zero_bind (f : Unit → Own LifeRet α) (h : Heap) :
    (OwnedPool.zero.deinit >>= f) h = f () h := by
  rw [deinit_bind]
  exact congrArg (f ()) h.free_zero

theorem wp_destroy_zero (priv : Option RhizoPriv) :
    (RhizoPriv.destroy .zero priv h).wp lifeSpec (Unchanged h acquired) acquired := by
  unfold RhizoPriv.destroy
  rw [Globals.zero, OwnedPool.deinit_zero_bind]
  cases priv with
  | none => exact ⟨rfl, rfl⟩
  | some priv => exact Prog.wp_observing_call fun _ _ => ⟨rfl, List.append_nil _⟩

theorem wp_cacheDeinit_zero_bind {f : OwnedAttrCache → Own LifeRet α}
    {Q : α × Heap → List Unit → Prop} (hf : (f .zero h).wp lifeSpec Q acquired) :
    ((OwnedAttrCache.zero.deinit >>= f) h).wp lifeSpec Q acquired := by
  refine Own.wp_seq (R := fun r acquired' => r = (OwnedAttrCache.zero, h) ∧ acquired' = acquired)
    (wp_life_bind (fun _ => rfl) fun _ => ⟨rfl, rfl⟩) ?_
  rintro c h' _ ⟨heq, rfl⟩
  cases heq
  exact hf

/-- The error exit of `Rhizofs_init` when nothing has been acquired. -/
theorem wp_initFailed_zero (priv : Option RhizoPriv) :
    (initFailed .zero priv h).wp lifeSpec
      (fun r acquired' => r = ((none, .zero), h) ∧ acquired' = acquired) acquired := by
  unfold initFailed
  rw [Globals.zero, OwnedPool.deinit_zero_bind]
  refine wp_cacheDeinit_zero_bind (Own.wp_seq (wp_destroy_zero priv) ?_)
  rintro u h' acquired' ⟨rfl, rfl⟩
  exact wp_life_bind (fun _ => rfl) fun _ => ⟨rfl, rfl⟩

theorem wp_rhizofsDestroy_zero (priv : Option RhizoPriv) :
    (rhizofsDestroy .zero priv h).wp lifeSpec
      (fun r acquired' => r = (.zero, h) ∧ acquired' = acquired) acquired := by
  unfold rhizofsDestroy
  rw [Globals.zero, OwnedPool.deinit_zero_bind]
  refine wp_cacheDeinit_zero_bind (wp_life_bind (fun _ => rfl) fun fcontext => ?_)
  cases fcontext with
  | false => exact ⟨rfl, rfl⟩
  | true =>
    refine Own.wp_seq (wp_destroy_zero priv) ?_
    rintro u h' acquired' ⟨rfl, rfl⟩
    exact ⟨rfl, rfl⟩

/-! ### After the name is acquired -/

/-- The pool points to a name that has been released at least `n` times. -/
def NameReleased (n : ℕ) (sp : OwnedPool) (h : Heap) : Prop :=
  ∃ name, sp.socketName = some name ∧ name < h.next ∧ n ≤ h.freed.count name

section NameReleased

variable {n : ℕ} {sp : OwnedPool} {h' : Heap}

/-- `SocketPool_deinit` releases it once more. -/
theorem NameReleased.deinit (hname : NameReleased n sp h) :
    NameReleased (n + 1) sp (h.free sp.blocks) := by
  obtain ⟨name, hsp, hlt, hcount⟩ := hname
  refine ⟨name, hsp, hlt, ?_⟩
  have hmem : 1 ≤ sp.blocks.count name := by
    rw [Multiset.one_le_count_iff_mem, OwnedPool.blocks, hsp]
    simp
  simp only [Heap.free, Multiset.count_add]
  omega

theorem NameReleased.later (hname : NameReleased n sp h)
    (hlater : h.next ≤ h'.next ∧ h.freed ≤ h'.freed) : NameReleased n sp h' := by
  obtain ⟨name, hsp, hlt, hcount⟩ := hname
  exact ⟨name, hsp, hlt.trans_le hlater.1, hcount.trans (Multiset.count_le_of_le _ hlater.2)⟩

theorem NameReleased.mono {m : ℕ} (hname : NameReleased n sp h) (hle : m ≤ n) :
    NameReleased m sp h := by
  obtain ⟨name, hsp, hlt, hcount⟩ := hname
  exact ⟨name, hsp, hlt, hle.trans hcount⟩

end NameReleased

section Acquired

variable {n : ℕ} {g : Globals} {priv : Option RhizoPriv}

theorem wp_destroy (hname : NameReleased n g.socketpool h) :
    (RhizoPriv.destroy g priv h).wp lifeSpec (fun r acquired' =>
      NameReleased (n + 1) g.socketpool r.2 ∧ acquired' = acquired) acquired := by
  unfold RhizoPriv.destroy
  rw [OwnedPool.deinit_bind]
  cases priv with
  | none => exact ⟨hname.deinit, rfl⟩
  | some priv => exact Prog.wp_observing_call fun _ _ => ⟨hname.deinit, List.append_nil _⟩

/-- The error exit of `Rhizofs_init` releases the name twice. -/
theorem wp_initFailed (hname : NameReleased n g.socketpool h) :
    (initFailed g priv h).wp lifeSpec (fun r acquired' => r.1.1 = none ∧
      NameReleased (n + 2) r.1.2.socketpool r.2 ∧ acquired' = acquired) acquired := by
  unfold initFailed
  rw [OwnedPool.deinit_bind]
  refine Own.wp_seq (OwnedAttrCache.tame_deinit _).wp ?_
  rintro attrcache h₁ _ ⟨hlater, rfl⟩
  refine Own.wp_seq (wp_destroy (hname.deinit.later hlater)) ?_
  rintro u h₂ _ ⟨hreleased, rfl⟩
  exact wp_life_bind (fun _ => rfl) fun _ => ⟨rfl, hreleased, rfl⟩

/-- `Rhizofs_destroy` releases the name at least once. -/
theorem wp_rhizofsDestroy (hname : NameReleased n g.socketpool h) :
    (rhizofsDestroy g priv h).wp lifeSpec (fun r acquired' =>
      NameReleased (n + 1) r.1.socketpool r.2 ∧ acquired' = acquired) acquired := by
  unfold rhizofsDestroy
  rw [OwnedPool.deinit_bind]
  refine Own.wp_seq (OwnedAttrCache.tame_deinit _).wp ?_
  rintro attrcache h₁ _ ⟨hlater, rfl⟩
  refine wp_life_bind (fun _ => rfl) fun fcontext => ?_
  have hreleased := hname.deinit.later hlater
  cases fcontext with
  | false => exact ⟨hreleased, rfl⟩
  | true =>
    refine Own.wp_seq (wp_destroy hreleased) ?_
    rintro u h₂ _ ⟨hmore, rfl⟩
    exact ⟨hmore.mono (Nat.le_succ _), rfl⟩

end Acquired

/-! ### The whole run -/

theorem wp_dupSocketName_bind {hostSocket : CString} {f : Option ℕ → Own LifeRet α}
    {Q : α × Heap → List Unit → Prop} (hnone : (f none h).wp lifeSpec Q acquired)
    (hsome : (f (some h.next) h.alloc).wp lifeSpec Q (acquired ++ [()])) :
    ((Own.allocate (life (.dupSocketName hostSocket)) >>= f) h).wp lifeSpec Q acquired := by
  rw [Own.allocate_bind]
  refine Prog.wp_observing_call fun ok _ => ?_
  cases ok with
  | false =>
    rw [show nameAcquired ⟨.dupSocketName hostSocket, false⟩ = none from rfl, Option.toList_none,
      List.append_nil]
    exact hnone
  | true => exact hsome

theorem wp_keyCreate_bind {f : Option (ℕ × ℕ) → Own LifeRet α} {Q : α × Heap → List Unit → Prop}
    (hnone : (f none h).wp lifeSpec Q acquired)
    (hsome : ∀ number, (f (some (number, h.next)) h.alloc).wp lifeSpec Q acquired) :
    ((Own.create (life .keyCreate) >>= f) h).wp lifeSpec Q acquired := by
  rw [Own.create_bind]
  refine Prog.wp_observing_call fun key _ => ?_
  rw [show nameAcquired ⟨.keyCreate, key⟩ = none from rfl, Option.toList_none, List.append_nil]
  cases key with
  | none => exact hnone
  | some number => exact hsome number

/-- `SocketPool_init` acquires the name, or it changes nothing. -/
theorem wp_poolInit (hostSocket : CString) :
    (OwnedPool.init hostSocket h).wp lifeSpec (fun r acquired' =>
      (acquired' = [] ∧ r = ((false, .zero), h)) ∨
        (acquired' ≠ [] ∧ NameReleased 0 r.1.2 r.2)) [] := by
  have hlt : h.next < h.next + 1 := Nat.lt_succ_self _
  refine wp_dupSocketName_bind (.inl ⟨rfl, rfl⟩) (wp_keyCreate_bind (.inr ?_) fun number => .inr ?_)
  · exact ⟨List.cons_ne_nil _ _, h.next, rfl, hlt, Nat.zero_le _⟩
  · exact ⟨List.cons_ne_nil _ _, h.next, rfl, hlt.trans (Nat.lt_succ_self _), Nat.zero_le _⟩

/-- How a part of a run that starts with nothing ends: nothing was acquired, or the name was and has
been released at least `n` times. -/
def Ends (n : ℕ) (g : Globals) (h₀ h : Heap) (acquired : List Unit) : Prop :=
  (acquired = [] ∧ g = .zero ∧ h = h₀) ∨ (acquired ≠ [] ∧ NameReleased n g.socketpool h)

/-- When `Rhizofs_init` fails after it has acquired the name, it has released it already. -/
theorem wp_rhizofsInit (hostSocket : CString) :
    (rhizofsInit hostSocket .zero h).wp lifeSpec (fun r acquired' =>
      Ends (if r.1.1.isSome then 0 else 1) r.1.2 h r.2 acquired' ∧
        (r.1.1.isSome → acquired' ≠ [])) [] := by
  have hfailed : ∀ {priv} {g : Globals} {h₁ : Heap} {acquired : List Unit}, acquired ≠ [] →
      NameReleased 0 g.socketpool h₁ → (initFailed g priv h₁).wp lifeSpec (fun r acquired' =>
        Ends (if r.1.1.isSome then 0 else 1) r.1.2 h r.2 acquired' ∧
          (r.1.1.isSome → acquired' ≠ [])) acquired := by
    intro priv g h₁ acquired hacquired hname
    refine Prog.wp_mono _ ?_ (wp_initFailed hname)
    rintro r _ ⟨hnone, hreleased, rfl⟩
    rw [hnone]
    exact ⟨.inr ⟨hacquired, hreleased.mono (Nat.le_succ _)⟩, fun _ => hacquired⟩
  have hidle : ∀ {priv} {h₁ : Heap}, h₁ = h → (initFailed .zero priv h₁).wp lifeSpec
      (fun r acquired' => Ends (if r.1.1.isSome then 0 else 1) r.1.2 h r.2 acquired' ∧
        (r.1.1.isSome → acquired' ≠ [])) [] := by
    rintro priv h₁ rfl
    refine Prog.wp_mono _ ?_ (wp_initFailed_zero priv)
    rintro _ _ ⟨rfl, rfl⟩
    exact ⟨.inl ⟨rfl, rfl, rfl⟩, nofun⟩
  refine wp_privCreate_bind fun priv => ?_
  cases priv with
  | none => exact hidle rfl
  | some priv =>
    refine Own.wp_seq (wp_poolInit hostSocket) ?_
    rintro ⟨ok, socketpool⟩ h₁ acquired (⟨rfl, heq⟩ | ⟨hacquired, hname⟩)
    · cases heq
      exact hidle rfl
    · cases ok with
      | false => exact hfailed hacquired hname
      | true =>
        refine Own.wp_seq (OwnedAttrCache.tame_init _ _).wp ?_
        rintro ⟨ok, attrcache⟩ h₂ _ ⟨hlater, rfl⟩
        cases ok with
        | false => exact hfailed hacquired (hname.later hlater)
        | true => exact ⟨.inr ⟨hacquired, hname.later hlater⟩, fun _ => hacquired⟩

/-- After `fuse_main` the name has been released at least once, if it was acquired. -/
theorem wp_fuseMain (hostSocket : CString) (uses : List CacheUse) :
    (fuseMain hostSocket uses .zero h).wp lifeSpec (fun r acquired' =>
      Ends 1 r.1 h r.2 acquired') [] := by
  refine wp_life_bind (fun _ => rfl) fun starts => ?_
  cases starts with
  | false => exact .inl ⟨rfl, rfl, rfl⟩
  | true =>
    refine Own.wp_seq (wp_rhizofsInit hostSocket) ?_
    rintro ⟨priv, g⟩ h₁ acquired ⟨hends, hacquired⟩
    cases priv with
    | none =>
      refine wp_life_bind (fun _ => rfl) fun destroys => ?_
      cases destroys with
      | false => exact hends
      | true =>
        obtain ⟨rfl, rfl, rfl⟩ | ⟨hne, hname⟩ := hends
        · refine Prog.wp_mono _ ?_ (wp_rhizofsDestroy_zero none)
          rintro _ _ ⟨rfl, rfl⟩
          exact .inl ⟨rfl, rfl, rfl⟩
        · refine Prog.wp_mono _ ?_ (wp_rhizofsDestroy hname)
          rintro r _ ⟨hreleased, rfl⟩
          exact .inr ⟨hne, hreleased.mono (Nat.le_succ _)⟩
    | some priv =>
      obtain ⟨rfl, -, -⟩ | ⟨hne, hname⟩ := hends
      · exact absurd rfl (hacquired rfl)
      · refine Own.wp_seq (OwnedAttrCache.tame_serve uses _).wp ?_
        rintro attrcache h₂ _ ⟨hlater, rfl⟩
        refine Prog.wp_mono _ ?_
          (wp_rhizofsDestroy (g := { g with attrcache := attrcache }) (hname.later hlater))
        rintro r _ ⟨hreleased, rfl⟩
        exact .inr ⟨hne, hreleased⟩

/-- **The socket name is released twice or never acquired**, and then nothing is. -/
theorem wp_rhizofsFuseMain (hostSocket : CString) (uses : List CacheUse) :
    (rhizofsFuseMain hostSocket uses h).wp lifeSpec (fun r acquired' =>
      (acquired' = [] ∧ r.2 = h) ∨ (acquired' ≠ [] ∧ ∃ sp, NameReleased 2 sp r.2)) [] := by
  have hidle : ∀ priv, (RhizoPriv.destroy .zero priv h).wp lifeSpec (fun r acquired' =>
      (acquired' = [] ∧ r.2 = h) ∨ (acquired' ≠ [] ∧ ∃ sp, NameReleased 2 sp r.2)) [] := by
    intro priv
    refine Prog.wp_mono _ ?_ (wp_destroy_zero priv)
    rintro r _ ⟨hr, rfl⟩
    exact .inl ⟨rfl, hr⟩
  refine wp_privCreate_bind fun priv => ?_
  cases priv with
  | none => exact hidle none
  | some priv =>
    refine wp_life_bind (fun _ => rfl) fun ok => ?_
    cases ok with
    | false => exact hidle (some priv)
    | true =>
      refine Own.wp_seq (wp_fuseMain hostSocket uses) ?_
      rintro g h₁ acquired (⟨rfl, rfl, rfl⟩ | ⟨hne, hname⟩)
      · exact hidle (some priv)
      · refine Prog.wp_mono _ ?_ (wp_destroy hname)
        rintro r _ ⟨hreleased, rfl⟩
        exact .inr ⟨hne, g.socketpool, hreleased⟩

end Wp

/-! ## Released once -/

/-- Everything acquired has been released exactly once. -/
def ReleasedOnce (h : Heap) : Prop := h.freed = Multiset.range h.next

/-- The socket name was duplicated in the run. -/
def NameDuplicated (tr : List (Event LifeRet)) : Prop :=
  ∃ socketName, (⟨.dupSocketName socketName, true⟩ : Event LifeRet) ∈ tr

theorem nameAcquired_eq_some {ev : Event LifeRet} {u : Unit} :
    nameAcquired ev = some u ↔ ∃ socketName, ev = ⟨.dupSocketName socketName, true⟩ := by
  constructor
  · intro hev
    unfold nameAcquired at hev
    split at hev
    · exact ⟨_, rfl⟩
    · cases hev
  · rintro ⟨socketName, rfl⟩
    rfl

theorem nameDuplicated_iff (tr : List (Event LifeRet)) :
    NameDuplicated tr ↔ tr.filterMap nameAcquired ≠ [] := by
  constructor
  · rintro ⟨socketName, hmem⟩
    exact List.ne_nil_of_mem (a := ()) (List.mem_filterMap.mpr ⟨_, hmem, rfl⟩)
  · intro hne
    obtain ⟨u, hu⟩ := List.exists_mem_of_ne_nil _ hne
    obtain ⟨ev, hmem, hev⟩ := List.mem_filterMap.mp hu
    obtain ⟨socketName, rfl⟩ := nameAcquired_eq_some.mp hev
    exact ⟨socketName, hmem⟩

theorem not_releasedOnce {sp : OwnedPool} {h : Heap} (hname : NameReleased 2 sp h) :
    ¬ ReleasedOnce h := by
  obtain ⟨name, -, -, hcount⟩ := hname
  intro honce
  have hle := Multiset.nodup_iff_count_le_one.mp (Multiset.nodup_range h.next) name
  rw [← honce] at hle
  omega

/-- A second `SocketPool_deinit` releases the same again. -/
theorem OwnedPool.deinit_again_iff {sp : OwnedPool} {h h₁ h₂ : Heap}
    {tr₁ tr₂ : List (Event LifeRet)} (hfirst : (sp.deinit h).Traces tr₁ ((), h₁))
    (hagain : (sp.deinit h₁).Traces tr₂ ((), h₂)) : h₂ = h₁ ↔ sp.blocks = 0 := by
  rw [deinit_eq] at hfirst hagain
  obtain ⟨-, hfirst⟩ := hfirst
  obtain ⟨-, hagain⟩ := hagain
  cases hfirst
  cases hagain
  exact Heap.free_eq_self_iff

namespace OwnedAttrCache

/-- What `AttrCache_deinit` releases. -/
def blocks (c : OwnedAttrCache) : Multiset ℕ :=
  match c.hashtable with
  | none => 0
  | some t => t.contents.blocks + ({t.table} + {t.hash})

theorem lifeMem_deinit_bind {α : Type} (c : OwnedCache) (f : Unit → Own LifeRet α) (h : Heap) :
    (lifeMem c.deinit >>= f) h = f () (h.free c.blocks) := by
  change ((c.deinit h).translate _ >>= fun r => f r.1 r.2) = _
  rw [OwnedCache.deinit_eq]
  rfl

theorem traces_deinit {c c' : OwnedAttrCache} {h h' : Heap} {tr : List (Event LifeRet)}
    (hrun : (c.deinit h).Traces tr (c', h')) :
    h' = h.free c.blocks ∧ c'.hashtable = c.hashtable.map OwnedTable.cleared := by
  unfold deinit at hrun
  unfold blocks
  cases hc : c.hashtable with
  | none =>
    simp only [hc] at hrun
    obtain ⟨ok, tr₁, tr₂, -, -, hret⟩ := Own.traces_lift_bind.mp hrun
    obtain ⟨-, rfl, rfl⟩ := Own.traces_pure.mp hret
    exact ⟨h'.free_zero.symm, hc⟩
  | some t =>
    simp only [hc] at hrun
    rw [lifeMem_deinit_bind, Own.free_bind, Own.free_bind, Heap.free_free, Heap.free_free] at hrun
    obtain ⟨ok, tr₁, tr₂, -, -, hret⟩ := Own.traces_lift_bind.mp hrun
    obtain ⟨-, rfl, rfl⟩ := Own.traces_pure.mp hret
    exact ⟨rfl, rfl⟩

/-- A second `AttrCache_deinit` frees the table again. -/
theorem deinit_again_iff {c c₁ c₂ : OwnedAttrCache} {h h₁ h₂ : Heap}
    {tr₁ tr₂ : List (Event LifeRet)} (hfirst : (c.deinit h).Traces tr₁ (c₁, h₁))
    (hagain : (c₁.deinit h₁).Traces tr₂ (c₂, h₂)) : h₂ = h₁ ↔ c.hashtable = none := by
  obtain ⟨-, hc₁⟩ := traces_deinit hfirst
  obtain ⟨rfl, -⟩ := traces_deinit hagain
  rw [Heap.free_eq_self_iff, blocks, hc₁]
  cases c.hashtable with
  | none => exact iff_of_true rfl rfl
  | some t =>
    refine iff_of_false (fun hzero => ?_) nofun
    have hmem : t.table ∈ t.cleared.contents.blocks + ({t.table} + {t.hash}) := by simp
    exact Multiset.notMem_zero _ (Multiset.mem_of_le hzero.le hmem)

end OwnedAttrCache

/-- **Teardown releases each resource once if and only if there is none.** Once the socket name has
been duplicated it is released at least twice; before that the client has acquired nothing. A second
`SocketPool_deinit` or `AttrCache_deinit` releases nothing if and only if the first had nothing to
release. -/
theorem teardown_once_iff (hostSocket : CString) (uses : List CacheUse)
    {tr : List (Event LifeRet)} {h' : Heap}
    (hrun : (rhizofsFuseMain hostSocket uses .empty).Traces tr ((), h')) :
    (ReleasedOnce h' ↔ ¬ NameDuplicated tr) ∧
    (NameDuplicated tr → ∃ name < h'.next, 2 ≤ h'.freed.count name) ∧
    (∀ (sp : OwnedPool) h tr₁ h₁ tr₂ h₂, (sp.deinit h).Traces tr₁ ((), h₁) →
      (sp.deinit h₁).Traces tr₂ ((), h₂) → (h₂ = h₁ ↔ sp.blocks = 0)) ∧
    ∀ (c : OwnedAttrCache) h tr₁ c₁ h₁ tr₂ c₂ h₂, (c.deinit h).Traces tr₁ (c₁, h₁) →
      (c₁.deinit h₁).Traces tr₂ (c₂, h₂) → (h₂ = h₁ ↔ c.hashtable = none) := by
  have hends := Prog.wp_observing_traces (wp_rhizofsFuseMain hostSocket uses) hrun
    fun _ _ => trivial
  rw [nameDuplicated_iff]
  refine ⟨?_, ?_, ?_, ?_⟩
  · obtain ⟨hnil, rfl⟩ | ⟨hne, sp, hname⟩ := hends
    · exact iff_of_true rfl (not_not_intro hnil)
    · exact iff_of_false (not_releasedOnce hname) (not_not_intro hne)
  · intro hne
    obtain ⟨hnil, -⟩ | ⟨-, sp, name, -, hlt, hcount⟩ := hends
    · exact absurd hnil hne
    · exact ⟨name, hlt, hcount⟩
  · intro sp h tr₁ h₁ tr₂ h₂ hfirst hagain
    exact OwnedPool.deinit_again_iff hfirst hagain
  · intro c h tr₁ c₁ h₁ tr₂ c₂ h₂ hfirst hagain
    exact OwnedAttrCache.deinit_again_iff hfirst hagain

/-! ## Two runs -/

/-- A run in which the socket name cannot be duplicated. -/
theorem teardown_once_iff_noName : ∃ tr h',
    (rhizofsFuseMain [115] [] .empty).Traces tr ((), h') ∧ ReleasedOnce h' := by
  have hrun : (rhizofsFuseMain [115] [] .empty).Traces [⟨.alloc .record, true⟩, ⟨.zmqInit, some 0⟩,
      ⟨.prepare, true⟩, ⟨.fuseStarts, true⟩, ⟨.alloc .record, true⟩, ⟨.zmqInit, some 1⟩,
      ⟨.dupSocketName [115], false⟩, ⟨.mutexDestroy, true⟩, ⟨.ctxDestroy 1, ()⟩, ⟨.fuseExit, ()⟩,
      ⟨.fuseDestroys, false⟩, ⟨.ctxDestroy 0, ()⟩] ((), .empty) := by
    exact ⟨_, _, rfl, _, _, rfl, _, _, rfl, _, _, rfl, _, _, rfl, _, _, rfl, _, _, rfl, _, _, rfl,
      _, _, rfl, _, _, rfl, _, _, rfl, _, _, rfl, rfl, rfl⟩
  refine ⟨_, _, hrun, (teardown_once_iff [115] [] hrun).1.mpr ?_⟩
  rintro ⟨socketName, hmem⟩
  simp at hmem

/-- The file system is mounted, not used, and unmounted: the socket name and the thread key are each
released three times. -/
theorem not_teardown_once : ∃ tr h', (rhizofsFuseMain [115] [] .empty).Traces tr ((), h') ∧
    h'.freed.count 0 = 3 ∧ h'.freed.count 1 = 3 ∧ ¬ ReleasedOnce h' := by
  have hrun : (rhizofsFuseMain [115] [] .empty).Traces [⟨.alloc .record, true⟩, ⟨.zmqInit, some 0⟩,
      ⟨.prepare, true⟩, ⟨.fuseStarts, true⟩, ⟨.alloc .record, true⟩, ⟨.zmqInit, some 1⟩,
      ⟨.dupSocketName [115], true⟩, ⟨.keyCreate, some 1⟩, ⟨.alloc .record, true⟩,
      ⟨.alloc (.entries INIT_SIZE), true⟩, ⟨.mutexInit, true⟩, ⟨.mutexDestroy, true⟩,
      ⟨.fuseGetContext, true⟩, ⟨.ctxDestroy 1, ()⟩, ⟨.ctxDestroy 0, ()⟩]
      ((), ⟨4, {0, 1, 3, 2, 0, 1, 0, 1}, 0⟩) := by
    exact ⟨_, _, rfl, _, _, rfl, _, _, rfl, _, _, rfl, _, _, rfl, _, _, rfl, _, _, rfl, _, _, rfl,
      _, _, rfl, _, _, rfl, _, _, rfl, _, _, rfl, _, _, rfl, _, _, rfl, _, _, rfl, rfl, rfl⟩
  refine ⟨_, _, hrun, by decide, by decide, fun honce => ?_⟩
  exact absurd (congrArg (Multiset.count 0) honce) (by decide)

end Rhizofs.Ownership
