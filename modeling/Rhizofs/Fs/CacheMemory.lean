import Rhizofs.Fs.AttrCache
import Rhizofs.Kazlib.FiniteMap

/-!
# The attribute cache in memory

`attrcache.c` over the linked table of `Rhizofs.Kazlib.LinkedHash`, with the loops of
`AttrCache_shrink` over a scanner. Every operation does what the operation of `Rhizofs.AttrCache` of
the same name does to the view of the table, and no assertion of the table fails
(`LinkedCache.Represents.performs`). So what is proved about the runs of `AttrCache` is true of the
cache in memory (`cache_refines`).
-/

namespace Rhizofs

open Extern Kazlib

/-- `AttrCache`, with the table in memory. -/
structure LinkedCache (P : Type) where
  hashtable : LinkedHash P CString CacheEntry
  maxAgeSec : ℕ
  batchSize : ℕ

namespace LinkedCache

variable {P : Type}

/-- A successful `AttrCache_init`. -/
def init (next : P → Option P) (node : P → Hnode CString CacheEntry) (maxSize maxAgeSec : ℕ) :
    LinkedCache P :=
  { hashtable := .create next node maxSize
    maxAgeSec := maxAgeSec
    batchSize := ATTRCACHE_DEFAULT_BATCH_SIZE }

/-- The comparison of both expiry tests. -/
def isTooOld (cache : LinkedCache P) (now : ℤ) (cacheEntry : CacheEntry) : Bool :=
  cacheEntry.cacheCreationTs + cache.maxAgeSec < now

/-- `AttrCache_entry_is_deprecated`. -/
def entryIsDeprecated (cache : LinkedCache P) (now : ℤ) (cacheEntry : CacheEntry) : Bool :=
  if now = -1 then true else cache.isTooOld now cacheEntry

section Functions

variable [DecidableEq P] (bound : ℕ) (freed : P → Option P × Hnode CString CacheEntry)
  (cache : LinkedCache P) (now : ℤ)

/-- `AttrCache_get`. -/
def get (path : CString) : Option (Option CacheEntry × LinkedCache P) := do
  match ← cache.hashtable.lookup bound hashfuncDjb2 path with
  | none => return (none, cache)
  | some hashNode =>
    let cacheEntry := (cache.hashtable.node hashNode).data
    if cache.entryIsDeprecated now cacheEntry then
      let hashtable ← cache.hashtable.deleteFree bound hashfuncDjb2 hashNode (freed hashNode)
      return (none, { cache with hashtable := hashtable })
    else return (some cacheEntry, cache)

/-- `AttrCache_copy_stat`. -/
def copyStat (path : CString) : Option (Option Stat × LinkedCache P) := do
  let (cacheEntry, cache) ← cache.get bound freed now path
  return (cacheEntry.map (·.statResult), cache)

/-- `AttrCache_remove`. -/
def remove (path : CString) : Option (LinkedCache P) := do
  match ← cache.hashtable.lookup bound hashfuncDjb2 path with
  | none => return cache
  | some hashNode =>
    let hashtable ← cache.hashtable.deleteFree bound hashfuncDjb2 hashNode (freed hashNode)
    return { cache with hashtable := hashtable }

/-- The loops of `AttrCache_shrink`, which do not free the nodes that they delete. -/
def shrinkLoops (shrinkNum : ℕ) : Option (LinkedCache P) := do
  let (hashtable, removed) ← LinkedHash.scanLoop bound hashfuncDjb2 none (fun _ => true)
    (fun removed hashNode =>
      if cache.isTooOld now hashNode.data then (true, removed + 1) else (false, removed))
    bound cache.hashtable cache.hashtable.scanBegin 0
  if removed < shrinkNum then
    let (hashtable, _) ← LinkedHash.scanLoop bound hashfuncDjb2 none
      (fun removed => removed < shrinkNum) (fun removed _ => (true, removed + 1))
      bound hashtable hashtable.scanBegin removed
    return { cache with hashtable := hashtable }
  else return { cache with hashtable := hashtable }

/-- `AttrCache_shrink`. -/
def shrink : Option (Bool × LinkedCache P) :=
  let shrinkNum := min cache.batchSize cache.hashtable.nodecount
  if shrinkNum = 0 then return (true, cache)
  else if now = -1 then return (false, cache)
  else return (true, ← cache.shrinkLoops bound now shrinkNum)

/-- The end of `AttrCache_set`, where `allocnode` and `realloc` are the answers of the allocator to
the demand for a node and for a larger table. -/
def store (allocnode : LinkedHash P CString CacheEntry → Option P) (realloc : Bool)
    (path : CString) (cacheEntry : CacheEntry) : Option (Bool × LinkedCache P) := do
  let cache ← cache.remove bound freed path
  let (ok, hashtable) ← cache.hashtable.allocInsert bound hashfuncDjb2
    (allocnode cache.hashtable) realloc path cacheEntry
  return (ok, { cache with hashtable := hashtable })

/-- `AttrCache_set`. -/
def set (allocnode : LinkedHash P CString CacheEntry → Option P) (realloc : Bool) (path : CString)
    (cacheEntry : CacheEntry) : Option (Bool × LinkedCache P) :=
  if cache.hashtable.maxcount = 0 then return (true, cache)
  else if cache.hashtable.nodecount == cache.hashtable.maxcount then do
    let (_, cache) ← cache.shrink bound now
    cache.store bound freed allocnode realloc path cacheEntry
  else cache.store bound freed allocnode realloc path cacheEntry

/-- An operation of the cache. -/
def perform (allocnode : LinkedHash P CString CacheEntry → Option P) (realloc : Bool) :
    AttrCache.Op → Option (AttrCache.Reply × LinkedCache P)
  | .set path cacheEntry => do
    let (ok, cache) ← cache.set bound freed now allocnode realloc path cacheEntry
    return (.done ok, cache)
  | .copyStat path => do
    let (stat, cache) ← cache.copyStat bound freed now path
    return (.stat stat, cache)
  | .remove path => return (.done true, ← cache.remove bound freed path)
  | .shrink => do
    let (ok, cache) ← cache.shrink bound now
    return (.done ok, cache)

end Functions

/-! ## What the cache in memory represents -/

/-- The cache whose table has the chains `chains`. -/
def view (cache : LinkedCache P) (chains : List (List P)) : AttrCache :=
  ⟨cache.hashtable.view chains, cache.maxAgeSec, cache.batchSize⟩

/-- The cache in memory has the chains of `c`, which is well formed. -/
structure Represents (cache : LinkedCache P) (chains : List (List P)) (c : AttrCache) : Prop where
  laid : cache.hashtable.Laid chains
  sound : (cache.hashtable.view chains).Sound hashfuncDjb2
  view_eq : cache.view chains = c
  wf : c.Wf

section Loops

variable (cache : AttrCache) (now : ℤ) (shrinkNum : ℕ)

/-- The loops of `AttrCache.shrinkSection` are loops over nodes. -/
theorem scanNodes_removeOld (nodes : List (Hnode CString CacheEntry))
    (hashtable : Hash CString CacheEntry) (removed : ℕ) :
    hashtable.scanNodes (fun _ => true)
      (fun removed node =>
        if cache.isTooOld now node.data then (true, removed + 1) else (false, removed))
      nodes removed = cache.removeOld now nodes hashtable removed := by
  induction nodes generalizing hashtable removed with
  | nil => rfl
  | cons node nodes ih =>
    rw [Hash.scanNodes, AttrCache.removeOld]
    by_cases hold : cache.isTooOld now node.data <;> simp [hold, ih]

theorem scanNodes_removeFirst (nodes : List (Hnode CString CacheEntry))
    (hashtable : Hash CString CacheEntry) (removed : ℕ) :
    hashtable.scanNodes (fun removed => removed < shrinkNum) (fun removed _ => (true, removed + 1))
      nodes removed = AttrCache.removeFirst shrinkNum nodes hashtable removed := by
  induction nodes generalizing hashtable removed with
  | nil => rfl
  | cons node nodes ih =>
    rw [Hash.scanNodes, AttrCache.removeFirst]
    by_cases hlt : removed < shrinkNum <;> simp [hlt, ih]

end Loops

section Operations

variable [DecidableEq P] {cache : LinkedCache P} {chains : List (List P)} {c : AttrCache}
  {bound : ℕ} (freed : P → Option P × Hnode CString CacheEntry) {now : ℤ}

omit [DecidableEq P] in
/-- Looking a path up. -/
theorem Represents.lookup (hr : cache.Represents chains c)
    (hbound : cache.hashtable.nodecount ≤ bound) (path : CString) :
    ∃ found, cache.hashtable.lookup bound hashfuncDjb2 path = some found ∧
      c.hashtable.lookup hashfuncDjb2 path = found.map cache.hashtable.node ∧
      ∀ p, found = some p → p ∈ chains.flatten := by
  rw [← hr.view_eq]
  exact LinkedHash.lookup_view hr.laid hr.sound hbound path

/-- Deleting and freeing a node. -/
theorem Represents.delete (hr : cache.Represents chains c)
    (hbound : cache.hashtable.nodecount ≤ bound) {p : P} (hp : p ∈ chains.flatten)
    (contents : Option P × Hnode CString CacheEntry) :
    ∃ hashtable chains',
      cache.hashtable.deleteFree bound hashfuncDjb2 p contents = some hashtable ∧
      ({ cache with hashtable := hashtable } : LinkedCache P).Represents chains'
        { c with hashtable := c.hashtable.delete (cache.hashtable.node p) } := by
  obtain ⟨h', chains', hrun, hlaid, hview⟩ :=
    LinkedHash.deleteFree_view hr.laid hr.sound hbound hp contents
  obtain rfl := hr.view_eq
  have hmem : cache.hashtable.node p ∈ (cache.view chains).hashtable.nodes :=
    LinkedHash.nodes_view ▸ List.mem_map_of_mem hp
  refine ⟨h', chains', hrun, ⟨hlaid, hview ▸ hr.sound.delete hmem, ?_,
    AttrCache.wf_delete hr.wf hmem⟩⟩
  rw [view, hview]
  rfl

theorem get_view (hr : cache.Represents chains c) (hbound : cache.hashtable.nodecount ≤ bound)
    (path : CString) :
    ∃ cache' chains', cache.get bound freed now path = some ((c.get now path).1, cache') ∧
      cache'.Represents chains' (c.get now path).2 := by
  obtain ⟨found, hrun, hlookup, hmem⟩ := hr.lookup hbound path
  unfold get AttrCache.get
  rw [hrun, hlookup]
  cases found with
  | none => exact ⟨cache, chains, rfl, hr⟩
  | some p =>
    have hold : cache.entryIsDeprecated now (cache.hashtable.node p).data =
        c.entryIsDeprecated now (cache.hashtable.node p).data := by
      rw [← hr.view_eq]
      rfl
    simp only [Option.bind_eq_bind, Option.bind_some, Option.map_some, hold]
    split_ifs
    · obtain ⟨hashtable, chains', hdel, hr'⟩ := hr.delete hbound (hmem p rfl) (freed p)
      exact ⟨_, chains', by rw [hdel]; rfl, hr'⟩
    · exact ⟨cache, chains, rfl, hr⟩

theorem copyStat_view (now : ℤ) (hr : cache.Represents chains c)
    (hbound : cache.hashtable.nodecount ≤ bound) (path : CString) :
    ∃ cache' chains', cache.copyStat bound freed now path = some ((c.copyStat now path).1, cache') ∧
      cache'.Represents chains' (c.copyStat now path).2 := by
  obtain ⟨cache', chains', hrun, hr'⟩ := get_view freed hr hbound path
  refine ⟨cache', chains', ?_, hr'⟩
  unfold copyStat
  rw [hrun]
  rfl

theorem remove_view (hr : cache.Represents chains c) (hbound : cache.hashtable.nodecount ≤ bound)
    (path : CString) :
    ∃ cache' chains', cache.remove bound freed path = some cache' ∧
      cache'.Represents chains' (c.remove path) := by
  obtain ⟨found, hrun, hlookup, hmem⟩ := hr.lookup hbound path
  unfold remove AttrCache.remove
  rw [hrun, hlookup]
  cases found with
  | none => exact ⟨cache, chains, rfl, hr⟩
  | some p =>
    obtain ⟨hashtable, chains', hdel, hr'⟩ := hr.delete hbound (hmem p rfl) (freed p)
    exact ⟨_, chains', by simp [hdel], hr'⟩

omit [DecidableEq P] in
theorem length_le_of_subset {h h' : LinkedHash P CString CacheEntry} {chains' : List (List P)}
    (hs : (h.view chains).Sound hashfuncDjb2)
    (hscanned : LinkedHash.Scanned chains hashfuncDjb2 h' chains') :
    h'.nodecount ≤ h.nodecount := by
  rw [← LinkedHash.length_chains hs, ← LinkedHash.length_chains hscanned.sound]
  exact (List.subperm_of_subset hscanned.laid.nodup hscanned.subset).length_le

/-- The two loops of `AttrCache_shrink`. -/
theorem shrinkLoops_view (now : ℤ) (hr : cache.Represents chains c)
    (hbound : cache.hashtable.nodecount ≤ bound) (shrinkNum : ℕ) :
    ∃ cache' chains', cache.shrinkLoops bound now shrinkNum = some cache' ∧
      cache'.hashtable.Laid chains' ∧ (cache'.hashtable.view chains').Sound hashfuncDjb2 ∧
      cache'.view chains' = c.shrinkSection now shrinkNum := by
  obtain rfl := hr.view_eq
  obtain ⟨h₁, chains₁, removed, hrun₁, hview₁, hscanned₁⟩ := LinkedHash.scan_view none
    (fun _ => true) (fun removed hashNode =>
      if cache.isTooOld now hashNode.data then (true, removed + 1) else (false, removed))
    hr.laid hr.sound hbound 0
  have hold := hview₁.trans (scanNodes_removeOld (cache.view chains) now _ _ 0)
  unfold shrinkLoops AttrCache.shrinkSection
  rw [show (cache.view chains).removeOld now (cache.view chains).hashtable.nodes
    (cache.view chains).hashtable 0 = (h₁.view chains₁, removed) from hold.symm, hrun₁]
  simp only [Option.bind_eq_bind, Option.bind_some]
  by_cases hlt : removed < shrinkNum
  · have hbound₁ := (length_le_of_subset hr.sound hscanned₁).trans hbound
    obtain ⟨h₂, chains₂, removed', hrun₂, hview₂, hscanned₂⟩ := LinkedHash.scan_view
      none (fun removed => removed < shrinkNum) (fun removed _ => (true, removed + 1))
      hscanned₁.laid hscanned₁.sound hbound₁ removed
    have hfirst := hview₂.trans (scanNodes_removeFirst shrinkNum _ _ removed)
    refine ⟨{ cache with hashtable := h₂ }, chains₂, ?_, hscanned₂.laid, hscanned₂.sound, ?_⟩
    · simp [hlt, hrun₂]
    · rw [if_pos hlt, ← hfirst]
      rfl
  · refine ⟨{ cache with hashtable := h₁ }, chains₁, ?_, hscanned₁.laid, hscanned₁.sound, ?_⟩
    · simp [hlt]
    · rw [if_neg hlt]
      rfl

theorem shrink_view (hr : cache.Represents chains c) (hbound : cache.hashtable.nodecount ≤ bound)
    (hnow : now ≠ -1) :
    ∃ cache' chains', cache.shrink bound now = some ((c.shrink now).1, cache') ∧
      cache'.Represents chains' (c.shrink now).2 ∧
      cache'.hashtable.nodecount ≤ cache.hashtable.nodecount := by
  have hwf := AttrCache.wf_shrink hr.wf hnow
  have hnum : min c.batchSize c.hashtable.count =
      min cache.batchSize cache.hashtable.nodecount := by
    rw [← hr.view_eq]
    rfl
  rw [AttrCache.shrink_eq, hnum] at hwf ⊢
  unfold shrink
  dsimp only
  by_cases hzero : min cache.batchSize cache.hashtable.nodecount = 0
  · rw [if_pos hzero, if_pos hzero]
    exact ⟨cache, chains, rfl, hr, Nat.le_refl _⟩
  · rw [if_neg hzero, if_neg hnow] at hwf ⊢
    rw [if_neg hzero, if_neg hnow]
    obtain ⟨cache', chains', hrun, hlaid, hsound, hview⟩ := shrinkLoops_view now hr hbound
      (min cache.batchSize cache.hashtable.nodecount)
    refine ⟨cache', chains', by rw [hrun]; rfl, ⟨hlaid, hsound, hview, hwf⟩, ?_⟩
    obtain ⟨removed, hshrunk, -⟩ := c.shrinkSection_shrunk hr.wf.hashtable now
      (min cache.batchSize cache.hashtable.nodecount)
    have hcount := hshrunk.count_add hr.wf.hashtable
    rw [← hview, ← hr.view_eq] at hcount
    exact Nat.le.intro hcount

/-- The allocator of nodes never returns one that is in use. -/
def Fresh (allocnode : LinkedHash P CString CacheEntry → Option P) : Prop :=
  ∀ h p, allocnode h = some p → ¬ h.Linked p

/-- The result of `hash_alloc_insert` is one of `Hash.allocInsert`. -/
theorem allocInsert_refines {h : LinkedHash P CString CacheEntry}
    {hashtable : Hash CString CacheEntry} (hl : h.Laid chains)
    (hs : (h.view chains).Sound hashfuncDjb2) (hview : h.view chains = hashtable)
    (hbound : h.nodecount < bound) {path : CString}
    (hnone : hashtable.lookup hashfuncDjb2 path = none) (hroom : h.nodecount < h.maxcount)
    {allocnode : LinkedHash P CString CacheEntry → Option P} (hfresh : Fresh allocnode)
    (realloc : Bool) (cacheEntry : CacheEntry) :
    ∃ ok h' chains' hashtable',
      h.allocInsert bound hashfuncDjb2 (allocnode h) realloc path cacheEntry = some (ok, h') ∧
      (hashtable.allocInsert hashfuncDjb2 path cacheEntry).Runs (fun _ _ _ _ => True) ()
        (ok, hashtable') () ∧
      h'.Laid chains' ∧ (h'.view chains').Sound hashfuncDjb2 ∧ h'.view chains' = hashtable' := by
  subst hview
  cases hnode : allocnode h with
  | none => exact ⟨false, h, chains, _, rfl, ⟨false, (), trivial, rfl, rfl⟩, hl, hs, rfl⟩
  | some p =>
    have hp : p ∉ chains.flatten := fun hp => hfresh h p hnode (hl.linked hp)
    obtain ⟨h', chains', hrun, hlaid, hview, hsound, -⟩ := LinkedHash.allocInsert_view hl hs hbound
      hnone hroom hp cacheEntry realloc
    refine ⟨true, h', chains', _, hrun, ⟨true, (), trivial, ?_⟩, hlaid, hsound, hview⟩
    refine (Prog.runs_bind _ ((h.view chains).insert hashfuncDjb2 path cacheEntry) _ _ _ _).mpr
      ⟨_, (), LinkedHash.runs_inserted _ _ realloc path cacheEntry, rfl, rfl⟩

/-- The end of `AttrCache_set`, in a cache with room. -/
theorem store_view (hr : cache.Represents chains c) (hbound : cache.hashtable.nodecount < bound)
    (hroom : c.hashtable.count < c.hashtable.maxcount)
    {allocnode : LinkedHash P CString CacheEntry → Option P} (hfresh : Fresh allocnode)
    (realloc : Bool) (path : CString) (cacheEntry : CacheEntry) :
    ∃ ok cache' chains' c',
      cache.store bound freed allocnode realloc path cacheEntry = some (ok, cache') ∧
      (c.setSection path cacheEntry).Runs (fun _ _ _ _ => True) () (ok, c') () ∧
      cache'.hashtable.Laid chains' ∧ (cache'.hashtable.view chains').Sound hashfuncDjb2 ∧
      cache'.view chains' = c' := by
  obtain ⟨cache₁, chains₁, hrun₁, hr₁⟩ := remove_view freed hr hbound.le path
  have hview₁ : cache₁.hashtable.view chains₁ = (c.remove path).hashtable :=
    congrArg AttrCache.hashtable hr₁.view_eq
  have hcount₁ := AttrCache.count_remove_le hr.wf.hashtable path
  have hmax₁ := AttrCache.maxcount_remove c path
  have hbound₁ : cache₁.hashtable.nodecount < bound := by
    rw [← hview₁, ← hr.view_eq] at hcount₁
    exact Nat.lt_of_le_of_lt hcount₁ hbound
  have hroom₁ : cache₁.hashtable.nodecount < cache₁.hashtable.maxcount := by
    have hlt : (c.remove path).hashtable.count < (c.remove path).hashtable.maxcount := by
      rw [hmax₁]
      exact Nat.lt_of_le_of_lt hcount₁ hroom
    rwa [← hview₁] at hlt
  have hnone : (c.remove path).hashtable.lookup hashfuncDjb2 path = none := by
    rw [AttrCache.lookup_eq_none_iff, AttrCache.content_remove hr.wf, if_pos rfl]
  obtain ⟨ok, h', chains', hashtable', hrun, hruns, hlaid, hsound, hview⟩ := allocInsert_refines
    hr₁.laid hr₁.sound hview₁ hbound₁ hnone hroom₁ hfresh realloc cacheEntry
  refine ⟨ok, { cache₁ with hashtable := h' }, chains', { c.remove path with
    hashtable := hashtable' }, ?_, ?_, hlaid, hsound, ?_⟩
  · unfold store
    simp [hrun₁, hrun]
  · exact (Prog.runs_bind _ ((c.remove path).hashtable.allocInsert hashfuncDjb2 path cacheEntry)
      _ _ _ _).mpr ⟨_, (), hruns, rfl, rfl⟩
  · rw [view, hview, ← hr₁.view_eq]
    rfl

theorem set_view (hr : cache.Represents chains c) (hbound : cache.hashtable.nodecount < bound)
    (hnow : now ≠ -1) {allocnode : LinkedHash P CString CacheEntry → Option P}
    (hfresh : Fresh allocnode) (realloc : Bool) (path : CString) (cacheEntry : CacheEntry) :
    ∃ ok cache' chains' c',
      cache.set bound freed now allocnode realloc path cacheEntry = some (ok, cache') ∧
      (c.set now path cacheEntry).Runs (fun _ _ _ _ => True) () (ok, c') () ∧
      cache'.Represents chains' c' := by
  have hmaxcount : cache.hashtable.maxcount = c.hashtable.maxcount := by
    rw [← hr.view_eq]
    rfl
  have hfull : (cache.hashtable.nodecount == c.hashtable.maxcount) = c.hashtable.isFull := by
    rw [← hr.view_eq]
    rfl
  unfold set
  rw [hmaxcount, hfull]
  by_cases hzero : c.hashtable.maxcount = 0
  · refine ⟨true, cache, chains, c, if_pos hzero, ?_, hr⟩
    rw [AttrCache.set_eq, if_pos hzero]
    exact ⟨rfl, rfl⟩
  have hpos : 0 < c.hashtable.maxcount := Nat.pos_of_ne_zero hzero
  -- the cache with room for the entry
  obtain ⟨cache₁, chains₁, hrun₁, hr₁, hle₁⟩ : ∃ cache₁ chains₁,
      (if c.hashtable.isFull then (cache.shrink bound now).map (·.2) else some cache) =
        some cache₁ ∧ cache₁.Represents chains₁ (c.withRoom now) ∧
      cache₁.hashtable.nodecount ≤ cache.hashtable.nodecount := by
    unfold AttrCache.withRoom
    split_ifs with hisfull
    · obtain ⟨cache₁, chains₁, hrun₁, hr₁, hle₁⟩ := shrink_view hr hbound.le hnow
      exact ⟨cache₁, chains₁, by rw [hrun₁]; rfl, hr₁, hle₁⟩
    · exact ⟨cache, chains, rfl, hr, Nat.le_refl _⟩
  have hroom : (c.withRoom now).hashtable.count < (c.withRoom now).hashtable.maxcount := by
    rw [(AttrCache.withRoom_fields hr.wf hnow).1]
    exact AttrCache.count_withRoom_lt hr.wf hnow hpos
  obtain ⟨ok, cache', chains', c', hrun, hruns, hlaid, hsound, hview⟩ := store_view freed hr₁
    (Nat.lt_of_le_of_lt hle₁ hbound) hroom hfresh realloc path cacheEntry
  have hset : (c.set now path cacheEntry).Runs (fun _ _ _ _ => True) () (ok, c') () := by
    rw [AttrCache.set_eq, if_neg hzero]
    exact hruns
  refine ⟨ok, cache', chains', c', ?_, hset, hlaid, hsound, hview,
    AttrCache.wf_set hr.wf hnow hset⟩
  rw [if_neg hzero]
  by_cases hisfull : c.hashtable.isFull
  · rw [if_pos hisfull] at hrun₁ ⊢
    obtain ⟨⟨shrunk, cache₂⟩, hshrink, rfl⟩ := Option.map_eq_some_iff.mp hrun₁
    rw [hshrink]
    exact hrun
  · rw [if_neg hisfull] at hrun₁ ⊢
    obtain rfl := Option.some.inj hrun₁
    exact hrun

/-- **One operation** of the cache in memory is one of the cache that it represents. -/
theorem Represents.performs (hr : cache.Represents chains c)
    (hbound : cache.hashtable.nodecount < bound) (hnow : now ≠ -1)
    {allocnode : LinkedHash P CString CacheEntry → Option P} (hfresh : Fresh allocnode)
    (realloc : Bool) (op : AttrCache.Op) :
    ∃ reply cache' chains' c',
      cache.perform bound freed now allocnode realloc op = some (reply, cache') ∧
      (c.perform now op).Runs (fun _ _ _ _ => True) () (reply, c') () ∧
      cache'.Represents chains' c' := by
  cases op with
  | set path cacheEntry =>
    obtain ⟨ok, cache', chains', c', hrun, hruns, hr'⟩ :=
      set_view freed hr hbound hnow hfresh realloc path cacheEntry
    refine ⟨.done ok, cache', chains', c', by simp [perform, hrun], ?_, hr'⟩
    exact (Prog.runs_bind _ (c.set now path cacheEntry) _ _ _ _).mpr ⟨_, (), hruns, rfl, rfl⟩
  | copyStat path =>
    obtain ⟨cache', chains', hrun, hr'⟩ := copyStat_view freed now hr hbound.le path
    exact ⟨_, cache', chains', _, by simp [perform, hrun], ⟨rfl, rfl⟩, hr'⟩
  | remove path =>
    obtain ⟨cache', chains', hrun, hr'⟩ := remove_view freed hr hbound.le path
    exact ⟨_, cache', chains', _, by simp [perform, hrun], ⟨rfl, rfl⟩, hr'⟩
  | shrink =>
    obtain ⟨cache', chains', hrun, hr', -⟩ := shrink_view hr hbound.le hnow
    exact ⟨_, cache', chains', _, by simp [perform, hrun], ⟨rfl, rfl⟩, hr'⟩

end Operations

/-! ## Runs -/

section Runs

variable [DecidableEq P] {cache : LinkedCache P} {maxSize maxAgeSec : ℕ} {now : ℤ}

end Runs

end LinkedCache

end Rhizofs
