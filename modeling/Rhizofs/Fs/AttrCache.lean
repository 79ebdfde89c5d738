import Rhizofs.Foundations.ExpiringMap
import Rhizofs.Kazlib.Hash

/-!
# The attribute cache

`attrcache.c` over the hash table. Every operation that looks at the clock takes the reading `now`
of `time()`, which is -1 when the call fails; storing an entry allocates, so it is a program over
`MemRet`.

Under the invariant `Wf` the cache is a map from paths to entries, its `content`. A run of
operations keeps the content in step with the specification `ExpiringMap`
(`Run.reflects`), from which the laws of the cache follow (`run_laws`).
-/

namespace Rhizofs

open Extern Kazlib

/-- `Hashfunc_djb2`. -/
def hashfuncDjb2 (str : CString) : ℕ :=
  str.foldl (fun hash c => (hash <<< 5 + hash + c.toNat) % 2 ^ 64) 5381

/-- `CacheEntry`. -/
structure CacheEntry where
  statResult : Stat
  cacheCreationTs : ℤ

/-- `AttrCache`. -/
structure AttrCache where
  hashtable : Hash CString CacheEntry
  maxAgeSec : ℕ
  batchSize : ℕ

def ATTRCACHE_DEFAULT_BATCH_SIZE : ℕ := 50

namespace AttrCache

/-- A successful `AttrCache_init`. -/
def init (maxSize maxAgeSec : ℕ) : AttrCache :=
  { hashtable := .create maxSize
    maxAgeSec := maxAgeSec
    batchSize := ATTRCACHE_DEFAULT_BATCH_SIZE }

/-- The comparison of both expiry tests. -/
def isTooOld (cache : AttrCache) (now : ℤ) (cacheEntry : CacheEntry) : Bool :=
  cacheEntry.cacheCreationTs + cache.maxAgeSec < now

/-- `AttrCache_entry_is_deprecated`. -/
def entryIsDeprecated (cache : AttrCache) (now : ℤ) (cacheEntry : CacheEntry) : Bool :=
  if now = -1 then true else cache.isTooOld now cacheEntry

/-- `AttrCache_get`: the entry, and the cache from which an old entry is deleted. -/
def get (cache : AttrCache) (now : ℤ) (path : CString) : Option CacheEntry × AttrCache :=
  match cache.hashtable.lookup hashfuncDjb2 path with
  | none => (none, cache)
  | some node =>
    if cache.entryIsDeprecated now node.data then
      (none, { cache with hashtable := cache.hashtable.delete node })
    else (some node.data, cache)

/-- `AttrCache_copy_stat`. -/
def copyStat (cache : AttrCache) (now : ℤ) (path : CString) : Option Stat × AttrCache :=
  ((cache.get now path).1.map (·.statResult), (cache.get now path).2)

/-- The first loop of `AttrCache_shrink` over the scanned nodes: the table without the old
entries, and the number of nodes removed. -/
def removeOld (cache : AttrCache) (now : ℤ) :
    List (Hnode CString CacheEntry) → Hash CString CacheEntry → ℕ → Hash CString CacheEntry × ℕ
  | [], hashtable, removed => (hashtable, removed)
  | node :: scan, hashtable, removed =>
    if cache.isTooOld now node.data then
      cache.removeOld now scan (hashtable.scanDelete node) (removed + 1)
    else cache.removeOld now scan hashtable removed

/-- The second loop: remove the first nodes until `shrinkNum` are gone. -/
def removeFirst (shrinkNum : ℕ) :
    List (Hnode CString CacheEntry) → Hash CString CacheEntry → ℕ → Hash CString CacheEntry × ℕ
  | [], hashtable, removed => (hashtable, removed)
  | node :: scan, hashtable, removed =>
    if removed < shrinkNum then removeFirst shrinkNum scan (hashtable.scanDelete node) (removed + 1)
    else (hashtable, removed)

/-- `AttrCache_shrink`. -/
def shrink (cache : AttrCache) (now : ℤ) : Bool × AttrCache :=
  let shrinkNum := min cache.batchSize cache.hashtable.count
  if shrinkNum = 0 then (true, cache)
  else if now = -1 then (false, cache)
  else
    let (hashtable, removed) := cache.removeOld now cache.hashtable.nodes cache.hashtable 0
    let (hashtable, _) :=
      if removed < shrinkNum then removeFirst shrinkNum hashtable.nodes hashtable removed
      else (hashtable, removed)
    (true, { cache with hashtable := hashtable })

/-- The part of `AttrCache_shrink` under the mutex. -/
def shrinkSection (cache : AttrCache) (now : ℤ) (shrinkNum : ℕ) : AttrCache :=
  let (hashtable, removed) := cache.removeOld now cache.hashtable.nodes cache.hashtable 0
  let (hashtable, _) :=
    if removed < shrinkNum then removeFirst shrinkNum hashtable.nodes hashtable removed
    else (hashtable, removed)
  { cache with hashtable := hashtable }

theorem shrink_eq (cache : AttrCache) (now : ℤ) :
    cache.shrink now =
      if min cache.batchSize cache.hashtable.count = 0 then (true, cache)
      else if now = -1 then (false, cache)
      else (true, cache.shrinkSection now (min cache.batchSize cache.hashtable.count)) := rfl

/-- `AttrCache_remove`. -/
def remove (cache : AttrCache) (path : CString) : AttrCache :=
  match cache.hashtable.lookup hashfuncDjb2 path with
  | none => cache
  | some node => { cache with hashtable := cache.hashtable.delete node }

/-- `AttrCache_set`. -/
def set (cache : AttrCache) (now : ℤ) (path : CString) (cacheEntry : CacheEntry) :
    Prog MemRet (Bool × AttrCache) := do
  if cache.hashtable.maxcount = 0 then return (true, cache)
  let cache := if cache.hashtable.isFull then (cache.shrink now).2 else cache
  -- the old entry is removed like by `AttrCache_remove`
  let cache := cache.remove path
  let (ok, hashtable) ← cache.hashtable.allocInsert hashfuncDjb2 path cacheEntry
  return (ok, { cache with hashtable := hashtable })

/-- The part of `AttrCache_set` under the mutex. -/
def setSection (cache : AttrCache) (path : CString) (cacheEntry : CacheEntry) :
    Prog MemRet (Bool × AttrCache) := do
  let cache := cache.remove path
  let (ok, hashtable) ← cache.hashtable.allocInsert hashfuncDjb2 path cacheEntry
  return (ok, { cache with hashtable := hashtable })

theorem set_eq (cache : AttrCache) (now : ℤ) (path : CString) (cacheEntry : CacheEntry) :
    cache.set now path cacheEntry =
      if cache.hashtable.maxcount = 0 then return (true, cache)
      else (if cache.hashtable.isFull then (cache.shrink now).2 else cache).setSection path
        cacheEntry := rfl

/-! ## The cache as a map -/

/-- The entry stored for a path. -/
def content (cache : AttrCache) (path : CString) : Option CacheEntry :=
  (cache.hashtable.lookup hashfuncDjb2 path).map (·.data)

/-- The paths with an entry. -/
def paths (cache : AttrCache) : List CString := cache.hashtable.nodes.map (·.key)

/-- The invariant of the cache: its table is well formed and not overfull. -/
structure Wf (cache : AttrCache) : Prop where
  hashtable : cache.hashtable.Wf hashfuncDjb2
  count_le : cache.hashtable.count ≤ cache.hashtable.maxcount
  batchSize_pos : 0 < cache.batchSize

section Map

variable {cache : AttrCache} {now : ℤ} {path : CString} {cacheEntry : CacheEntry}

theorem wf_init (maxSize maxAgeSec : ℕ) : (init maxSize maxAgeSec).Wf :=
  ⟨Hash.wf_create maxSize, Nat.zero_le _, Nat.succ_pos _⟩

theorem content_eq_some_iff (h : cache.Wf) :
    cache.content path = some cacheEntry ↔
      ∃ node ∈ cache.hashtable.nodes, node.key = path ∧ node.data = cacheEntry := by
  simp only [content, Option.map_eq_some_iff, Hash.lookup_eq_some_iff h.hashtable, and_assoc]

theorem content_eq_none_iff (h : cache.Wf) :
    cache.content path = none ↔ ∀ node ∈ cache.hashtable.nodes, node.key ≠ path := by
  rw [Option.eq_none_iff_forall_ne_some]
  simp only [ne_eq, content_eq_some_iff h]
  exact ⟨fun hn node hmem hk => hn node.data ⟨node, hmem, hk, rfl⟩,
    fun hn _ ⟨node, hmem, hk, _⟩ => hn node hmem hk⟩

theorem wf_delete (h : cache.Wf) {node : Hnode CString CacheEntry}
    (hmem : node ∈ cache.hashtable.nodes) :
    ({ cache with hashtable := cache.hashtable.delete node } : AttrCache).Wf where
  hashtable := Hash.wf_delete h.hashtable hmem
  count_le := by
    have hle := h.count_le
    rw [(Hash.wf_delete h.hashtable hmem).count_eq,
      (Hash.nodes_delete h.hashtable hmem).length_eq,
      Hash.length_filter_key h.hashtable hmem, ← h.hashtable.count_eq,
      Hash.maxcount_delete]
    exact (Nat.sub_le _ _).trans hle
  batchSize_pos := h.batchSize_pos

/-- Deleting the node of a path makes the content empty there and keeps it elsewhere. -/
theorem content_delete (h : cache.Wf) {node : Hnode CString CacheEntry}
    (hmem : node ∈ cache.hashtable.nodes) (path : CString) :
    ({ cache with hashtable := cache.hashtable.delete node } : AttrCache).content path =
      if path = node.key then none else cache.content path := by
  have hnodes := fun node' => (Hash.nodes_delete h.hashtable hmem).mem_iff (a := node')
  split_ifs with hpath
  · rw [content_eq_none_iff (wf_delete h hmem)]
    intro node' hmem'
    have := (List.mem_filter.mp ((hnodes node').mp hmem')).2
    simpa [hpath] using this
  · refine Option.ext fun cacheEntry => ?_
    rw [content_eq_some_iff (wf_delete h hmem), content_eq_some_iff h]
    constructor
    · rintro ⟨node', hmem', hk, hd⟩
      exact ⟨node', List.mem_of_mem_filter ((hnodes node').mp hmem'), hk, hd⟩
    · rintro ⟨node', hmem', rfl, hd⟩
      exact ⟨node', (hnodes node').mpr (List.mem_filter.mpr ⟨hmem', by simpa using hpath⟩),
        rfl, hd⟩

theorem lookup_eq_none_iff (cache : AttrCache) (path : CString) :
    cache.hashtable.lookup hashfuncDjb2 path = none ↔ cache.content path = none := by
  simp [content]

/-! ### One operation -/

theorem wf_remove (h : cache.Wf) (path : CString) : (cache.remove path).Wf := by
  unfold remove
  split
  · exact h
  · rename_i node hl
    exact wf_delete h (Hash.lookup_eq_some h.hashtable hl).1

/-- `remove` empties the content at its path and keeps it elsewhere. -/
theorem content_remove (h : cache.Wf) (path path' : CString) :
    (cache.remove path).content path' = if path' = path then none else cache.content path' := by
  unfold remove
  split
  · rename_i hl
    split_ifs with hp
    · rw [hp, ← lookup_eq_none_iff, hl]
    · rfl
  · rename_i node hl
    obtain ⟨hmem, rfl⟩ := Hash.lookup_eq_some h.hashtable hl
    exact content_delete h hmem path'

theorem get_eq (cache : AttrCache) (now : ℤ) (path : CString) :
    (cache.get now path).1 =
      (cache.content path).filter fun cacheEntry => !cache.entryIsDeprecated now cacheEntry := by
  unfold get content
  cases cache.hashtable.lookup hashfuncDjb2 path with
  | none => rfl
  | some node =>
    dsimp only [Option.map_some]
    split_ifs with hold <;> simp [Option.filter, hold]

theorem wf_get (h : cache.Wf) (now : ℤ) (path : CString) : (cache.get now path).2.Wf := by
  unfold get
  split
  · exact h
  · rename_i node hl
    split_ifs
    · exact wf_delete h (Hash.lookup_eq_some h.hashtable hl).1
    · exact h

/-- `get` changes the content only where it finds an old entry. -/
theorem content_get (h : cache.Wf) (now : ℤ) (path path' : CString) :
    (cache.get now path).2.content path' =
      if path' = path then (cache.get now path).1 else cache.content path' := by
  unfold get
  split
  · rename_i hl
    split_ifs with hp
    · rw [hp, ← lookup_eq_none_iff, hl]
    · rfl
  · rename_i node hl
    obtain ⟨hmem, hkey⟩ := Hash.lookup_eq_some h.hashtable hl
    split_ifs with hold hp hp
    · rw [content_delete h hmem, if_pos (hp.trans hkey.symm)]
    · rw [content_delete h hmem, if_neg (fun he => hp (he.trans hkey))]
    · rw [hp, content, hl, Option.map_some]
    · rfl

theorem hashtable_get (cache : AttrCache) (now : ℤ) (path : CString) :
    (cache.get now path).2.hashtable.maxcount = cache.hashtable.maxcount ∧
      (cache.get now path).2.maxAgeSec = cache.maxAgeSec := by
  unfold get
  split
  · exact ⟨rfl, rfl⟩
  · split_ifs
    · exact ⟨Hash.maxcount_delete _, rfl⟩
    · exact ⟨rfl, rfl⟩

end Map

/-! ### Shrinking -/

/-- A loop of `shrink` has taken nodes out of the table and counted them. -/
structure Shrunk (hashtable hashtable' : Hash CString CacheEntry) (removed removed' : ℕ) :
    Prop where
  wf : hashtable'.Wf hashfuncDjb2
  maxcount_eq : hashtable'.maxcount = hashtable.maxcount
  subset : hashtable'.nodes ⊆ hashtable.nodes
  count_eq : hashtable'.nodes.length + removed' = hashtable.nodes.length + removed

theorem Shrunk.refl {hashtable : Hash CString CacheEntry} (h : hashtable.Wf hashfuncDjb2)
    (removed : ℕ) : Shrunk hashtable hashtable removed removed :=
  ⟨h, rfl, fun _ hmem => hmem, rfl⟩

theorem Shrunk.trans {hashtable hashtable' hashtable'' : Hash CString CacheEntry}
    {removed removed' removed'' : ℕ} (h₁ : Shrunk hashtable hashtable' removed removed')
    (h₂ : Shrunk hashtable' hashtable'' removed' removed'') :
    Shrunk hashtable hashtable'' removed removed'' :=
  ⟨h₂.wf, h₂.maxcount_eq.trans h₁.maxcount_eq, fun _ hmem => h₁.subset (h₂.subset hmem),
    h₂.count_eq.trans h₁.count_eq⟩

theorem Shrunk.count_add {hashtable hashtable' : Hash CString CacheEntry} {removed : ℕ}
    (hs : Shrunk hashtable hashtable' 0 removed) (h : hashtable.Wf hashfuncDjb2) :
    hashtable'.count + removed = hashtable.count := by
  rw [h.count_eq, hs.wf.count_eq]
  exact hs.count_eq

/-- Taking nodes out keeps the cache well formed. -/
theorem wf_shrunk {cache : AttrCache} (h : cache.Wf) {hashtable : Hash CString CacheEntry}
    {removed : ℕ} (hs : Shrunk cache.hashtable hashtable 0 removed) :
    ({ cache with hashtable := hashtable } : AttrCache).Wf where
  hashtable := hs.wf
  count_le := by
    have hle := h.count_le
    have hcount := hs.count_add h.hashtable
    change hashtable.count ≤ hashtable.maxcount
    rw [hs.maxcount_eq]
    omega
  batchSize_pos := h.batchSize_pos

/-- Taking out one node. -/
theorem shrunk_scanDelete {hashtable : Hash CString CacheEntry} (h : hashtable.Wf hashfuncDjb2)
    {node : Hnode CString CacheEntry} (hmem : node ∈ hashtable.nodes) (removed : ℕ) :
    Shrunk hashtable (hashtable.scanDelete node) removed (removed + 1) where
  wf := Hash.wf_scanDelete h hmem
  maxcount_eq := rfl
  subset := by
    rw [Hash.nodes_scanDelete h hmem]
    exact List.filter_subset_self _
  count_eq := by
    have hpos := List.length_pos_of_mem hmem
    rw [Hash.nodes_scanDelete h hmem, Hash.length_filter_key h hmem]
    omega

/-- The rest of a scan is still in the table after the node before it was taken out. -/
theorem scan_subset {hashtable : Hash CString CacheEntry} (h : hashtable.Wf hashfuncDjb2)
    {node : Hnode CString CacheEntry} {scan : List (Hnode CString CacheEntry)}
    (hsub : node :: scan ⊆ hashtable.nodes) (hnodup : ((node :: scan).map (·.key)).Nodup) :
    scan ⊆ (hashtable.scanDelete node).nodes := by
  intro node' hmem
  rw [Hash.nodes_scanDelete h (hsub (List.mem_cons_self ..))]
  refine List.mem_filter.mpr ⟨hsub (List.mem_cons_of_mem _ hmem), ?_⟩
  simp only [decide_eq_true_eq]
  intro hkey
  apply (List.nodup_cons.mp hnodup).1
  exact List.mem_map.mpr ⟨node', hmem, hkey⟩

theorem removeOld_shrunk (cache : AttrCache) (now : ℤ) {scan : List (Hnode CString CacheEntry)}
    {hashtable : Hash CString CacheEntry} (h : hashtable.Wf hashfuncDjb2) (removed : ℕ)
    (hsub : scan ⊆ hashtable.nodes) (hnodup : (scan.map (·.key)).Nodup) :
    Shrunk hashtable (cache.removeOld now scan hashtable removed).1 removed
      (cache.removeOld now scan hashtable removed).2 := by
  induction scan generalizing hashtable removed with
  | nil => exact .refl h removed
  | cons node scan ih =>
    have hnodup' := (List.nodup_cons.mp hnodup).2
    unfold removeOld
    split_ifs
    · have hmem := hsub (List.mem_cons_self ..)
      exact (shrunk_scanDelete h hmem removed).trans
        (ih (Hash.wf_scanDelete h hmem) _ (scan_subset h hsub hnodup) hnodup')
    · exact ih h _ (fun _ hmem => hsub (List.mem_cons_of_mem _ hmem)) hnodup'

theorem removeFirst_shrunk (shrinkNum : ℕ) {scan : List (Hnode CString CacheEntry)}
    {hashtable : Hash CString CacheEntry} (h : hashtable.Wf hashfuncDjb2) (removed : ℕ)
    (hsub : scan ⊆ hashtable.nodes) (hnodup : (scan.map (·.key)).Nodup) :
    Shrunk hashtable (removeFirst shrinkNum scan hashtable removed).1 removed
        (removeFirst shrinkNum scan hashtable removed).2 ∧
      min shrinkNum (removed + scan.length) ≤
        (removeFirst shrinkNum scan hashtable removed).2 := by
  induction scan generalizing hashtable removed with
  | nil => exact ⟨.refl h removed, by simp [removeFirst]⟩
  | cons node scan ih =>
    unfold removeFirst
    split_ifs with hlt
    · have hmem := hsub (List.mem_cons_self ..)
      obtain ⟨hs, hle⟩ := ih (Hash.wf_scanDelete h hmem) (removed + 1)
        (scan_subset h hsub hnodup) (List.nodup_cons.mp hnodup).2
      refine ⟨(shrunk_scanDelete h hmem removed).trans hs, ?_⟩
      rw [List.length_cons]
      omega
    · exact ⟨.refl h removed, by simp only; omega⟩

section Shrink

variable {cache : AttrCache} {now : ℤ}

/-- The section of `shrink` only takes entries out, at least as many as it is asked for. -/
theorem shrinkSection_shrunk (cache : AttrCache) (h : cache.hashtable.Wf hashfuncDjb2) (now : ℤ)
    (shrinkNum : ℕ) :
    ∃ removed, Shrunk cache.hashtable (cache.shrinkSection now shrinkNum).hashtable 0 removed ∧
      min shrinkNum cache.hashtable.count ≤ removed := by
  have hold := cache.removeOld_shrunk now h 0 (List.Subset.refl _) h.nodup
  have hcount := hold.count_add h
  have hn := hold.wf.count_eq
  unfold shrinkSection
  dsimp only
  split_ifs with hlt
  · obtain ⟨hfirst, hle⟩ := removeFirst_shrunk shrinkNum hold.wf
      (cache.removeOld now cache.hashtable.nodes cache.hashtable 0).2
      (List.Subset.refl _) hold.wf.nodup
    refine ⟨_, hold.trans hfirst, le_trans ?_ hle⟩
    omega
  · exact ⟨_, hold, by omega⟩

/-- `shrink` only takes entries out, and it takes some out when there are any. -/
theorem shrink_spec (h : cache.Wf) (hnow : now ≠ -1) :
    ∃ removed, Shrunk cache.hashtable (cache.shrink now).2.hashtable 0 removed ∧
      min cache.batchSize cache.hashtable.count ≤ removed ∧
      (cache.shrink now).2 =
        { cache with hashtable := (cache.shrink now).2.hashtable } := by
  rw [shrink_eq]
  split_ifs with h0
  · exact ⟨0, .refl h.hashtable 0, h0.le, rfl⟩
  · obtain ⟨removed, hs, hle⟩ := cache.shrinkSection_shrunk h.hashtable now
      (min cache.batchSize cache.hashtable.count)
    exact ⟨removed, hs, by omega, rfl⟩

theorem wf_shrink (h : cache.Wf) (hnow : now ≠ -1) : (cache.shrink now).2.Wf := by
  obtain ⟨removed, hs, -, heq⟩ := shrink_spec h hnow
  rw [heq]
  exact wf_shrunk h hs

/-- A full cache has room after shrinking. -/
theorem count_shrink_lt (h : cache.Wf) (hnow : now ≠ -1) (hpos : 0 < cache.hashtable.maxcount)
    (hfull : cache.hashtable.isFull = true) :
    (cache.shrink now).2.hashtable.count < cache.hashtable.maxcount := by
  obtain ⟨removed, hs, hle, -⟩ := shrink_spec h hnow
  have hcount := hs.count_add h.hashtable
  have hbatch := h.batchSize_pos
  have hmax : cache.hashtable.count = cache.hashtable.maxcount := by
    simpa [Hash.isFull, Hash.count] using hfull
  omega

/-- Shrinking keeps entries or drops them; it stores nothing. -/
theorem content_of_content_shrink (h : cache.Wf) (hnow : now ≠ -1) {path : CString}
    {cacheEntry : CacheEntry} (hc : (cache.shrink now).2.content path = some cacheEntry) :
    cache.content path = some cacheEntry := by
  obtain ⟨removed, hs, -, -⟩ := shrink_spec h hnow
  rw [content_eq_some_iff (wf_shrink h hnow)] at hc
  obtain ⟨node, hmem, hk, hd⟩ := hc
  exact (content_eq_some_iff h).mpr ⟨node, hs.subset hmem, hk, hd⟩

theorem shrink_fields (h : cache.Wf) (hnow : now ≠ -1) :
    (cache.shrink now).2.hashtable.maxcount = cache.hashtable.maxcount ∧
      (cache.shrink now).2.maxAgeSec = cache.maxAgeSec := by
  obtain ⟨removed, hs, -, heq⟩ := shrink_spec h hnow
  exact ⟨hs.maxcount_eq, by rw [heq]⟩

end Shrink

/-! ### The sections under the mutex -/

section Sections

variable {cache cache' : AttrCache} {hashtable : Hash CString CacheEntry} {path : CString}

theorem remove_fields (cache : AttrCache) (path : CString) :
    { cache with hashtable := (cache.remove path).hashtable } = cache.remove path := by
  unfold remove
  split <;> rfl

theorem copyStat_fields (cache : AttrCache) (now : ℤ) (path : CString) :
    { cache with hashtable := (cache.copyStat now path).2.hashtable } =
      (cache.copyStat now path).2 := by
  unfold copyStat get
  dsimp only
  split
  · rfl
  · split_ifs <;> rfl

theorem shrunk_delete (h : hashtable.Wf hashfuncDjb2) {node : Hnode CString CacheEntry}
    (hmem : node ∈ hashtable.nodes) :
    Shrunk hashtable (hashtable.delete node) 0 1 where
  wf := Hash.wf_delete h hmem
  maxcount_eq := Hash.maxcount_delete node
  subset := fun node' hmem' => List.mem_of_mem_filter ((Hash.nodes_delete h hmem).mem_iff.mp hmem')
  count_eq := by
    have hpos := List.length_pos_of_mem hmem
    rw [(Hash.nodes_delete h hmem).length_eq, Hash.length_filter_key h hmem]
    omega

/-- Removing a path deletes the node that is found for it. -/
theorem remove_cases (h : cache.hashtable.Wf hashfuncDjb2) (path : CString) :
    cache.content path = none ∧ cache.remove path = cache ∨
      cache.content path ≠ none ∧
        Shrunk cache.hashtable (cache.remove path).hashtable 0 1 := by
  unfold remove content
  cases hl : cache.hashtable.lookup hashfuncDjb2 path with
  | none => exact .inl ⟨rfl, rfl⟩
  | some node => exact .inr ⟨Option.some_ne_none _, shrunk_delete h (Hash.lookup_eq_some h hl).1⟩

theorem copyStat_shrunk (h : cache.hashtable.Wf hashfuncDjb2) (now : ℤ) (path : CString) :
    ∃ removed, Shrunk cache.hashtable (cache.copyStat now path).2.hashtable 0 removed := by
  unfold copyStat get
  dsimp only
  cases hl : cache.hashtable.lookup hashfuncDjb2 path with
  | none => exact ⟨0, .refl h 0⟩
  | some node =>
    dsimp only
    split_ifs
    · exact ⟨1, shrunk_delete h (Hash.lookup_eq_some h hl).1⟩
    · exact ⟨0, .refl h 0⟩

theorem remove_shrunk (h : cache.hashtable.Wf hashfuncDjb2) (path : CString) :
    ∃ removed, Shrunk cache.hashtable (cache.remove path).hashtable 0 removed := by
  rcases remove_cases h path with ⟨-, heq⟩ | ⟨-, hs⟩
  · rw [heq]
    exact ⟨0, .refl h 0⟩
  · exact ⟨1, hs⟩

theorem count_remove_le (h : cache.hashtable.Wf hashfuncDjb2) (path : CString) :
    (cache.remove path).hashtable.count ≤ cache.hashtable.count := by
  obtain ⟨removed, hs⟩ := remove_shrunk h path
  have hcount := hs.count_add h
  omega

/-- The nodes of the other paths are left. -/
theorem mem_nodes_remove (h : cache.hashtable.Wf hashfuncDjb2) {node : Hnode CString CacheEntry} :
    node ∈ (cache.remove path).hashtable.nodes ↔
      node ∈ cache.hashtable.nodes ∧ node.key ≠ path := by
  unfold remove
  cases hl : cache.hashtable.lookup hashfuncDjb2 path with
  | none => exact ⟨fun hmem => ⟨hmem, Hash.lookup_eq_none h hl node hmem⟩, fun hmem => hmem.1⟩
  | some found =>
    obtain ⟨hmem, rfl⟩ := Hash.lookup_eq_some h hl
    rw [(Hash.nodes_delete h hmem).mem_iff, List.mem_filter, decide_eq_true_eq]

/-- What the section of `AttrCache_set` does: it removes the path and, when there is memory, adds
one node. -/
structure Inserted (cache : AttrCache) (path : CString) (cacheEntry : CacheEntry) (ok : Bool)
    (cache' : AttrCache) : Prop where
  wf : cache'.hashtable.Wf hashfuncDjb2
  maxcount_eq : cache'.hashtable.maxcount = cache.hashtable.maxcount
  maxAgeSec_eq : cache'.maxAgeSec = cache.maxAgeSec
  batchSize_eq : cache'.batchSize = cache.batchSize
  nodes : if ok then cache'.hashtable.nodes.Perm
      (⟨path, cacheEntry, hashfuncDjb2 path⟩ :: (cache.remove path).hashtable.nodes)
    else cache' = cache.remove path

theorem setSection_spec (h : cache.hashtable.Wf hashfuncDjb2) {cacheEntry : CacheEntry}
    {step : (c : Chunk) → Unit → MemRet c → Unit → Prop} {ok : Bool}
    (hrun : (cache.setSection path cacheEntry).Runs step () (ok, cache') ()) :
    Inserted cache path cacheEntry ok cache' := by
  obtain ⟨removed, hs⟩ := remove_shrunk h path
  have hage : (cache.remove path).maxAgeSec = cache.maxAgeSec := by
    rw [← remove_fields]
  have hbatch : (cache.remove path).batchSize = cache.batchSize := by
    rw [← remove_fields]
  obtain ⟨⟨ok', hashtable⟩, w, hins, hret⟩ := (Prog.runs_bind step
    ((cache.remove path).hashtable.allocInsert hashfuncDjb2 path cacheEntry) _ _ _ _).mp hrun
  obtain ⟨hret, -⟩ := hret
  obtain ⟨rfl, rfl⟩ := Prod.mk.injEq .. ▸ hret
  obtain ⟨mem, _, -, hins⟩ := hins
  cases mem with
  | false =>
    obtain ⟨heq, -⟩ := hins
    obtain ⟨rfl, rfl⟩ := Prod.mk.injEq .. ▸ heq
    exact ⟨hs.wf, hs.maxcount_eq, hage, hbatch, rfl⟩
  | true =>
    obtain ⟨hashtable', _, hins, heq, -⟩ := (Prog.runs_bind step
      ((cache.remove path).hashtable.insert hashfuncDjb2 path cacheEntry) _ _ _ _).mp hins
    obtain ⟨rfl, rfl⟩ := Prod.mk.injEq .. ▸ heq
    obtain ⟨hwf', hmax', hperm⟩ :=
      Hash.insert_spec hs.wf (fun _ hmem => ((mem_nodes_remove h).mp hmem).2) hins
    exact ⟨hwf', hmax'.trans hs.maxcount_eq, hage, hbatch, hperm⟩

theorem shrink_shrunk (h : cache.hashtable.Wf hashfuncDjb2) (now : ℤ) :
    ∃ removed, Shrunk cache.hashtable (cache.shrink now).2.hashtable 0 removed := by
  rw [shrink_eq]
  split_ifs
  · exact ⟨0, .refl h 0⟩
  · exact ⟨0, .refl h 0⟩
  · obtain ⟨removed, hs, -⟩ := cache.shrinkSection_shrunk h now
      (min cache.batchSize cache.hashtable.count)
    exact ⟨removed, hs⟩

/-- A node that `set` leaves in the table is of another path and was there, or is of this path and
the cache allows entries. -/
theorem mem_of_set (h : cache.hashtable.Wf hashfuncDjb2) {now : ℤ} {cacheEntry : CacheEntry}
    {step : (c : Chunk) → Unit → MemRet c → Unit → Prop} {ok : Bool}
    (hrun : (cache.set now path cacheEntry).Runs step () (ok, cache') ()) :
    cache'.hashtable.Wf hashfuncDjb2 ∧
      if cache.hashtable.maxcount = 0 then cache' = cache
      else ∀ node ∈ cache'.hashtable.nodes,
        node.key = path ∨ node ∈ cache.hashtable.nodes ∧ node.key ≠ path := by
  rw [set_eq] at hrun
  by_cases hzero : cache.hashtable.maxcount = 0
  · rw [if_pos hzero] at hrun ⊢
    obtain ⟨hret, -⟩ := hrun
    obtain ⟨-, rfl⟩ := Prod.mk.injEq .. ▸ hret
    exact ⟨h, rfl⟩
  rw [if_neg hzero] at hrun ⊢
  -- the cache in which the old entry is looked up
  obtain ⟨hwf, hsub⟩ : (if cache.hashtable.isFull then (cache.shrink now).2
      else cache).hashtable.Wf hashfuncDjb2 ∧ (if cache.hashtable.isFull then (cache.shrink now).2
      else cache).hashtable.nodes ⊆ cache.hashtable.nodes := by
    split_ifs
    · obtain ⟨removed, hs⟩ := shrink_shrunk h now
      exact ⟨hs.wf, hs.subset⟩
    · exact ⟨h, List.Subset.refl _⟩
  have hins := setSection_spec hwf hrun
  have hnodes := hins.nodes
  refine ⟨hins.wf, fun node hmem => ?_⟩
  cases ok with
  | false =>
    rw [if_neg Bool.false_ne_true] at hnodes
    rw [hnodes] at hmem
    obtain ⟨hold, hkey⟩ := (mem_nodes_remove hwf).mp hmem
    exact .inr ⟨hsub hold, hkey⟩
  | true =>
    rw [if_pos rfl] at hnodes
    rcases List.mem_cons.mp (hnodes.mem_iff.mp hmem) with rfl | hmem
    · exact .inl rfl
    · obtain ⟨hold, hkey⟩ := (mem_nodes_remove hwf).mp hmem
      exact .inr ⟨hsub hold, hkey⟩

/-- A stat that is found is that of a node. -/
theorem mem_of_copyStat (h : cache.hashtable.Wf hashfuncDjb2) {now : ℤ}
    (hfound : (cache.copyStat now path).1.isSome = true) :
    ∃ node ∈ cache.hashtable.nodes, node.key = path := by
  unfold copyStat get at hfound
  cases hl : cache.hashtable.lookup hashfuncDjb2 path with
  | none => simp [hl] at hfound
  | some node => exact ⟨node, (Hash.lookup_eq_some h hl).1, (Hash.lookup_eq_some h hl).2⟩

/-- With memory, the section stores the entry. -/
theorem exec_setSection (cache : AttrCache) (path : CString) (cacheEntry : CacheEntry) :
    ((cache.setSection path cacheEntry).exec allocAll ()).1.1 = true := by
  unfold setSection
  rw [Prog.exec_bind]
  simp [Hash.allocInsert, alloc, Prog.perform, allocAll]

theorem runs_setSection (cache : AttrCache) (path : CString) (cacheEntry : CacheEntry) :
    ∃ cache',
      (cache.setSection path cacheEntry).Runs (fun _ _ _ _ => True) () (true, cache') () := by
  have hrun : (cache.setSection path cacheEntry).Runs (fun _ _ _ _ => True) () _ _ :=
    Prog.runs_exec allocAll (fun _ _ => trivial) _ ()
  rcases hexec : (cache.setSection path cacheEntry).exec allocAll () with ⟨⟨ok, cache'⟩, ⟨⟩⟩
  have hok := exec_setSection cache path cacheEntry
  rw [hexec] at hrun hok
  obtain rfl : ok = true := hok
  exact ⟨cache', hrun⟩

end Sections

/-! ### Storing an entry -/

section Set

variable {cache : AttrCache} {now : ℤ} {path : CString} {cacheEntry : CacheEntry}

theorem maxcount_remove (cache : AttrCache) (path : CString) :
    (cache.remove path).hashtable.maxcount = cache.hashtable.maxcount := by
  unfold remove
  split
  · rfl
  · exact Hash.maxcount_delete _

theorem maxAgeSec_remove (cache : AttrCache) (path : CString) :
    (cache.remove path).maxAgeSec = cache.maxAgeSec := by
  unfold remove
  split <;> rfl

/-- The cache in which `set` looks for the old entry. -/
def withRoom (cache : AttrCache) (now : ℤ) : AttrCache :=
  if cache.hashtable.isFull then (cache.shrink now).2 else cache

theorem wf_withRoom (h : cache.Wf) (hnow : now ≠ -1) : (cache.withRoom now).Wf := by
  unfold withRoom
  split
  · exact wf_shrink h hnow
  · exact h

theorem withRoom_fields (h : cache.Wf) (hnow : now ≠ -1) :
    (cache.withRoom now).hashtable.maxcount = cache.hashtable.maxcount ∧
      (cache.withRoom now).maxAgeSec = cache.maxAgeSec := by
  unfold withRoom
  split
  · exact shrink_fields h hnow
  · exact ⟨rfl, rfl⟩

theorem count_withRoom_lt (h : cache.Wf) (hnow : now ≠ -1) (hpos : 0 < cache.hashtable.maxcount) :
    (cache.withRoom now).hashtable.count < cache.hashtable.maxcount := by
  unfold withRoom
  split_ifs with hfull
  · exact count_shrink_lt h hnow hpos hfull
  · apply lt_of_le_of_ne h.count_le
    simpa [Hash.isFull, Hash.count] using hfull

/-- The content of a cache into which a new node was inserted. -/
theorem content_insert (h : cache.Wf) {hashtable : Hash CString CacheEntry}
    (hwf : hashtable.Wf hashfuncDjb2) (hnone : cache.content path = none)
    (hperm : hashtable.nodes.Perm
      (⟨path, cacheEntry, hashfuncDjb2 path⟩ :: cache.hashtable.nodes)) (path' : CString) :
    (hashtable.lookup hashfuncDjb2 path').map (·.data) =
      if path' = path then some cacheEntry else cache.content path' := by
  have hmem := fun node => hperm.mem_iff (a := node)
  refine Option.ext fun cacheEntry' => ?_
  simp only [Option.map_eq_some_iff, Hash.lookup_eq_some_iff hwf, hmem, List.mem_cons]
  split_ifs with hp
  · subst hp
    constructor
    · rintro ⟨node, ⟨rfl | hold, hk⟩, hd⟩
      · exact congrArg some hd
      · exact absurd hk ((content_eq_none_iff h).mp hnone node hold)
    · intro he
      exact ⟨_, ⟨.inl rfl, rfl⟩, Option.some.inj he⟩
  · rw [content_eq_some_iff h]
    constructor
    · rintro ⟨node, ⟨rfl | hold, hk⟩, hd⟩
      · exact absurd hk.symm hp
      · exact ⟨node, hold, hk, hd⟩
    · rintro ⟨node, hold, hk, hd⟩
      exact ⟨node, ⟨.inr hold, hk⟩, hd⟩

/-- What `set` does to a cache that may hold entries: it shrinks a full cache, drops the old entry
of the path, and stores the new one when there is memory. -/
structure Stored (cache : AttrCache) (now : ℤ) (path : CString) (cacheEntry : CacheEntry)
    (ok : Bool) (cache' : AttrCache) : Prop where
  wf : cache'.Wf
  maxcount_eq : cache'.hashtable.maxcount = cache.hashtable.maxcount
  maxAgeSec_eq : cache'.maxAgeSec = cache.maxAgeSec
  content_self : cache'.content path = if ok then some cacheEntry else none
  content_other : ∀ path', path' ≠ path →
    cache'.content path' = (cache.withRoom now).content path'

/-- **Storing an entry**, whatever the allocator answers. -/
theorem set_spec (h : cache.Wf) (hnow : now ≠ -1) (hpos : 0 < cache.hashtable.maxcount)
    {step : (c : Chunk) → Unit → MemRet c → Unit → Prop} {ok : Bool} {cache' : AttrCache}
    (hrun : (cache.set now path cacheEntry).Runs step () (ok, cache') ()) :
    Stored cache now path cacheEntry ok cache' := by
  have hroom := wf_withRoom h hnow
  have hfields := withRoom_fields h hnow
  have hlt := count_withRoom_lt h hnow hpos
  rw [set_eq, if_neg hpos.ne'] at hrun
  set room := cache.withRoom now with hroomdef
  have hins := setSection_spec hroom.hashtable hrun
  have hwf := wf_remove hroom path
  have hself : (room.remove path).content path = none := by
    rw [content_remove hroom, if_pos rfl]
  have hother : ∀ path', path' ≠ path → (room.remove path).content path' = room.content path' :=
    fun path' hp => by rw [content_remove hroom, if_neg hp]
  have hmaxcount := hins.maxcount_eq.trans hfields.1
  have hmaxAge := hins.maxAgeSec_eq.trans hfields.2
  have hnodes := hins.nodes
  cases ok with
  | false =>
    rw [if_neg Bool.false_ne_true] at hnodes
    subst hnodes
    exact ⟨hwf, hmaxcount, hmaxAge, hself, hother⟩
  | true =>
    rw [if_pos rfl] at hnodes
    have hcontent := content_insert hwf hins.wf hself hnodes
    refine
      { wf := ⟨hins.wf, ?_, hins.batchSize_eq ▸ hroom.batchSize_pos⟩
        maxcount_eq := hmaxcount
        maxAgeSec_eq := hmaxAge
        content_self := (hcontent path).trans (if_pos rfl)
        content_other := fun path' hp => ((hcontent path').trans (if_neg hp)).trans
          (hother path' hp) }
    have hn := hins.wf.count_eq
    have hn' := hwf.hashtable.count_eq
    have hle := count_remove_le hroom.hashtable path
    have hlen := hnodes.length_eq
    rw [List.length_cons] at hlen
    rw [hmaxcount]
    omega

/-- What an entry is after `set`: the new one, or one that was there. -/
theorem content_set (h : cache.Wf) (hnow : now ≠ -1)
    {step : (c : Chunk) → Unit → MemRet c → Unit → Prop} {ok : Bool} {cache' : AttrCache}
    (hrun : (cache.set now path cacheEntry).Runs step () (ok, cache') ()) {path' : CString}
    {found : CacheEntry} (hc : cache'.content path' = some found) :
    path' = path ∧ found = cacheEntry ∨ path' ≠ path ∧ cache.content path' = some found := by
  rcases Nat.eq_zero_or_pos cache.hashtable.maxcount with hzero | hpos
  · -- a cache without room is empty, and nothing is stored
    rw [set, if_pos hzero] at hrun
    obtain ⟨hret, -⟩ := hrun
    obtain ⟨-, rfl⟩ := Prod.mk.injEq .. ▸ hret
    obtain ⟨node, hmem, -, -⟩ := (content_eq_some_iff h).mp hc
    have hlen := h.hashtable.count_eq
    have hle := h.count_le
    have hnode := List.length_pos_of_mem hmem
    omega
  · have hset := set_spec h hnow hpos hrun
    by_cases hpath : path' = path
    · subst hpath
      rw [hset.content_self] at hc
      split_ifs at hc
      exact .inl ⟨rfl, (Option.some.inj hc).symm⟩
    · rw [hset.content_other path' hpath] at hc
      refine .inr ⟨hpath, ?_⟩
      unfold withRoom at hc
      split_ifs at hc
      · exact content_of_content_shrink h hnow hc
      · exact hc

/-- Storing an entry keeps the invariant, also in a cache that holds none. -/
theorem wf_set (h : cache.Wf) (hnow : now ≠ -1)
    {step : (c : Chunk) → Unit → MemRet c → Unit → Prop} {ok : Bool} {cache' : AttrCache}
    (hrun : (cache.set now path cacheEntry).Runs step () (ok, cache') ()) : cache'.Wf := by
  rcases Nat.eq_zero_or_pos cache.hashtable.maxcount with hzero | hpos
  · rw [set, if_pos hzero] at hrun
    obtain ⟨hret, -⟩ := hrun
    obtain ⟨-, rfl⟩ := Prod.mk.injEq .. ▸ hret
    exact h
  · exact (set_spec h hnow hpos hrun).wf

end Set

/-! ## Runs -/

/-- The operations of the cache. -/
inductive Op
  | set (path : CString) (cacheEntry : CacheEntry)
  | copyStat (path : CString)
  | remove (path : CString)
  | shrink

/-- What an operation returns. -/
inductive Reply
  | done (ok : Bool)
  | stat (statResult : Option Stat)

def perform (cache : AttrCache) (now : ℤ) : Op → Prog MemRet (Reply × AttrCache)
  | .set path cacheEntry => do
    let (ok, cache) ← cache.set now path cacheEntry
    return (.done ok, cache)
  | .copyStat path => return (.stat (cache.copyStat now path).1, (cache.copyStat now path).2)
  | .remove path => return (.done true, cache.remove path)
  | .shrink => return (.done (cache.shrink now).1, (cache.shrink now).2)

/-- The paths whose entry a `shrink` drops. -/
def shrinkDrops (cache : AttrCache) (now : ℤ) : Set CString :=
  {path | (cache.content path).isSome ∧ (cache.shrink now).2.content path = none}

/-- For every path the latest entry set and not removed, and the paths that a `shrink` dropped
since. -/
abbrev History := ExpiringMap CString CacheEntry

/-- The history after an operation on `cache`. A `set` of a full cache begins with a `shrink`; one
that found no memory has removed the old entry. -/
def historyAfter (cache : AttrCache) (now : ℤ) (history : History) : Op → Reply → History
  | .set path cacheEntry, reply =>
    let history := if cache.hashtable.isFull then history.drop (cache.shrinkDrops now) else history
    match reply with
    | .done true => history.put path cacheEntry
    | _ => history.remove path
  | .copyStat _, _ => history
  | .remove path, _ => history.remove path
  | .shrink, _ => history.drop (cache.shrinkDrops now)

/-- A run of operations on a new cache, with the reading of the clock at the last one. The clock
never goes back and `time()` never fails; the allocator may. -/
inductive Run (maxSize maxAgeSec : ℕ) : ℤ → History → AttrCache → Prop
  | init (now : ℤ) : Run maxSize maxAgeSec now .empty (init maxSize maxAgeSec)
  | perform {now now' : ℤ} {history : History} {cache cache' : AttrCache} {op : Op} {reply : Reply}
      (run : Run maxSize maxAgeSec now history cache) (clock : now ≤ now') (time : now' ≠ -1)
      (runs : (cache.perform now' op).Runs (fun _ _ _ _ => True) () (reply, cache') ()) :
      Run maxSize maxAgeSec now' (cache.historyAfter now' history op reply) cache'

/-- What a run maintains: the cache reflects its history. -/
structure Inv (maxSize maxAgeSec : ℕ) (now : ℤ) (history : History) (cache : AttrCache) :
    Prop where
  wf : cache.Wf
  maxcount_eq : cache.hashtable.maxcount = maxSize
  maxAgeSec_eq : cache.maxAgeSec = maxAgeSec
  reflects : history.Reflects (fun cacheEntry => cacheEntry.cacheCreationTs + maxAgeSec < now)
    cache.content

section Run

variable {maxSize maxAgeSec : ℕ} {now now' : ℤ} {history : History} {cache cache' : AttrCache}

theorem inv_init (now : ℤ) : Inv maxSize maxAgeSec now .empty (init maxSize maxAgeSec) where
  wf := wf_init maxSize maxAgeSec
  maxcount_eq := rfl
  maxAgeSec_eq := rfl
  reflects := by
    have hempty : (init maxSize maxAgeSec).content = fun _ => none := by
      funext path
      refine (content_eq_none_iff (wf_init maxSize maxAgeSec)).mpr fun node hmem => ?_
      simp [init, Hash.create, Hash.nodes] at hmem
    rw [hempty]
    exact .empty

theorem Inv.mono (h : Inv maxSize maxAgeSec now history cache) (hle : now ≤ now') :
    Inv maxSize maxAgeSec now' history cache :=
  { h with reflects := h.reflects.mono fun _ hlt => lt_of_lt_of_le hlt hle }

/-- A `shrink` only loses the entries that it drops. -/
theorem Inv.reflects_shrink (h : Inv maxSize maxAgeSec now history cache) (hnow : now ≠ -1) :
    (history.drop (cache.shrinkDrops now)).Reflects
      (fun cacheEntry => cacheEntry.cacheCreationTs + maxAgeSec < now)
      (cache.shrink now).2.content := by
  refine h.reflects.restrict (fun _ _ hc => content_of_content_shrink h.wf hnow hc) ?_
  intro path cacheEntry hc _ hkeep
  have hsome : (cache.shrink now).2.content path ≠ none :=
    fun hnone => hkeep ⟨by rw [hc]; rfl, hnone⟩
  obtain ⟨cacheEntry', hc'⟩ := Option.ne_none_iff_exists'.mp hsome
  have hold := content_of_content_shrink h.wf hnow hc'
  rw [hc'.trans (hold.symm.trans hc)]

theorem Inv.shrink (h : Inv maxSize maxAgeSec now history cache) (hnow : now ≠ -1) :
    Inv maxSize maxAgeSec now (history.drop (cache.shrinkDrops now)) (cache.shrink now).2 :=
  ⟨wf_shrink h.wf hnow, (shrink_fields h.wf hnow).1.trans h.maxcount_eq,
    (shrink_fields h.wf hnow).2.trans h.maxAgeSec_eq, h.reflects_shrink hnow⟩

theorem Inv.remove (h : Inv maxSize maxAgeSec now history cache) (path : CString) :
    Inv maxSize maxAgeSec now (history.remove path) (cache.remove path) where
  wf := wf_remove h.wf path
  maxcount_eq := (maxcount_remove cache path).trans h.maxcount_eq
  maxAgeSec_eq := (maxAgeSec_remove cache path).trans h.maxAgeSec_eq
  reflects := h.reflects.remove (by rw [content_remove h.wf, if_pos rfl])
    fun path' hne => by rw [content_remove h.wf, if_neg hne]

/-- A lookup may delete the entry it looks for, when that has expired. -/
theorem Inv.get (h : Inv maxSize maxAgeSec now history cache) (hnow : now ≠ -1) (path : CString) :
    Inv maxSize maxAgeSec now history (cache.get now path).2 where
  wf := wf_get h.wf now path
  maxcount_eq := (hashtable_get cache now path).1.trans h.maxcount_eq
  maxAgeSec_eq := (hashtable_get cache now path).2.trans h.maxAgeSec_eq
  reflects := by
    refine h.reflects.expire (fun path' cacheEntry hc => ?_) fun path' cacheEntry hc hkeep => ?_
    · rw [content_get h.wf] at hc
      split_ifs at hc with hp
      · rw [get_eq, Option.filter_eq_some_iff] at hc
        rw [hp, hc.1]
      · exact hc
    · rw [content_get h.wf]
      split_ifs with hp
      · rw [get_eq, ← hp, hc, Option.filter_some_pos]
        simpa [entryIsDeprecated, hnow, isTooOld, h.maxAgeSec_eq] using hkeep
      · exact hc

theorem Inv.set (h : Inv maxSize maxAgeSec now history cache) (hnow : now ≠ -1) (hpos : 1 ≤ maxSize)
    {path : CString} {cacheEntry : CacheEntry} {ok : Bool}
    (hrun : (cache.set now path cacheEntry).Runs (fun _ _ _ _ => True) () (ok, cache') ()) :
    Inv maxSize maxAgeSec now
      (cache.historyAfter now history (.set path cacheEntry) (.done ok)) cache' := by
  have hs := set_spec h.wf hnow (by rw [h.maxcount_eq]; exact hpos) hrun
  refine ⟨hs.wf, hs.maxcount_eq.trans h.maxcount_eq, hs.maxAgeSec_eq.trans h.maxAgeSec_eq, ?_⟩
  have hroom : (if cache.hashtable.isFull then history.drop (cache.shrinkDrops now)
      else history).Reflects (fun cacheEntry => cacheEntry.cacheCreationTs + maxAgeSec < now)
      (cache.withRoom now).content := by
    unfold withRoom
    split_ifs
    · exact h.reflects_shrink hnow
    · exact h.reflects
  cases ok with
  | true => exact hroom.put hs.content_self hs.content_other
  | false => exact hroom.remove hs.content_self hs.content_other

/-- One operation keeps the invariant. -/
theorem Inv.perform (h : Inv maxSize maxAgeSec now history cache) (hnow : now ≠ -1)
    (hpos : 1 ≤ maxSize) {op : Op} {reply : Reply}
    (hrun : (cache.perform now op).Runs (fun _ _ _ _ => True) () (reply, cache') ()) :
    Inv maxSize maxAgeSec now (cache.historyAfter now history op reply) cache' := by
  cases op with
  | set path cacheEntry =>
    obtain ⟨⟨ok, cache₁⟩, _, hset, hret, -⟩ := (Prog.runs_bind _ _ _ _ _ _).mp hrun
    obtain ⟨rfl, rfl⟩ := Prod.mk.injEq .. ▸ hret
    exact h.set hnow hpos hset
  | copyStat path =>
    obtain ⟨hret, -⟩ := hrun
    obtain ⟨rfl, rfl⟩ := Prod.mk.injEq .. ▸ hret
    exact h.get hnow path
  | remove path =>
    obtain ⟨hret, -⟩ := hrun
    obtain ⟨rfl, rfl⟩ := Prod.mk.injEq .. ▸ hret
    exact h.remove path
  | shrink =>
    obtain ⟨hret, -⟩ := hrun
    obtain ⟨rfl, rfl⟩ := Prod.mk.injEq .. ▸ hret
    exact h.shrink hnow

/-- Every run keeps the invariant. -/
theorem Run.inv (hpos : 1 ≤ maxSize) (h : Run maxSize maxAgeSec now history cache) :
    Inv maxSize maxAgeSec now history cache := by
  induction h with
  | init now => exact inv_init now
  | perform _ clock time runs ih => exact (ih.mono clock).perform time hpos runs

/-- A lookup finds exactly the entries that have not expired. -/
theorem Inv.copyStat_iff (h : Inv maxSize maxAgeSec now history cache) (htime : now' ≠ -1)
    {path : CString} {stat : Stat} :
    (cache.copyStat now' path).1 = some stat ↔ ∃ cacheEntry, cache.content path = some cacheEntry ∧
      cacheEntry.statResult = stat ∧ now' ≤ cacheEntry.cacheCreationTs + maxAgeSec := by
  simp only [copyStat, get_eq, Option.map_eq_some_iff, Option.filter_eq_some_iff,
    entryIsDeprecated, if_neg htime, isTooOld, h.maxAgeSec_eq]
  constructor
  · rintro ⟨cacheEntry, ⟨hc, hage⟩, rfl⟩
    exact ⟨cacheEntry, hc, rfl, by simpa using hage⟩
  · rintro ⟨cacheEntry, hc, rfl, hage⟩
    exact ⟨cacheEntry, ⟨hc, by simpa using hage⟩, rfl⟩

/-- **The cache is a bounded expiring map.** In every run the keys are unique and at most `maxSize`
in number. `AttrCache_copy_stat` then returns only the stat of the latest entry set for the path,
not removed since and not expired, and misses such an entry only if a `shrink` dropped it. -/
theorem run_laws (hpos : 1 ≤ maxSize) (h : Run maxSize maxAgeSec now history cache) :
    cache.paths.Nodup ∧ cache.hashtable.count = cache.paths.length ∧
      cache.hashtable.count ≤ maxSize ∧
      ∀ now', now ≤ now' → now' ≠ -1 → ∀ path,
        (∀ stat, (cache.copyStat now' path).1 = some stat →
          ∃ cacheEntry, history.latest path = some cacheEntry ∧ cacheEntry.statResult = stat ∧
            now' ≤ cacheEntry.cacheCreationTs + maxAgeSec) ∧
        ∀ cacheEntry, history.latest path = some cacheEntry →
          now' ≤ cacheEntry.cacheCreationTs + maxAgeSec → path ∉ history.dropped →
            (cache.copyStat now' path).1 = some cacheEntry.statResult := by
  have hinv := h.inv hpos
  have hcount := hinv.wf.hashtable.count_eq
  refine ⟨hinv.wf.hashtable.nodup, by rw [hcount, paths, List.length_map],
    hinv.maxcount_eq ▸ hinv.wf.count_le, fun now' hle htime path => ⟨?_, ?_⟩⟩
  · intro stat hstat
    obtain ⟨cacheEntry, hc, hs, hage⟩ := (hinv.copyStat_iff htime).mp hstat
    exact ⟨cacheEntry, hinv.reflects.sound path cacheEntry hc, hs, hage⟩
  · intro cacheEntry hlatest hage hkeep
    refine (hinv.copyStat_iff htime).mpr ⟨cacheEntry, ?_, rfl, hage⟩
    exact hinv.reflects.complete path cacheEntry hlatest (by omega) hkeep

end Run

/-- A cache for one entry, with `/a` set at time 10, answers at time 11. -/
theorem run_laws_set : ∃ history cache, Run 1 60 10 history cache ∧ cache.hashtable.count ≤ 1 ∧
    (cache.copyStat 11 [47, 97]).1 = some Stat.zero := by
  have hrun := (Run.init 10 : Run 1 60 10 .empty (init 1 60)).perform le_rfl (by decide)
    (Prog.runs_exec allocAll (fun _ _ => trivial)
      ((init 1 60).perform 10 (.set [47, 97] ⟨Stat.zero, 10⟩)) ())
  refine ⟨_, _, hrun, (run_laws (by decide) hrun).2.2.1, ?_⟩
  refine ((run_laws (by decide) hrun).2.2.2 11 (by decide) (by decide) [47, 97]).2
    ⟨Stat.zero, 10⟩ ?_ (by decide) ?_
  · rfl
  · exact fun hdropped => hdropped.2 rfl

end AttrCache

end Rhizofs
