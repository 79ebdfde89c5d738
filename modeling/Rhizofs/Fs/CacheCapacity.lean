import Rhizofs.Fs.CacheThreads

/-!
# The capacity of the attribute cache among threads

`AttrCache_set` tests whether the table is full before it takes the mutex, and `AttrCache_shrink`
gives the mutex back before the insertion. As long as no other thread takes the room that a set has
found (`KeepsRoom`), the table is never overfull (`count_le_maxcount`). Where another thread takes
it, the table can be overfilled (`overfull_of_not_keepsRoom`, `not_count_le_maxcount`).
-/

namespace Rhizofs.CacheThreads

open Extern Kazlib

variable {Tid : Type}

/-! ## Room -/

/-- A set of the path finds a free place in the table, or an entry to replace. -/
def RoomFor (cache : AttrCache) (path : CString) : Prop :=
  cache.hashtable.count < cache.hashtable.maxcount ∨ cache.content path ≠ none

/-- The call `c` of the thread `t` does not take the room away on which a set relies that will not
test again. An insertion takes it when it fills the table while another thread is about to insert a
different path that has no entry; a failing `time()` when it makes `AttrCache_shrink` give up on a
full table. -/
def KeepsRoom (config : Threads Tid) (t : Tid) (c : CacheCall) : Prop :=
  match c with
  | .setSection path _ => config.world.cache.content path = none →
    config.world.cache.hashtable.count + 1 = config.world.cache.hashtable.maxcount →
      ∀ t' op path' cacheEntry', t' ≠ t →
        Concurrent.Next config t' op (.setSection path' cacheEntry') → path' ≠ path →
          config.world.cache.content path' ≠ none
  | .time => ∀ path cacheEntry, Concurrent.Next config t (.set path cacheEntry) .time →
    config.world.now = -1 → RoomFor config.world.cache path
  | _ => True

section Capacity

variable {cache cache' : AttrCache} {path path' : CString}

theorem content_ne_none_iff (h : cache.Wf) :
    cache.content path ≠ none ↔ ∃ node ∈ cache.hashtable.nodes, node.key = path := by
  rw [Ne, AttrCache.content_eq_none_iff h]
  push Not
  rfl

/-- Taking nodes out keeps the room for every path: an entry that is lost leaves a free place. -/
theorem roomFor_shrunk (h : cache.Wf) {hashtable : Hash CString CacheEntry} {removed : ℕ}
    (hs : AttrCache.Shrunk cache.hashtable hashtable 0 removed) (hroom : RoomFor cache path) :
    RoomFor { cache with hashtable := hashtable } path := by
  have hle := h.count_le
  have hcount := hs.count_add h.hashtable
  have hlen := hs.count_eq
  by_cases hlt : hashtable.count < cache.hashtable.maxcount
  · left
    change hashtable.count < hashtable.maxcount
    rwa [hs.maxcount_eq]
  -- nothing was taken out of a full table
  · right
    have hfull : ¬ cache.hashtable.count < cache.hashtable.maxcount := by omega
    obtain ⟨node, hmem, hkey⟩ := (content_ne_none_iff h).mp (hroom.resolve_left hfull)
    have hperm : hashtable.nodes.Perm cache.hashtable.nodes :=
      (List.subperm_of_subset (List.Nodup.of_map _ hs.wf.nodup) hs.subset).perm_of_length_le
        (by omega)
    exact (content_ne_none_iff (AttrCache.wf_shrunk h hs)).mpr ⟨node, hperm.mem_iff.mpr hmem, hkey⟩

/-- With room for a path, the table has a free place once the old entry is removed. -/
theorem count_remove_lt (h : cache.Wf) (hroom : RoomFor cache path) :
    (cache.remove path).hashtable.count < cache.hashtable.maxcount := by
  rcases AttrCache.remove_cases h.hashtable path with ⟨hnone, heq⟩ | ⟨-, hs⟩
  · rw [heq]
    exact hroom.resolve_right (not_not.mpr hnone)
  · have hle := h.count_le
    have hcount := hs.count_add h.hashtable
    omega

/-- An insertion with room keeps the cache well formed. -/
theorem wf_setSection (h : cache.Wf) (hroom : RoomFor cache path) {cacheEntry : CacheEntry}
    {step : (c : Chunk) → Unit → MemRet c → Unit → Prop} {ok : Bool}
    (hrun : (cache.setSection path cacheEntry).Runs step () (ok, cache') ()) : cache'.Wf := by
  obtain ⟨hwf, hmax, -, hbatch, hnodes⟩ := AttrCache.setSection_spec h.hashtable hrun
  refine ⟨hwf, ?_, hbatch ▸ h.batchSize_pos⟩
  obtain ⟨removed, hs⟩ := AttrCache.remove_shrunk h.hashtable path
  have hlt := count_remove_lt h hroom
  rw [hmax]
  cases ok with
  | false =>
    rw [if_neg Bool.false_ne_true] at hnodes
    rw [hnodes]
    exact hlt.le
  | true =>
    rw [if_pos rfl] at hnodes
    rw [hwf.count_eq, hnodes.length_eq, List.length_cons, ← hs.wf.count_eq]
    exact hlt

/-- An insertion keeps the room for the other paths unless it fills the table. -/
theorem roomFor_setSection (h : cache.Wf) (hroom : RoomFor cache path)
    (hroom' : RoomFor cache path') {cacheEntry : CacheEntry}
    {step : (c : Chunk) → Unit → MemRet c → Unit → Prop} {ok : Bool}
    (hrun : (cache.setSection path cacheEntry).Runs step () (ok, cache') ())
    (hkeep : cache.content path = none →
      cache.hashtable.count + 1 = cache.hashtable.maxcount → path' ≠ path →
        cache.content path' ≠ none) : RoomFor cache' path' := by
  have hwf' := wf_setSection h hroom hrun
  obtain ⟨-, hmax, -, -, hnodes⟩ := AttrCache.setSection_spec h.hashtable hrun
  cases ok with
  | false =>
    rw [if_neg Bool.false_ne_true] at hnodes
    subst hnodes
    -- without memory the old entry is still removed
    rcases AttrCache.remove_cases h.hashtable path with ⟨-, heq⟩ | ⟨-, hs⟩
    · rwa [heq]
    · rw [← AttrCache.remove_fields]
      exact roomFor_shrunk h hs hroom'
  | true =>
    rw [if_pos rfl] at hnodes
    by_cases hpath : path' = path
    · right
      exact (content_ne_none_iff hwf').mpr
        ⟨_, hnodes.mem_iff.mpr (List.mem_cons_self ..), hpath.symm⟩
    by_cases hentry : cache.content path' = none
    · left
      have hlt := hroom'.resolve_right (not_not.mpr hentry)
      obtain ⟨removed, hs⟩ := AttrCache.remove_shrunk h.hashtable path
      rw [hmax, hwf'.hashtable.count_eq, hnodes.length_eq, List.length_cons, ← hs.wf.count_eq]
      rcases AttrCache.remove_cases h.hashtable path with ⟨hnone, heq⟩ | ⟨-, hs⟩
      · have hnotFilled : cache.hashtable.count + 1 ≠ cache.hashtable.maxcount :=
          fun hfilled => hkeep hnone hfilled hpath hentry
        rw [heq]
        omega
      · have hcount := hs.count_add h.hashtable
        omega
    · right
      obtain ⟨node, hmem, hkey⟩ := (content_ne_none_iff h).mp hentry
      refine (content_ne_none_iff hwf').mpr ⟨node, hnodes.mem_iff.mpr (.tail _ ?_), hkey⟩
      exact (AttrCache.mem_nodes_remove h.hashtable).mpr ⟨hmem, hkey ▸ hpath⟩

/-- What `AttrCache_set` knows about room: that the table had a free place at its last test. The
cache allows `maxSize` entries. -/
def roomSpec (maxSize : ℕ) : AttrCache.Op → Spec CacheRet Bool
  | .set path cacheEntry =>
    { pre := fun c room =>
        match c with
        | .setSection path' cacheEntry' => path' = path ∧ cacheEntry' = cacheEntry ∧ room = true
        | .shrinkSection _ shrinkNum => 0 < maxSize ∧ 0 < shrinkNum
        | .maxcount => True
        | _ => 0 < maxSize
      step := fun c _ r room =>
        match c with
        | .maxcount => r = maxSize ∧ room = false
        | .isFull => room = !r
        | .shrinkNum => room = decide (r = 0)
        | .time => room = decide (r = -1)
        | .shrinkSection .. => room = true
        | _ => room = false }
  | _ =>
    { pre := fun c _ =>
        match c with
        | .setSection .. => False
        | _ => True
      step := fun _ _ _ _ => True }

/-- The assertion at an insertion: it has room. -/
def roomAssertion : CacheCall → CacheWorld → Prop
  | .setSection path _, w => RoomFor w.cache path
  | _, _ => True

theorem wp_shrink (maxSize : ℕ) (path : CString) (cacheEntry : CacheEntry) (hpos : 0 < maxSize)
    (room : Bool) :
    shrink.wp (roomSpec maxSize (.set path cacheEntry)) (fun _ room => room = true) room := by
  rw [shrink_eq]
  refine ⟨hpos, ?_⟩
  rintro shrinkNum _ rfl
  dsimp only
  split_ifs with hzero
  · exact decide_eq_true hzero
  refine ⟨hpos, ?_⟩
  rintro currentTime _ rfl
  dsimp only
  split_ifs with htime
  · exact decide_eq_true htime
  · refine ⟨⟨hpos, Nat.pos_of_ne_zero hzero⟩, ?_⟩
    rintro _ _ rfl
    rfl

/-- Every operation follows its outline. -/
theorem wp_body_room (maxSize : ℕ) (op : AttrCache.Op) :
    (body op).wp (roomSpec maxSize op) (fun _ _ => True) false := by
  cases op with
  | set path cacheEntry =>
    refine Prog.wp_seq _ (R := fun _ _ => True) ?_ fun _ _ _ => trivial
    rw [set_eq]
    refine ⟨trivial, ?_⟩
    rintro maxcount _ ⟨hmax, rfl⟩
    dsimp only
    split_ifs with hzero
    · trivial
    have hpos : 0 < maxSize := hmax ▸ Nat.pos_of_ne_zero hzero
    refine ⟨hpos, ?_⟩
    rintro full _ rfl
    dsimp only
    split_ifs with hfull
    · exact Prog.wp_seq _ (wp_shrink maxSize path cacheEntry hpos _) fun _ _ hroom =>
        ⟨⟨rfl, rfl, hroom⟩, fun _ _ _ => trivial⟩
    · exact ⟨⟨rfl, rfl, by simpa using hfull⟩, fun _ _ _ => trivial⟩
  | copyStat path => exact ⟨trivial, fun _ _ _ => trivial⟩
  | remove path =>
    refine ⟨trivial, fun found _ _ => ?_⟩
    cases found with
    | none => trivial
    | some hashNode => exact ⟨trivial, fun _ _ _ => trivial⟩
  | shrink =>
    refine Prog.wp_seq _ (R := fun _ _ => True) ?_ fun _ _ _ => trivial
    apply calls_shrink.wp_keep (I := fun _ => True)
    · intro c _ hc _
      cases c <;> trivial
    · exact fun _ _ _ _ _ _ _ => trivial
    · exact fun _ _ _ => trivial
    · trivial

/-- The invariant: the cache is well formed, so not overfull, and allows `maxSize` entries. -/
structure RoomInv (maxSize : ℕ) (w : CacheWorld) : Prop where
  wf : w.cache.Wf
  maxcount_eq : w.cache.hashtable.maxcount = maxSize

/-- A call that meets its assertion keeps the invariant. -/
theorem RoomInv.act {maxSize : ℕ} {w w' : CacheWorld} {c : CacheCall} {r : CacheRet c}
    (h : RoomInv maxSize w) (hroom : roomAssertion c w) (hact : w.act c r w') :
    RoomInv maxSize w' := by
  rcases act_cases h.wf.hashtable hact with
    ⟨hashtable, removed, hs, rfl⟩ | ⟨path, cacheEntry, ok, cache, rfl, hrun, rfl⟩
  · exact ⟨AttrCache.wf_shrunk h.wf hs, hs.maxcount_eq.trans h.maxcount_eq⟩
  · obtain ⟨-, hmax, -⟩ := AttrCache.setSection_spec h.wf.hashtable hrun
    exact ⟨wf_setSection h.wf hroom hrun, hmax.trans h.maxcount_eq⟩

/-- A test that lets `AttrCache_set` go on to its insertion has seen room. -/
theorem RoomInv.room_own {maxSize : ℕ} {config : Threads Tid} {t : Tid} {w' : CacheWorld}
    {path : CString} {cacheEntry : CacheEntry} {c : CacheCall} {r : CacheRet c} {room : Bool}
    (h : RoomInv maxSize config.world)
    (hnext : Concurrent.Next config t (.set path cacheEntry) c)
    (hpre : (roomSpec maxSize (.set path cacheEntry)).pre c room)
    (hok : KeepsRoom config t c) (hact : config.world.act c r w') :
    ∃ room', (roomSpec maxSize (.set path cacheEntry)).step c room r room' ∧
      (room' = true → RoomFor w'.cache path) := by
  have hle := h.wf.count_le
  have hmax := h.maxcount_eq
  cases c with
  | maxcount => exact ⟨false, ⟨hact.1.trans hmax, rfl⟩, fun he => by cases he⟩
  | isFull =>
    obtain ⟨rfl, rfl⟩ := hact
    refine ⟨_, rfl, fun hfull => .inl (lt_of_le_of_ne hle ?_)⟩
    simpa [Hash.isFull, Hash.count] using hfull
  | shrinkNum =>
    obtain ⟨rfl, hw⟩ := hact
    subst w'
    refine ⟨_, rfl, fun hzero => .inl ?_⟩
    have hzero' : min config.world.cache.batchSize config.world.cache.hashtable.count = 0 :=
      of_decide_eq_true hzero
    have hbatch := h.wf.batchSize_pos
    have hpos : 0 < maxSize := hpre
    omega
  | time =>
    obtain ⟨rfl, rfl⟩ := hact
    exact ⟨_, rfl, fun htime => hok path cacheEntry hnext (of_decide_eq_true htime)⟩
  | shrinkSection currentTime shrinkNum =>
    obtain ⟨hpos, hnum⟩ := hpre
    obtain ⟨removed, hs, hremoved⟩ :=
      config.world.cache.shrinkSection_shrunk h.wf.hashtable currentTime shrinkNum
    have hcount := hs.count_add h.wf.hashtable
    refine ⟨true, rfl, fun _ => .inl ?_⟩
    subst hact
    rw [CacheWorld.withTable_hashtable, hs.maxcount_eq]
    omega
  | setSection path' cacheEntry' => exact ⟨false, rfl, fun he => by cases he⟩
  | lookup path' => exact ⟨false, rfl, fun he => by cases he⟩
  | deleteSection hashNode => exact ⟨false, rfl, fun he => by cases he⟩
  | copyStatSection path' => exact ⟨false, rfl, fun he => by cases he⟩

/-- Only a set that has seen room comes to an insertion. -/
theorem roomAssertion_of_pre {maxSize : ℕ} {w : CacheWorld} {op : AttrCache.Op} {c : CacheCall}
    {room : Bool} (hpre : (roomSpec maxSize op).pre c room)
    (hroom : ∀ path cacheEntry, op = .set path cacheEntry → room = true →
      RoomFor w.cache path) : roomAssertion c w := by
  cases c with
  | setSection path' cacheEntry' =>
    cases op with
    | set path cacheEntry =>
      obtain ⟨rfl, -, htrue⟩ := hpre
      exact hroom _ cacheEntry rfl htrue
    | copyStat path => exact hpre.elim
    | remove path => exact hpre.elim
    | shrink => exact hpre.elim
  | _ => trivial

/-- A call that keeps the room of the other threads keeps their assertions. -/
theorem RoomInv.interference {maxSize : ℕ} {config : Threads Tid} {t t' : Tid}
    {op' : AttrCache.Op} {c c' : CacheCall} {r : CacheRet c} {w' : CacheWorld}
    (h : RoomInv maxSize config.world) (hroom : roomAssertion c config.world)
    (hok : KeepsRoom config t c) (hact : config.world.act c r w') (hne : t' ≠ t)
    (hnext' : Concurrent.Next config t' op' c') (hroom' : roomAssertion c' config.world) :
    roomAssertion c' w' := by
  cases c' with
  | setSection path' cacheEntry' =>
    rcases act_cases h.wf.hashtable hact with
      ⟨hashtable, removed, hs, rfl⟩ | ⟨path, cacheEntry, ok, cache, rfl, hrun, rfl⟩
    · exact roomFor_shrunk h.wf hs hroom'
    · exact roomFor_setSection h.wf hroom hroom' hrun fun hnone hfilled hpath =>
        hok hnone hfilled t' op' path' cacheEntry' hne hnext' hpath
  | _ => trivial

/-- The outline of the operations, with the room of a set as the assertion of its insertion. -/
def roomOutline (Tid : Type) [DecidableEq Tid] (maxSize : ℕ) :
    Concurrent.Outline (system Tid) KeepsRoom Bool (RoomInv maxSize) roomAssertion where
  spec := roomSpec maxSize
  first := false
  body := wp_body_room maxSize
  start := system_start
  enter op c w _ hpre := roomAssertion_of_pre hpre fun _ _ _ he => by cases he
  own config t op c room r w' hinv hnext hpre hroom hok hact := by
    refine ⟨hinv.act hroom hact, ?_⟩
    cases op with
    | set path cacheEntry =>
      obtain ⟨room', hstep, hroom'⟩ := hinv.room_own hnext hpre hok hact
      refine ⟨room', hstep, fun c' hpre' => roomAssertion_of_pre hpre' ?_⟩
      rintro _ _ ⟨rfl, rfl⟩ htrue
      exact hroom' htrue
    | _ =>
      exact ⟨room, trivial, fun c' hpre' => roomAssertion_of_pre hpre' fun _ _ he => by cases he⟩
  interference config t op c r w' t' op' c' hinv hnext hroom hok hact hne hnext' hroom' :=
    hinv.interference hroom hok hact hne hnext' hroom'
  finish := system_finish
  env w w' hinv hchange := by
    obtain ⟨now, rfl⟩ := hchange
    refine ⟨⟨hinv.wf, hinv.maxcount_eq⟩, fun c hroom => ?_⟩
    cases c <;> exact hroom

theorem roomInv_init (maxSize maxAgeSec : ℕ) (now : ℤ) :
    RoomInv maxSize (.init maxSize maxAgeSec now) :=
  ⟨AttrCache.wf_init maxSize maxAgeSec, rfl⟩

/-- **The cache is never overfull** in a run in which no call takes the room that another thread has
found: the number of entries stays within the bound, so the test for equality in `hash_isfull` finds
every table without room, and every insertion meets the precondition of `hash_insert`. -/
theorem count_le_maxcount [DecidableEq Tid] {maxSize maxAgeSec : ℕ} {now : ℤ}
    {config : Threads Tid}
    (h : Concurrent.ReachableIf (system Tid) KeepsRoom (.init maxSize maxAgeSec now) config) :
    config.world.cache.hashtable.count ≤ maxSize ∧
      (config.world.cache.hashtable.isFull = true ↔
        ¬ config.world.cache.hashtable.count < maxSize) ∧
      ∀ t op path cacheEntry,
        Concurrent.Next config t op (.setSection path cacheEntry) →
          (config.world.cache.remove path).hashtable.count < maxSize := by
  obtain ⟨⟨hwf, hmax⟩, -, hasserted⟩ :=
    h.outline (roomOutline Tid maxSize) (roomInv_init maxSize maxAgeSec now)
  have hle := hmax ▸ hwf.count_le
  refine ⟨hle, ?_, fun t op path cacheEntry hnext => ?_⟩
  · rw [Hash.isFull, beq_iff_eq, ← Hash.count, hmax]
    omega
  · have hroom : RoomFor config.world.cache path := hasserted t op _ hnext
    exact hmax ▸ count_remove_lt hwf hroom

/-- A stored new path is one entry more. -/
theorem count_setSection (h : cache.hashtable.Wf hashfuncDjb2) (hnone : cache.content path = none)
    {cacheEntry : CacheEntry} {step : (c : Chunk) → Unit → MemRet c → Unit → Prop}
    (hrun : (cache.setSection path cacheEntry).Runs step () (true, cache') ()) :
    cache'.hashtable.count = cache.hashtable.count + 1 := by
  obtain ⟨hwf, -, -, -, hnodes⟩ := AttrCache.setSection_spec h hrun
  rw [if_pos rfl] at hnodes
  have hlen := hnodes.length_eq
  rcases AttrCache.remove_cases h path with ⟨-, heq⟩ | ⟨hentry, -⟩
  · rw [heq] at hlen
    rw [hwf.count_eq, h.count_eq, hlen, List.length_cons]
  · exact absurd hnone hentry

/-- Where an insertion takes the room of another thread, the table can be overfilled: both insert,
one after the other. -/
theorem overfull_of_not_keepsRoom [DecidableEq Tid] {maxSize maxAgeSec : ℕ} {now : ℤ}
    {config : Threads Tid} {t : Tid} {op : AttrCache.Op} {cacheEntry : CacheEntry}
    (h : Concurrent.ReachableIf (system Tid) KeepsRoom (.init maxSize maxAgeSec now) config)
    (hnext : Concurrent.Next config t op (.setSection path cacheEntry))
    (htaken : ¬ KeepsRoom config t (.setSection path cacheEntry)) :
    ∃ config', Concurrent.Reachable (system Tid) (.init maxSize maxAgeSec now) config' ∧
      maxSize < config'.world.cache.hashtable.count := by
  obtain ⟨⟨hwf, hmax⟩, -, hasserted⟩ :=
    h.outline (roomOutline Tid maxSize) (roomInv_init maxSize maxAgeSec now)
  have hroom : RoomFor config.world.cache path := hasserted t op _ hnext
  rw [KeepsRoom] at htaken
  push Not at htaken
  obtain ⟨hnone, hfilled, t', op', path', cacheEntry', hne, ⟨k', hk'⟩, hpath, hnone'⟩ := htaken
  obtain ⟨k, hk⟩ := hnext
  obtain ⟨cache₁, hrun₁⟩ := AttrCache.runs_setSection config.world.cache path cacheEntry
  obtain ⟨cache₂, hrun₂⟩ := AttrCache.runs_setSection cache₁ path' cacheEntry'
  have hwf₁ := wf_setSection hwf hroom hrun₁
  have hcount₁ := count_setSection hwf.hashtable hnone hrun₁
  -- the second path still has no entry
  have hnone₁ : cache₁.content path' = none := by
    obtain ⟨-, -, -, -, hnodes⟩ := AttrCache.setSection_spec hwf.hashtable hrun₁
    rw [if_pos rfl] at hnodes
    refine (AttrCache.content_eq_none_iff hwf₁).mpr fun node hmem => ?_
    rcases List.mem_cons.mp (hnodes.mem_iff.mp hmem) with rfl | hold
    · exact hpath.symm
    · exact (AttrCache.content_eq_none_iff hwf).mp hnone' node
        ((AttrCache.mem_nodes_remove hwf.hashtable).mp hold).1
  have hcount₂ := count_setSection hwf₁.hashtable hnone₁ hrun₂
  have hstep₁ := h.reachable.step (.act t hk ⟨cache₁, hrun₁, rfl⟩)
  have hstep₂ := hstep₁.step (.act t' ((Function.update_of_ne hne _ _).trans hk')
    ⟨cache₂, hrun₂, rfl⟩)
  refine ⟨_, hstep₂, ?_⟩
  dsimp only
  omega

/-- A thread alone fills a cache for one entry. -/
theorem count_le_maxcount_full : ∃ config : Threads Bool,
    config.world.cache.hashtable.count = 1 ∧ config.world.cache.hashtable.isFull = true := by
  have hstart : Concurrent.ReachableIf (system Bool) KeepsRoom (.init 1 60 10)
      ⟨.init 1 60 10, fun _ => none⟩ := .init
  have hinsert := reachable_insertion hstart false [47, 97] anEntry rfl (by decide) rfl
    fun _ => ⟨trivial, trivial⟩
  obtain ⟨cache', hrun⟩ := AttrCache.runs_setSection (AttrCache.init 1 60) [47, 97] anEntry
  have hend := hinsert.act (c := .setSection [47, 97] anEntry) false rfl ?_ ⟨cache', hrun, rfl⟩
  · have hcount := count_setSection (AttrCache.wf_init 1 60).hashtable rfl hrun
    exact ⟨_, hcount, (count_le_maxcount hend).2.1.mpr (by dsimp only; omega)⟩
  -- the other thread is idle
  · rintro - - t' op path cacheEntry hne ⟨k, hk⟩
    have hidle := hk.symm.trans (Function.update_of_ne hne _ _)
    cases hidle

/-- Two threads that both find room for one entry overfill the table. -/
theorem not_count_le_maxcount : ¬ ∀ config : Threads Bool,
    Concurrent.Reachable (system Bool) (.init 1 60 10) config →
      config.world.cache.hashtable.count ≤ 1 := by
  intro hle
  have hstart : Concurrent.ReachableIf (system Bool) KeepsRoom (.init 1 60 10)
      ⟨.init 1 60 10, fun _ => none⟩ := .init
  have hfirst := reachable_insertion hstart false [47, 97] anEntry rfl (by decide) rfl
    fun _ => ⟨trivial, trivial⟩
  have hboth := reachable_insertion hfirst true [47, 98] anEntry rfl (by decide) rfl
    fun _ => ⟨trivial, trivial⟩
  obtain ⟨config, hreach, hlt⟩ := overfull_of_not_keepsRoom (t := false) hboth ⟨_, rfl⟩
    fun hkeeps => hkeeps rfl rfl true _ [47, 98] anEntry (by decide) ⟨_, rfl⟩ (by decide) rfl
  exact absurd (hle config hreach) (Nat.not_le.mpr hlt)

end Capacity

end Rhizofs.CacheThreads
