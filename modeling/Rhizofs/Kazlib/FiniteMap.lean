import Rhizofs.Kazlib.Scan

/-!
# The hash table is a finite map

A caller of `kazlib/hash.c` looks keys up, inserts, deletes, scans, and frees all the nodes. It
keeps to what the assertions of `hash_insert` demand: the key is new, there is room, and the node is
not in the table. Then every operation returns, its assertions hold, and it answers like a finite
map from keys to data (`hash_finite_map`), for every hash function, whatever the allocator answers
and whatever becomes of the memory of the freed nodes.
-/

namespace Rhizofs.Kazlib

open Extern

namespace LinkedHash

variable {P K D : Type}

/-- The operations of a caller. `insert` carries what the allocators of the node and of a larger
table answer; `scan` deletes the nodes that `select` holds of. -/
inductive Op (P K D : Type)
  | lookup (key : K)
  | insert (key : K) (data : D) (allocnode : Option P) (realloc : Bool)
  | delete (key : K)
  | scan (select : K → D → Bool)
  | freeNodes

inductive Answer (K D : Type)
  | found (data : Option D)
  | inserted (ok : Bool)
  | deleted (ok : Bool)
  | scanned (entries : List (K × D))

section Ops

variable [DecidableEq P] [DecidableEq K]

/-- An operation with `hash_lookup` and `hnode_get`, `hash_alloc_insert`, `hash_delete_free`,
`hash_scan_begin`, `hash_scan_next` and `hash_scan_delfree`, or `hash_free_nodes`. -/
def perform (h : LinkedHash P K D) (bound : ℕ) (function : K → ℕ)
    (freed : P → Option P × Hnode K D) : Op P K D → Option (Answer K D × LinkedHash P K D)
  | .lookup key => do
    let found ← h.lookup bound function key
    return (.found (found.map fun p => (h.node p).data), h)
  | .insert key data allocnode realloc => do
    let (ok, h) ← h.allocInsert bound function allocnode realloc key data
    return (.inserted ok, h)
  | .delete key => do
    match ← h.lookup bound function key with
    | none => return (.deleted false, h)
    | some p => return (.deleted true, ← h.deleteFree bound function p (freed p))
  | .scan select => do
    let (h, entries) ← scanLoop bound function (some freed) (fun _ => true)
      (fun entries node => (select node.key node.data, entries ++ [(node.key, node.data)]))
      bound h h.scanBegin []
    return (.scanned entries, h)
  | .freeNodes => do
    let (h, nodes) ← h.freeNodes bound function freed
    return (.scanned (nodes.map fun node => (node.key, node.data)), h)

/-- The node is in the table. -/
def Linked (h : LinkedHash P K D) (p : P) : Prop :=
  ∃ hptr ∈ h.table, ∃ ps, Segment h.next hptr ps (some p)

/-- What `hash_insert` demands of its caller. -/
def Allowed (h : LinkedHash P K D) (entries : K → Option D) : Op P K D → Prop
  | .insert key _ allocnode _ => entries key = none ∧ h.nodecount < h.maxcount ∧
      ∀ p, allocnode = some p → ¬ h.Linked p
  | _ => True

/-- The map after an operation. -/
def after (entries : K → Option D) : Op P K D → K → Option D
  | .lookup _ => entries
  | .insert key data allocnode _ =>
    if allocnode.isSome then Function.update entries key (some data) else entries
  | .delete key => Function.update entries key none
  | .scan select => fun key => (entries key).filter fun data => !select key data
  | .freeNodes => fun _ => none

/-- The entries, each of them once. -/
def Lists (entries : K → Option D) (scanned : List (K × D)) : Prop :=
  (scanned.map (·.1)).Nodup ∧ ∀ key data, (key, data) ∈ scanned ↔ entries key = some data

/-- What a map answers. A scan and `hash_free_nodes` get every entry once. -/
def Answers (entries : K → Option D) : Op P K D → Answer K D → Prop
  | .lookup key, answer => answer = .found (entries key)
  | .insert _ _ allocnode _, answer => answer = .inserted allocnode.isSome
  | .delete key, answer => answer = .deleted (entries key).isSome
  | .scan _, answer => ∃ scanned, answer = .scanned scanned ∧ Lists entries scanned
  | .freeNodes, answer => ∃ scanned, answer = .scanned scanned ∧ Lists entries scanned

/-- The tables that a caller can get from `hash_create`, with the map that they should be. No loop
is cut short by its bound. -/
inductive MapRun (function : K → ℕ) (maxcount : ℕ) : LinkedHash P K D → (K → Option D) → Prop
  | create (next : P → Option P) (node : P → Hnode K D) :
      MapRun function maxcount (create next node maxcount) fun _ => none
  | perform {h h' : LinkedHash P K D} {entries : K → Option D}
      (run : MapRun function maxcount h entries) (op : Op P K D) (allowed : h.Allowed entries op)
      {bound : ℕ} (large : h.nodecount < bound) {freed : P → Option P × Hnode K D}
      {answer : Answer K D} (returns : h.perform bound function freed op = some (answer, h')) :
      MapRun function maxcount h' (after entries op)

end Ops

/-- The nodes are the entries of the map. -/
structure Holds (hash : Hash K D) (function : K → ℕ) (entries : K → Option D) : Prop where
  sound : hash.Sound function
  entry : ∀ key data, entries key = some data ↔
    ∃ node ∈ hash.nodes, node.key = key ∧ node.data = data

section Holds

variable [DecidableEq K] {hash : Hash K D} {function : K → ℕ} {entries : K → Option D} {key : K}

omit [DecidableEq K] in
theorem Holds.lists_nodes (hh : Holds hash function entries) :
    Lists entries (hash.nodes.map fun node => (node.key, node.data)) := by
  constructor
  · rw [List.map_map]
    exact hh.sound.wf.nodup
  · intro key data
    rw [hh.entry, List.mem_map]
    simp only [Prod.mk.injEq]

theorem Holds.lookup_eq (hh : Holds hash function entries) (key : K) :
    (hash.lookup function key).map (·.data) = entries key := by
  refine Option.ext fun data => ?_
  rw [hh.entry, Option.map_eq_some_iff]
  simp only [Hash.lookup_eq_some_iff hh.sound.wf, and_assoc]

theorem Holds.lookup_eq_none (hh : Holds hash function entries) (hkey : entries key = none) :
    hash.lookup function key = none := by
  rw [← hh.lookup_eq] at hkey
  exact Option.map_eq_none_iff.mp hkey

theorem Holds.inserted (hh : Holds hash function entries) (hkey : entries key = none) (data : D)
    (realloc : Bool) (hsound : (inserted hash function realloc key data).Sound function) :
    Holds (LinkedHash.inserted hash function realloc key data) function
      (Function.update entries key (some data)) := by
  refine ⟨hsound, fun key' data' => ?_⟩
  have hfree := Hash.lookup_eq_none hh.sound.wf (hh.lookup_eq_none hkey)
  obtain ⟨-, -, hperm⟩ := Hash.insert_spec hh.sound.wf hfree
    (runs_inserted hash function realloc key data)
  simp only [hperm.mem_iff, List.mem_cons]
  by_cases hk : key' = key
  · subst hk
    rw [Function.update_self]
    constructor
    · intro he
      exact ⟨_, .inl rfl, rfl, Option.some.inj he⟩
    · rintro ⟨node, rfl | hmem, hk, hd⟩
      · exact congrArg some hd
      · exact absurd hk (hfree node hmem)
  · rw [Function.update_of_ne hk, hh.entry]
    constructor
    · rintro ⟨node, hmem, hnode⟩
      exact ⟨node, .inr hmem, hnode⟩
    · rintro ⟨node, rfl | hmem, hnode⟩
      · exact absurd hnode.1.symm hk
      · exact ⟨node, hmem, hnode⟩

theorem Holds.delete (hh : Holds hash function entries) {node : Hnode K D}
    (hmem : node ∈ hash.nodes) :
    Holds (hash.delete node) function (Function.update entries node.key none) := by
  refine ⟨hh.sound.delete hmem, fun key' data' => ?_⟩
  simp only [(Hash.nodes_delete hh.sound.wf hmem).mem_iff, List.mem_filter]
  by_cases hk : key' = node.key
  · subst hk
    rw [Function.update_self]
    constructor
    · intro he
      cases he
    · rintro ⟨node', ⟨-, hne⟩, hk, -⟩
      simp [hk] at hne
  · rw [Function.update_of_ne hk, hh.entry]
    constructor
    · rintro ⟨node', hmem', rfl, hd⟩
      exact ⟨node', ⟨hmem', by simpa using hk⟩, rfl, hd⟩
    · rintro ⟨node', ⟨hmem', -⟩, hnode⟩
      exact ⟨node', hmem', hnode⟩

/-- A loop that deletes the selected nodes of `rest`, and collects something of each. -/
theorem scanNodes_select {α : Type} (hs : hash.Sound function) (select : K → D → Bool)
    (collect : Hnode K D → α) {rest : List (Hnode K D)} (hnodup : (rest.map (·.key)).Nodup)
    (hsub : rest ⊆ hash.nodes) (seen : List α) :
    ∃ hash', hash.scanNodes (fun _ => true)
        (fun seen node => (select node.key node.data, seen ++ [collect node]))
        rest seen = (hash', seen ++ rest.map collect) ∧
      ∀ node, node ∈ hash'.nodes ↔
        node ∈ hash.nodes ∧ ¬ (node ∈ rest ∧ select node.key node.data) := by
  induction rest generalizing hash seen with
  | nil => exact ⟨hash, by simp [Hash.scanNodes], by simp⟩
  | cons node rest ih =>
    obtain ⟨hkey, hnodup⟩ := List.nodup_cons.mp hnodup
    have hmem : node ∈ hash.nodes := hsub List.mem_cons_self
    have hrest : rest ⊆ hash.nodes := List.subset_of_cons_subset hsub
    have hother : ∀ node' ∈ rest, node'.key ≠ node.key := fun node' hmem' he =>
      hkey (List.mem_map.mpr ⟨node', hmem', he⟩)
    rw [Hash.scanNodes]
    by_cases hselect : select node.key node.data = true
    · have hnodes := Hash.nodes_scanDelete hs.wf hmem
      have hrest' : rest ⊆ (hash.scanDelete node).nodes := by
        intro node' hmem'
        rw [hnodes, List.mem_filter]
        exact ⟨hrest hmem', by simpa using hother node' hmem'⟩
      obtain ⟨hash', hrun, hiff⟩ := ih (hs.scanDelete hmem) hnodup hrest'
        (seen ++ [collect node])
      refine ⟨hash', ?_, fun node' => ?_⟩
      · simpa [hselect] using hrun
      · rw [hiff, hnodes, List.mem_filter, List.mem_cons]
        by_cases hk : node'.key = node.key
        · constructor
          · rintro ⟨⟨-, hk'⟩, -⟩
            simp [hk] at hk'
          · rintro ⟨hmem', hnot⟩
            obtain rfl := hs.wf.eq_of_key hmem' hmem hk
            exact absurd ⟨.inl rfl, hselect⟩ hnot
        · have hne : node' ≠ node := fun he => hk (congrArg Hnode.key he)
          simp [hk, hne]
    · obtain ⟨hash', hrun, hiff⟩ := ih hs hnodup hrest (seen ++ [collect node])
      refine ⟨hash', ?_, fun node' => ?_⟩
      · simpa [hselect] using hrun
      · rw [hiff, List.mem_cons]
        by_cases hne : node' = node
        · subst hne
          simp [hselect]
        · simp [hne]

end Holds

/-! ## Runs -/

/-- The chains of a table, which hold the entries of the map. -/
structure Represents (h : LinkedHash P K D) (chains : List (List P)) (function : K → ℕ)
    (entries : K → Option D) : Prop where
  laid : h.Laid chains
  holds : Holds (h.view chains) function entries

section Runs

variable [DecidableEq P] [DecidableEq K] {h h' : LinkedHash P K D} {chains : List (List P)}
  {function : K → ℕ} {entries : K → Option D} {bound maxcount : ℕ}

omit [DecidableEq P] [DecidableEq K] in
theorem laid_create (next : P → Option P) (node : P → Hnode K D) (maxcount : ℕ) :
    ∃ chains, (create next node maxcount).Laid chains ∧
      (create next node maxcount).view chains = Hash.create maxcount := by
  refine ⟨List.replicate INIT_SIZE [], ⟨?_, by simp⟩, by simp [view, create, Hash.create]⟩
  rw [forall₂_iff_getElem?]
  refine ⟨by simp [create], fun i hptr ps hhptr hps => ?_⟩
  obtain rfl := List.eq_of_mem_replicate (List.mem_of_getElem? hhptr)
  obtain rfl := List.eq_of_mem_replicate (List.mem_of_getElem? hps)
  rfl

omit [DecidableEq P] [DecidableEq K] in
theorem represents_create (next : P → Option P) (node : P → Hnode K D) :
    ∃ chains, (create next node maxcount).Represents chains function fun _ => none := by
  obtain ⟨chains, hlaid, hview⟩ := laid_create next node maxcount
  refine ⟨chains, hlaid, hview ▸ .create maxcount, fun key data => ?_⟩
  rw [hview]
  simp [Hash.nodes, Hash.create]

omit [DecidableEq P] [DecidableEq K] in
/-- The nodes of the chains are in the table. -/
theorem Laid.linked (hl : h.Laid chains) {p : P} (hp : p ∈ chains.flatten) : h.Linked p := by
  obtain ⟨ps, hps, hp⟩ := List.mem_flatten.mp hp
  obtain ⟨i, hi⟩ := List.mem_iff_getElem?.mp hps
  have hlt : i < h.table.length := by
    rw [hl.length_eq]
    exact (List.getElem?_eq_some_iff.mp hi).1
  have hhptr := List.getElem?_eq_getElem hlt
  have hchain := (forall₂_iff_getElem?.mp hl.table).2 i _ _ hhptr hi
  obtain ⟨before, after, rfl⟩ := List.append_of_mem hp
  obtain ⟨mid, hbefore, rfl, -⟩ := segment_append.mp hchain
  exact ⟨_, List.mem_of_getElem? hhptr, before, hbefore⟩

/-- `hash_alloc_insert` with a node. -/
theorem allocInsert_view (hl : h.Laid chains) (hs : (h.view chains).Sound function)
    (hbound : h.nodecount < bound) {key : K} (hkey : (h.view chains).lookup function key = none)
    (hroom : h.nodecount < h.maxcount) {p : P} (hp : p ∉ chains.flatten) (data : D)
    (realloc : Bool) :
    ∃ h' chains', h.allocInsert bound function (some p) realloc key data = some (true, h') ∧
      h'.Laid chains' ∧
      h'.view chains' = inserted (h.view chains) function realloc key data ∧
      (h'.view chains').Sound function ∧ chains'.flatten.Perm (p :: chains.flatten) := by
  -- like freeing the node, `hnode_init` changes the fields of a node outside the table
  have hinit : (h.hnodeInit p data).Laid chains ∧
      (h.hnodeInit p data).view chains = h.view chains :=
    freenode_view hl hp (none, { h.node p with data := data })
  obtain ⟨hlaid, hview⟩ := hinit
  obtain ⟨h', chains', hrun, hlaid', hview', hs', hperm⟩ :=
    insert_view hlaid (hview ▸ hs) hbound hp (Function.update_self ..) hroom (hview ▸ hkey) realloc
  refine ⟨h', chains', ?_, hlaid', ?_, hs', hperm⟩
  · unfold allocInsert
    dsimp only
    rw [hrun]
    rfl
  · have hdata : ((h.hnodeInit p data).node p).data = data := by simp [hnodeInit]
    rw [hview', hview, hdata]

/-- An operation returns, answers like the map, and leaves a table that represents the map. -/
def Performs (h : LinkedHash P K D) (bound : ℕ) (function : K → ℕ) (entries : K → Option D)
    (op : Op P K D) : Prop :=
  ∀ freed, ∃ answer h' chains', h.perform bound function freed op = some (answer, h') ∧
    Answers entries op answer ∧ h'.Represents chains' function (after entries op)

theorem performs_lookup (hr : h.Represents chains function entries) (hbound : h.nodecount ≤ bound)
    (key : K) : h.Performs bound function entries (.lookup key) := by
  intro freed
  obtain ⟨found, hrun, hview, -⟩ := lookup_view hr.laid hr.holds.sound hbound key
  refine ⟨.found (found.map fun p => (h.node p).data), h, chains, ?_, ?_, hr⟩
  · simp [LinkedHash.perform, hrun]
  · show Answer.found _ = .found (entries key)
    rw [← hr.holds.lookup_eq, hview, Option.map_map]
    rfl

theorem performs_insert (hr : h.Represents chains function entries) (hbound : h.nodecount < bound)
    {key : K} {data : D} {allocnode : Option P} {realloc : Bool}
    (hallowed : h.Allowed entries (.insert key data allocnode realloc)) :
    h.Performs bound function entries (.insert key data allocnode realloc) := by
  intro freed
  obtain ⟨hkey, hroom, hfree⟩ := hallowed
  cases allocnode with
  | none => exact ⟨_, h, chains, rfl, rfl, hr⟩
  | some p =>
    have hp : p ∉ chains.flatten := fun hp => hfree p rfl (hr.laid.linked hp)
    obtain ⟨h', chains', hrun, hlaid, hview, hsound, -⟩ := allocInsert_view hr.laid
      hr.holds.sound hbound (hr.holds.lookup_eq_none hkey) hroom hp data realloc
    refine ⟨.inserted true, h', chains', ?_, rfl, hlaid, ?_⟩
    · simp [LinkedHash.perform, hrun]
    · rw [hview] at hsound ⊢
      exact hr.holds.inserted hkey data realloc hsound

theorem performs_delete (hr : h.Represents chains function entries) (hbound : h.nodecount ≤ bound)
    (key : K) : h.Performs bound function entries (.delete key) := by
  intro freed
  obtain ⟨found, hrun, hview, hmem⟩ := lookup_view hr.laid hr.holds.sound hbound key
  have hentry := hr.holds.lookup_eq key
  rw [hview, Option.map_map] at hentry
  cases found with
  | none =>
    have hnone : entries key = none := hentry.symm
    refine ⟨.deleted false, h, chains, ?_, ?_, hr.laid, ?_⟩
    · simp [LinkedHash.perform, hrun]
    · simp [Answers, hnone]
    · have hsame : after entries (.delete key : Op P K D) = entries := by
        rw [after, ← hnone, Function.update_eq_self]
      rw [hsame]
      exact hr.holds
  | some p =>
    obtain ⟨h', chains', hdel, hlaid, hview'⟩ :=
      deleteFree_view hr.laid hr.holds.sound hbound (hmem p rfl) (freed p)
    obtain ⟨hnode, hkey⟩ := Hash.lookup_eq_some hr.holds.sound.wf hview
    refine ⟨.deleted true, h', chains', ?_, ?_, hlaid, ?_⟩
    · simp [LinkedHash.perform, hrun, hdel]
    · show Answer.deleted true = .deleted (entries key).isSome
      rw [← hentry]
      rfl
    · rw [hview', after, ← hkey]
      exact hr.holds.delete hnode

/-- A loop that deletes and frees the selected nodes, and collects something of each node. -/
theorem scan_select {α : Type} (hr : h.Represents chains function entries)
    (hbound : h.nodecount ≤ bound) (freed : P → Option P × Hnode K D) (select : K → D → Bool)
    (collect : Hnode K D → α) :
    ∃ h' chains', scanLoop bound function (some freed) (fun _ => true)
        (fun seen node => (select node.key node.data, seen ++ [collect node]))
        bound h h.scanBegin [] = some (h', (h.view chains).nodes.map collect) ∧
      h'.Represents chains' function (after entries (.scan select : Op P K D)) := by
  have hh := hr.holds
  obtain ⟨h', chains', seen, hrun, hview, hscanned⟩ := scan_view (some freed) (fun _ => true)
    (fun seen node => (select node.key node.data, seen ++ [collect node]))
    hr.laid hh.sound hbound []
  obtain ⟨hash', hlist, hnodes⟩ :=
    scanNodes_select hh.sound select collect hh.sound.wf.nodup (List.Subset.refl _) []
  rw [hlist, List.nil_append] at hview
  obtain ⟨rfl, rfl⟩ := Prod.mk.inj hview
  refine ⟨h', chains', hrun, hscanned.laid, hscanned.sound, fun key data => ?_⟩
  simp only [hnodes]
  rw [after, Option.filter_eq_some_iff, hh.entry]
  constructor
  · rintro ⟨⟨node, hmem, rfl, rfl⟩, hkeep⟩
    exact ⟨node, ⟨hmem, fun ⟨_, hselect⟩ => by simp [hselect] at hkeep⟩, rfl, rfl⟩
  · rintro ⟨node, ⟨hmem, hnot⟩, rfl, rfl⟩
    exact ⟨⟨node, hmem, rfl, rfl⟩, by simpa using fun hselect => hnot ⟨hmem, hselect⟩⟩

theorem performs_scan (hr : h.Represents chains function entries) (hbound : h.nodecount ≤ bound)
    (select : K → D → Bool) : h.Performs bound function entries (.scan select) := by
  intro freed
  obtain ⟨h', chains', hrun, hr'⟩ :=
    scan_select hr hbound freed select fun node => (node.key, node.data)
  refine ⟨_, h', chains', ?_, ⟨_, rfl, hr.holds.lists_nodes⟩, hr'⟩
  simp [LinkedHash.perform, hrun]

omit [DecidableEq P] [DecidableEq K] in
/-- A table without nodes is already what `hash_free_nodes` makes of it. -/
theorem Represents.cleared (hr : h.Represents chains function fun _ => none) :
    ({ h with nodecount := 0, table := h.table.map fun _ => none } : LinkedHash P K D) = h := by
  have hnil : chains.flatten = [] := by
    rw [List.eq_nil_iff_forall_not_mem]
    intro p hp
    have hmem : h.node p ∈ (h.view chains).nodes := nodes_view ▸ List.mem_map_of_mem hp
    cases (hr.holds.entry (h.node p).key (h.node p).data).mpr ⟨_, hmem, rfl, rfl⟩
  have hcount : h.nodecount = 0 := by
    rw [← length_chains hr.holds.sound, hnil]
    rfl
  have htable : h.table.map (fun _ => none) = h.table := by
    refine (List.map_congr_left fun hptr hmem => ?_).trans (List.map_id _)
    obtain ⟨i, hi⟩ := List.mem_iff_getElem?.mp hmem
    have hlt : i < chains.length := by
      rw [← hr.laid.length_eq]
      exact (List.getElem?_eq_some_iff.mp hi).1
    have hps := List.getElem?_eq_getElem hlt
    have hchain := (forall₂_iff_getElem?.mp hr.laid.table).2 i _ _ hi hps
    have hempty : chains[i] = [] := List.flatten_eq_nil_iff.mp hnil _ (List.getElem_mem hlt)
    rw [hempty] at hchain
    exact Eq.symm hchain
  rw [htable, ← hcount]

theorem performs_freeNodes (hr : h.Represents chains function entries)
    (hbound : h.nodecount ≤ bound) : h.Performs bound function entries .freeNodes := by
  intro freed
  obtain ⟨h', chains', hrun, hr'⟩ := scan_select hr hbound freed (fun _ _ => true) id
  have hnone : after entries (.scan fun _ _ => true : Op P K D) = fun _ => none := by
    funext key
    simp [after]
  rw [hnone] at hr'
  have hloop : scanLoop bound function (some freed) (fun _ => true)
      (fun nodes node => (true, nodes ++ [node])) bound h h.scanBegin [] =
        some (h', (h.view chains).nodes) := by
    simpa using hrun
  have hfree : h.freeNodes bound function freed = some (h', (h.view chains).nodes) := by
    unfold freeNodes
    rw [hloop]
    exact congrArg (fun cleared => some (cleared, (h.view chains).nodes)) hr'.cleared
  refine ⟨_, h', chains', ?_, ⟨_, rfl, hr.holds.lists_nodes⟩, hr'⟩
  simp [LinkedHash.perform, hfree]

/-- **One operation.** -/
theorem Represents.performs (hr : h.Represents chains function entries)
    (hbound : h.nodecount < bound) (op : Op P K D) (hallowed : h.Allowed entries op) :
    h.Performs bound function entries op := by
  cases op with
  | lookup key => exact performs_lookup hr hbound.le key
  | insert key data allocnode realloc => exact performs_insert hr hbound hallowed
  | delete key => exact performs_delete hr hbound.le key
  | scan select => exact performs_scan hr hbound.le select
  | freeNodes => exact performs_freeNodes hr hbound.le

theorem represents_of_mapRun (run : MapRun function maxcount h entries) :
    ∃ chains, h.Represents chains function entries := by
  induction run with
  | create next node => exact represents_create next node
  | perform run op allowed large returns ih =>
    obtain ⟨chains, hr⟩ := ih
    obtain ⟨answer, h', chains', hrun, -, hr'⟩ := hr.performs large op allowed _
    obtain ⟨-, rfl⟩ := Prod.mk.inj (Option.some.inj (hrun.symm.trans returns))
    exact ⟨chains', hr'⟩

/-- **The hash table is a finite map.** After any operations that its assertions allow,
`hash_verify` succeeds, `hash_count` is the number of the keys, and the next operation returns and
answers like the map. -/
theorem hash_finite_map (run : MapRun function maxcount h entries) :
    (∀ bound, h.nodecount ≤ bound → h.verify bound = some true) ∧
      (∃ keys : List K, keys.Nodup ∧ keys.length = h.nodecount ∧
        ∀ key, key ∈ keys ↔ entries key ≠ none) ∧
      ∀ bound freed op, h.nodecount < bound → h.Allowed entries op →
        ∃ answer h', h.perform bound function freed op = some (answer, h') ∧
          Answers entries op answer := by
  obtain ⟨chains, hr⟩ := represents_of_mapRun run
  have hs := hr.holds.sound
  refine ⟨fun bound hbound => verify_eq_true hr.laid hs hbound,
    ⟨(h.view chains).nodes.map (·.key), hs.wf.nodup, ?_, fun key => ?_⟩,
    fun bound freed op hbound hallowed => ?_⟩
  · rw [List.length_map, nodes_view, List.length_map, length_chains hs]
  · rw [List.mem_map, Option.ne_none_iff_exists']
    simp only [hr.holds.entry]
    constructor
    · rintro ⟨node, hmem, rfl⟩
      exact ⟨node.data, node, hmem, rfl, rfl⟩
    · rintro ⟨data, node, hmem, hkey, -⟩
      exact ⟨node, hmem, hkey⟩
  · obtain ⟨answer, h', -, hrun, hanswers, -⟩ := hr.performs hbound op hallowed freed
    exact ⟨answer, h', hrun, hanswers⟩

/-- A table into which one node has been inserted. -/
theorem hash_finite_map_insert :
    ∃ h : LinkedHash ℕ ℕ ℕ,
      MapRun id 1 h (after (fun _ => none) (.insert 5 7 (some 0) true : Op ℕ ℕ ℕ)) ∧
        h.verify h.nodecount = some true := by
  obtain ⟨h, hh⟩ : ∃ h : LinkedHash ℕ ℕ ℕ, h = create (fun _ => none) (fun _ => ⟨0, 0, 0⟩) 1 :=
    ⟨_, rfl⟩
  have hcreate : MapRun id 1 h fun _ => none := hh ▸ .create _ _
  have hfree : ¬ h.Linked 0 := by
    rintro ⟨hptr, hmem, ps, hps⟩
    rw [hh] at hmem
    obtain rfl := List.eq_of_mem_replicate hmem
    cases ps with
    | nil => cases hps
    | cons p ps => cases hps.1
  have hallowed : h.Allowed (fun _ => none) (.insert 5 7 (some 0) true) := by
    refine ⟨rfl, by simp [hh, create], fun p hp => ?_⟩
    cases hp
    exact hfree
  have hlarge : h.nodecount < 1 := by simp [hh, create]
  obtain ⟨chains, hr⟩ := represents_of_mapRun hcreate
  obtain ⟨answer, h', -, hrun, -, -⟩ := hr.performs hlarge _ hallowed fun _ => (none, ⟨0, 0, 0⟩)
  have hinsert := hcreate.perform _ hallowed hlarge hrun
  exact ⟨h', hinsert, (hash_finite_map hinsert).1 _ (Nat.le_refl _)⟩

end Runs

end LinkedHash

end Rhizofs.Kazlib
