import Rhizofs.Fs.CacheThreads

/-!
# Deletions from the attribute cache among threads

`AttrCache_remove` looks a node up before it takes the mutex, so another thread may delete the node
in between. As long as no call deletes a node that another thread has looked up (`SparesFound`),
only nodes in the table are deleted (`delete_holds`). Where one does, the other thread is left about
to delete a node that has gone (`stale_of_not_sparesFound`, `not_delete_holds`).
-/

namespace Rhizofs.CacheThreads

open Extern Kazlib

variable {Tid : Type}

/-! ## Deletions -/

/-- A node that is deleted, and the table at that moment. -/
abbrev Deletion : Type := Hash CString CacheEntry × Hnode CString CacheEntry

/-- The deletions of the first loop of `AttrCache_shrink`. -/
def oldDeletions (cache : AttrCache) (now : ℤ) :
    List (Hnode CString CacheEntry) → Hash CString CacheEntry → List Deletion
  | [], _ => []
  | node :: scan, hashtable =>
    if cache.isTooOld now node.data then
      (hashtable, node) :: oldDeletions cache now scan (hashtable.scanDelete node)
    else oldDeletions cache now scan hashtable

/-- The deletions of the second loop. -/
def firstDeletions (shrinkNum : ℕ) :
    List (Hnode CString CacheEntry) → Hash CString CacheEntry → ℕ → List Deletion
  | [], _, _ => []
  | node :: scan, hashtable, removed =>
    if removed < shrinkNum then
      (hashtable, node) :: firstDeletions shrinkNum scan (hashtable.scanDelete node) (removed + 1)
    else []

/-- The deletions of `AttrCache_shrink`. -/
def shrinkDeletions (cache : AttrCache) (now : ℤ) (shrinkNum : ℕ) : List Deletion :=
  let (hashtable, removed) := cache.removeOld now cache.hashtable.nodes cache.hashtable 0
  oldDeletions cache now cache.hashtable.nodes cache.hashtable ++
    if removed < shrinkNum then firstDeletions shrinkNum hashtable.nodes hashtable removed else []

/-- The deletions of `AttrCache_remove` on a cache, which `AttrCache_set` makes too. -/
def removeDeletions (cache : AttrCache) (path : CString) : List Deletion :=
  match cache.hashtable.lookup hashfuncDjb2 path with
  | none => []
  | some node => [(cache.hashtable, node)]

/-- The deletions of `AttrCache_get`. -/
def getDeletions (cache : AttrCache) (now : ℤ) (path : CString) : List Deletion :=
  match cache.hashtable.lookup hashfuncDjb2 path with
  | none => []
  | some node =>
    if cache.entryIsDeprecated now node.data then [(cache.hashtable, node)] else []

/-- The nodes that a call hands to `hash_delete_free` or `hash_scan_delete`, each with the table at
that moment. All but the one of `AttrCache_remove` were found under the mutex. -/
def deletions (c : CacheCall) (w : CacheWorld) : List (Hash CString CacheEntry × NodeRef) :=
  match c with
  | .shrinkSection currentTime shrinkNum =>
    (shrinkDeletions w.cache currentTime shrinkNum).map fun d => (d.1, w.ref d.2)
  | .setSection path _ => (removeDeletions w.cache path).map fun d => (d.1, w.ref d.2)
  | .copyStatSection path => (getDeletions w.cache w.now path).map fun d => (d.1, w.ref d.2)
  | .deleteSection hashNode => [(w.cache.hashtable, hashNode)]
  | _ => []

/-- The call `c` of the thread `t` deletes no node that another thread has looked up and is about to
delete. -/
def SparesFound (config : Threads Tid) (t : Tid) (c : CacheCall) : Prop :=
  ∀ d ∈ deletions c config.world, ∀ t' op hashNode, t' ≠ t →
    Concurrent.Next config t' op (.deleteSection hashNode) → hashNode ≠ d.2

section Deletes

variable {hashtable hashtable' hashtable'' : Hash CString CacheEntry} {ds ds' : List Deletion}

/-- Each deletion takes a node of the table at that moment, and nothing else goes. -/
structure Deletes (hashtable hashtable' : Hash CString CacheEntry) (ds : List Deletion) :
    Prop where
  wf : hashtable'.Wf hashfuncDjb2
  subset : hashtable'.nodes ⊆ hashtable.nodes
  member : ∀ d ∈ ds, d.2 ∈ d.1.nodes
  kept : ∀ node ∈ hashtable.nodes, (∀ d ∈ ds, d.2 ≠ node) → node ∈ hashtable'.nodes
  gone : ∀ d ∈ ds, d.2 ∉ hashtable'.nodes

theorem Deletes.refl (h : hashtable.Wf hashfuncDjb2) : Deletes hashtable hashtable [] where
  wf := h
  subset := List.Subset.refl _
  member := by simp
  kept := fun _ hmem _ => hmem
  gone := by simp

theorem Deletes.append (h : Deletes hashtable hashtable' ds)
    (h' : Deletes hashtable' hashtable'' ds') : Deletes hashtable hashtable'' (ds ++ ds') where
  wf := h'.wf
  subset := List.Subset.trans h'.subset h.subset
  member := fun d hd => (List.mem_append.mp hd).elim (h.member d) (h'.member d)
  kept := fun node hmem hne =>
    h'.kept node (h.kept node hmem fun d hd => hne d (List.mem_append_left _ hd))
      fun d hd => hne d (List.mem_append_right _ hd)
  gone := fun d hd => (List.mem_append.mp hd).elim
    (fun hd hmem => h.gone d hd (h'.subset hmem)) (h'.gone d)

/-- A table that has lost the nodes with the key of `node`. -/
theorem deletes_of_mem_iff (h : hashtable.Wf hashfuncDjb2) (hwf : hashtable'.Wf hashfuncDjb2)
    {node : Hnode CString CacheEntry} (hmem : node ∈ hashtable.nodes)
    (hnodes : ∀ node', node' ∈ hashtable'.nodes ↔
      node' ∈ hashtable.nodes ∧ node'.key ≠ node.key) :
    Deletes hashtable hashtable' [(hashtable, node)] where
  wf := hwf
  subset := fun node' hmem' => ((hnodes node').mp hmem').1
  member := by simpa using hmem
  kept := fun node' hmem' hne => (hnodes node').mpr ⟨hmem', fun hkey =>
    hne _ (List.mem_singleton.mpr rfl) (h.eq_of_key hmem hmem' hkey.symm)⟩
  gone := by
    simp only [List.mem_singleton, forall_eq]
    exact fun hmem' => ((hnodes node).mp hmem').2 rfl

theorem deletes_scanDelete (h : hashtable.Wf hashfuncDjb2) {node : Hnode CString CacheEntry}
    (hmem : node ∈ hashtable.nodes) :
    Deletes hashtable (hashtable.scanDelete node) [(hashtable, node)] :=
  deletes_of_mem_iff h (Hash.wf_scanDelete h hmem) hmem fun node' => by
    rw [Hash.nodes_scanDelete h hmem, List.mem_filter, decide_eq_true_eq]

theorem deletes_delete (h : hashtable.Wf hashfuncDjb2) {node : Hnode CString CacheEntry}
    (hmem : node ∈ hashtable.nodes) :
    Deletes hashtable (hashtable.delete node) [(hashtable, node)] :=
  deletes_of_mem_iff h (Hash.wf_delete h hmem) hmem fun node' => by
    rw [(Hash.nodes_delete h hmem).mem_iff, List.mem_filter, decide_eq_true_eq]

theorem removeOld_deletes (cache : AttrCache) (now : ℤ) {scan : List (Hnode CString CacheEntry)}
    (h : hashtable.Wf hashfuncDjb2) (removed : ℕ) (hsub : scan ⊆ hashtable.nodes)
    (hnodup : (scan.map (·.key)).Nodup) :
    Deletes hashtable (cache.removeOld now scan hashtable removed).1
      (oldDeletions cache now scan hashtable) := by
  induction scan generalizing hashtable removed with
  | nil => exact .refl h
  | cons node scan ih =>
    have hnodup' := (List.nodup_cons.mp hnodup).2
    unfold AttrCache.removeOld oldDeletions
    split_ifs
    · have hmem := hsub (List.mem_cons_self ..)
      exact (deletes_scanDelete h hmem).append
        (ih (Hash.wf_scanDelete h hmem) _ (AttrCache.scan_subset h hsub hnodup) hnodup')
    · exact ih h _ (fun _ hmem => hsub (List.mem_cons_of_mem _ hmem)) hnodup'

theorem removeFirst_deletes (shrinkNum : ℕ) {scan : List (Hnode CString CacheEntry)}
    (h : hashtable.Wf hashfuncDjb2) (removed : ℕ) (hsub : scan ⊆ hashtable.nodes)
    (hnodup : (scan.map (·.key)).Nodup) :
    Deletes hashtable (AttrCache.removeFirst shrinkNum scan hashtable removed).1
      (firstDeletions shrinkNum scan hashtable removed) := by
  induction scan generalizing hashtable removed with
  | nil => exact .refl h
  | cons node scan ih =>
    unfold AttrCache.removeFirst firstDeletions
    split_ifs
    · have hmem := hsub (List.mem_cons_self ..)
      exact (deletes_scanDelete h hmem).append (ih (Hash.wf_scanDelete h hmem) _
        (AttrCache.scan_subset h hsub hnodup) (List.nodup_cons.mp hnodup).2)
    · exact .refl h

/-- `AttrCache_shrink` deletes nodes that are in the table when it does. -/
theorem shrinkSection_deletes (cache : AttrCache) (h : cache.hashtable.Wf hashfuncDjb2) (now : ℤ)
    (shrinkNum : ℕ) :
    Deletes cache.hashtable (cache.shrinkSection now shrinkNum).hashtable
      (shrinkDeletions cache now shrinkNum) := by
  have hold := removeOld_deletes cache now h 0 (List.Subset.refl _) h.nodup
  unfold AttrCache.shrinkSection shrinkDeletions
  dsimp only
  split_ifs
  · exact hold.append (removeFirst_deletes shrinkNum hold.wf _ (List.Subset.refl _) hold.wf.nodup)
  · exact hold.append (.refl hold.wf)

theorem remove_deletes (cache : AttrCache) (h : cache.hashtable.Wf hashfuncDjb2) (path : CString) :
    Deletes cache.hashtable (cache.remove path).hashtable (removeDeletions cache path) := by
  unfold AttrCache.remove removeDeletions
  cases hl : cache.hashtable.lookup hashfuncDjb2 path with
  | none => exact .refl h
  | some node => exact deletes_delete h (Hash.lookup_eq_some h hl).1

theorem copyStat_deletes (cache : AttrCache) (h : cache.hashtable.Wf hashfuncDjb2) (now : ℤ)
    (path : CString) :
    Deletes cache.hashtable (cache.copyStat now path).2.hashtable
      (getDeletions cache now path) := by
  unfold AttrCache.copyStat AttrCache.get getDeletions
  dsimp only
  cases hl : cache.hashtable.lookup hashfuncDjb2 path with
  | none => exact .refl h
  | some node =>
    dsimp only
    split_ifs
    · exact deletes_delete h (Hash.lookup_eq_some h hl).1
    · exact .refl h

end Deletes

section Found

variable {w w' : CacheWorld} {c : CacheCall} {r : CacheRet c} {hashNode : NodeRef}

/-- The invariant: the table is well formed, and the numbers of allocations are not used again. -/
structure BirthInv (w : CacheWorld) : Prop where
  wf : w.cache.hashtable.Wf hashfuncDjb2
  birth_lt : ∀ path, w.birth path < w.births

/-- The assertion at the section of `AttrCache_remove`: the node is in the table. -/
def deleteAssertion : CacheCall → CacheWorld → Prop
  | .deleteSection hashNode, w => w.Holds hashNode
  | _, _ => True

theorem holds_ref {node : Hnode CString CacheEntry} (hmem : node ∈ w.cache.hashtable.nodes) :
    w.Holds (w.ref node) := ⟨hmem, rfl⟩

theorem CacheWorld.Holds.eq_ref (h : w.Holds hashNode) : hashNode = w.ref hashNode.node := by
  obtain ⟨node, birth⟩ := hashNode
  obtain ⟨-, hbirth⟩ := h
  exact congrArg (NodeRef.mk node) hbirth.symm

/-- What a call leaves of the table: it makes its deletions and after that at most adds a new
node. -/
structure Left (w w' : CacheWorld) (hashtable : Hash CString CacheEntry) : Prop where
  inv : BirthInv w'
  holds_iff : ∀ hashNode : NodeRef, hashNode.birth < w.births →
    (w'.Holds hashNode ↔
      hashNode.node ∈ hashtable.nodes ∧ w.birth hashNode.node.key = hashNode.birth)

theorem left_withTable (h : BirthInv w) {hashtable : Hash CString CacheEntry}
    (hwf : hashtable.Wf hashfuncDjb2) : Left w (w.withTable hashtable) hashtable where
  inv := ⟨hwf, h.birth_lt⟩
  holds_iff := fun _ _ => Iff.rfl

theorem left_setSection (h : BirthInv w) {path : CString} {cacheEntry : CacheEntry}
    {cache' : AttrCache} {ok : Bool}
    (hrun : (w.cache.setSection path cacheEntry).Runs (fun _ _ _ _ => True) () (ok, cache') ()) :
    Left w { w with
      cache := cache'
      birth := if ok then Function.update w.birth path w.births else w.birth
      births := w.births + 1 } (w.cache.remove path).hashtable := by
  obtain ⟨hwf, -, -, -, hnodes⟩ := AttrCache.setSection_spec h.wf hrun
  cases ok with
  | false =>
    rw [if_neg Bool.false_ne_true] at hnodes
    subst hnodes
    exact ⟨⟨hwf, fun path' => Nat.lt_succ_of_lt (h.birth_lt path')⟩, fun _ _ => Iff.rfl⟩
  | true =>
    rw [if_pos rfl] at hnodes
    refine ⟨⟨hwf, fun path' => ?_⟩, fun hashNode hbirth => ?_⟩
    · by_cases hpath : path' = path
      · simp [hpath]
      · simpa [hpath] using Nat.lt_succ_of_lt (h.birth_lt path')
    · by_cases hkey : hashNode.node.key = path
      -- a node of this path is the new one, allocated later
      · have hnotOld : hashNode.node ∉ (w.cache.remove path).hashtable.nodes :=
          fun hmem => ((AttrCache.mem_nodes_remove h.wf).mp hmem).2 hkey
        simp [CacheWorld.Holds, hkey, hnotOld, hbirth.ne']
      · have hne : hashNode.node ≠ ⟨path, cacheEntry, hashfuncDjb2 path⟩ :=
          fun he => hkey (congrArg Hnode.key he)
        simp [CacheWorld.Holds, hkey, hnodes.mem_iff, hne]

/-- The table after the deletions of a call. -/
def tableAfter (c : CacheCall) (w : CacheWorld) : Hash CString CacheEntry :=
  match c with
  | .shrinkSection currentTime shrinkNum => (w.cache.shrinkSection currentTime shrinkNum).hashtable
  | .setSection path _ => (w.cache.remove path).hashtable
  | .copyStatSection path => (w.cache.copyStat w.now path).2.hashtable
  | .deleteSection hashNode => w.cache.hashtable.delete hashNode.node
  | _ => w.cache.hashtable

/-- A call deletes nodes that are then in the table. -/
theorem deletions_deletes (h : BirthInv w) (hown : deleteAssertion c w) :
    Deletes w.cache.hashtable (tableAfter c w)
      ((deletions c w).map fun d => (d.1, d.2.node)) := by
  have hmap : ∀ ds : List Deletion, (ds.map fun d => (d.1, w.ref d.2)).map
      (fun d => (d.1, d.2.node)) = ds := fun ds => by
    rw [List.map_map]
    exact List.map_id ds
  cases c with
  | setSection path cacheEntry =>
    rw [deletions, hmap]
    exact remove_deletes w.cache h.wf path
  | shrinkSection currentTime shrinkNum =>
    rw [deletions, hmap]
    exact shrinkSection_deletes w.cache h.wf currentTime shrinkNum
  | copyStatSection path =>
    rw [deletions, hmap]
    exact copyStat_deletes w.cache h.wf w.now path
  | deleteSection hashNode => exact deletes_delete h.wf hown.1
  | _ => exact .refl h.wf

/-- A call leaves the table after its deletions, but for a new node. -/
theorem act_left (h : BirthInv w) (hown : deleteAssertion c w) (hact : w.act c r w') :
    Left w w' (tableAfter c w) := by
  have hwf := (deletions_deletes h hown).wf
  cases c with
  | setSection path cacheEntry =>
    obtain ⟨cache', hrun, rfl⟩ := hact
    exact left_setSection h hrun
  | shrinkSection currentTime shrinkNum =>
    subst hact
    exact left_withTable h hwf
  | deleteSection hashNode =>
    obtain ⟨-, rfl⟩ := hact
    exact left_withTable h hwf
  | copyStatSection path =>
    obtain ⟨-, rfl⟩ := hact
    exact left_withTable h hwf
  | maxcount => exact hact.2 ▸ left_withTable h h.wf
  | isFull => exact hact.2 ▸ left_withTable h h.wf
  | shrinkNum => exact hact.2 ▸ left_withTable h h.wf
  | time => exact hact.2 ▸ left_withTable h h.wf
  | lookup path => exact hact.2 ▸ left_withTable h h.wf

/-- A call deletes the node that was allocated last for its path. -/
theorem birth_of_mem_deletions (hown : deleteAssertion c w)
    {d : Hash CString CacheEntry × NodeRef} (hd : d ∈ deletions c w) :
    w.birth d.2.node.key = d.2.birth := by
  have hmap : ∀ ds : List Deletion, d ∈ (ds.map fun d => (d.1, w.ref d.2)) →
      w.birth d.2.node.key = d.2.birth := fun ds hd => by
    obtain ⟨d', -, rfl⟩ := List.mem_map.mp hd
    rfl
  cases c with
  | setSection path cacheEntry => exact hmap _ hd
  | shrinkSection currentTime shrinkNum => exact hmap _ hd
  | copyStatSection path => exact hmap _ hd
  | deleteSection hashNode =>
    obtain rfl := List.mem_singleton.mp hd
    exact hown.2
  | _ => cases hd

/-- A node that a call does not delete stays in the table. -/
theorem holds_of_spared (h : BirthInv w) (hown : deleteAssertion c w) (hact : w.act c r w')
    (hholds : w.Holds hashNode) (hspared : ∀ d ∈ deletions c w, hashNode ≠ d.2) :
    w'.Holds hashNode := by
  have hdel := deletions_deletes h hown
  have hleft := act_left h hown hact
  have hlt : hashNode.birth < w.births := hholds.2 ▸ h.birth_lt _
  refine (hleft.holds_iff hashNode hlt).mpr ⟨hdel.kept _ hholds.1 ?_, hholds.2⟩
  simp only [List.mem_map, forall_exists_index, and_imp, forall_apply_eq_imp_iff₂]
  intro d hd hnode
  apply hspared d hd
  have hd' : w.Holds d.2 :=
    ⟨hnode ▸ hholds.1, birth_of_mem_deletions hown hd⟩
  rw [hholds.eq_ref, hd'.eq_ref, hnode]

/-- A node that a call deletes is gone. -/
theorem not_holds_of_mem_deletions (h : BirthInv w) (hown : deleteAssertion c w)
    (hact : w.act c r w') {d : Hash CString CacheEntry × NodeRef} (hd : d ∈ deletions c w) :
    ¬ w'.Holds d.2 := by
  have hdel := deletions_deletes h hown
  have hleft := act_left h hown hact
  have hlt : d.2.birth < w.births := birth_of_mem_deletions hown hd ▸ h.birth_lt _
  intro hholds
  exact hdel.gone (d.1, d.2.node) (List.mem_map.mpr ⟨d, hd, rfl⟩)
    ((hleft.holds_iff d.2 hlt).mp hholds).1

/-- What `AttrCache_remove` knows: the node it has looked up. -/
def foundSpec (_ : AttrCache.Op) : Spec CacheRet (Option NodeRef) where
  pre c found :=
    match c with
    | .deleteSection hashNode => found = some hashNode
    | _ => True
  step c _ r found :=
    match c with
    | .lookup _ => found = r
    | _ => found = none

theorem wp_shrink_found (found : Option NodeRef) (op : AttrCache.Op) :
    shrink.wp (foundSpec op) (fun _ _ => True) found := by
  apply calls_shrink.wp_keep (I := fun _ => True)
  · intro c _ hc _
    cases c <;> trivial
  · exact fun _ _ _ _ _ _ _ => trivial
  · exact fun _ _ _ => trivial
  · trivial

/-- Every operation follows its outline. -/
theorem wp_body_found (op : AttrCache.Op) :
    (body op).wp (foundSpec op) (fun _ _ => True) none := by
  cases op with
  | set path cacheEntry =>
    refine Prog.wp_seq _ (R := fun _ _ => True) ?_ fun _ _ _ => trivial
    rw [set_eq]
    refine ⟨trivial, fun maxcount _ _ => ?_⟩
    dsimp only
    split_ifs
    · trivial
    refine ⟨trivial, fun full _ _ => ?_⟩
    dsimp only
    split_ifs
    · exact Prog.wp_seq _ (wp_shrink_found _ _) fun _ _ _ => ⟨trivial, fun _ _ _ => trivial⟩
    · exact ⟨trivial, fun _ _ _ => trivial⟩
  | copyStat path => exact ⟨trivial, fun _ _ _ => trivial⟩
  | remove path =>
    refine ⟨trivial, fun found _ hfound => ?_⟩
    cases found with
    | none => trivial
    | some hashNode => exact ⟨hfound, fun _ _ _ => trivial⟩
  | shrink => exact Prog.wp_seq _ (wp_shrink_found _ _) fun _ _ _ => trivial

/-- The outline of the operations, with the deleted node in the table as the assertion of the
section of `AttrCache_remove`. -/
def foundOutline (Tid : Type) [DecidableEq Tid] :
    Concurrent.Outline (system Tid) SparesFound (Option NodeRef) BirthInv deleteAssertion where
  spec := foundSpec
  first := none
  body := wp_body_found
  start := system_start
  enter op c w _ hpre := by
    cases c with
    | deleteSection hashNode => cases hpre
    | _ => trivial
  own config t op c found r w' hinv hnext hpre hown hok hact := by
    refine ⟨(act_left hinv hown hact).inv, ?_⟩
    have hnone : ∀ c', (foundSpec op).pre c' none → deleteAssertion c' w' := fun c' hpre' => by
      cases c' with
      | deleteSection hashNode => cases hpre'
      | _ => trivial
    cases c with
    | lookup path =>
      obtain ⟨rfl, rfl⟩ := hact
      refine ⟨_, rfl, fun c' hpre' => ?_⟩
      cases c' with
      | deleteSection hashNode =>
        obtain ⟨node, hl, rfl⟩ := Option.map_eq_some_iff.mp hpre'
        exact holds_ref (Hash.lookup_eq_some hinv.wf hl).1
      | _ => trivial
    | _ => exact ⟨none, rfl, hnone⟩
  interference config t op c r w' t' op' c' hinv hnext hown hok hact hne hnext' hassert := by
    cases c' with
    | deleteSection hashNode =>
      exact holds_of_spared hinv hown hact hassert fun d hd =>
        hok d hd t' op' hashNode hne hnext'
    | _ => trivial
  finish := system_finish
  env w w' hinv hchange := by
    obtain ⟨now, rfl⟩ := hchange
    refine ⟨⟨hinv.wf, hinv.birth_lt⟩, fun c hassert => ?_⟩
    cases c <;> exact hassert

theorem birthInv_init (maxSize maxAgeSec : ℕ) (now : ℤ) :
    BirthInv (.init maxSize maxAgeSec now) :=
  ⟨(AttrCache.wf_init maxSize maxAgeSec).hashtable, fun _ => Nat.zero_lt_one⟩

/-- **Nodes are deleted while they are in the table**, in a run in which no call deletes a node that
another thread has looked up and is about to delete: whatever call a thread makes next, each node
that it deletes is then in the table, and is not an older one of the same path. -/
theorem delete_holds [DecidableEq Tid] {maxSize maxAgeSec : ℕ} {now : ℤ} {config : Threads Tid}
    (h : Concurrent.ReachableIf (system Tid) SparesFound (.init maxSize maxAgeSec now) config)
    {t : Tid} {op : AttrCache.Op} {c : CacheCall} (hnext : Concurrent.Next config t op c)
    {d : Hash CString CacheEntry × NodeRef} (hd : d ∈ deletions c config.world) :
    d.2.node ∈ d.1.nodes ∧ config.world.birth d.2.node.key = d.2.birth := by
  obtain ⟨hinv, -, hasserted⟩ :=
    h.outline (foundOutline Tid) (birthInv_init maxSize maxAgeSec now)
  have hown := hasserted t op c hnext
  exact ⟨(deletions_deletes hinv hown).member (d.1, d.2.node) (List.mem_map.mpr ⟨d, hd, rfl⟩),
    birth_of_mem_deletions hown hd⟩

/-- Where a call deletes a node that another thread has looked up, that thread is left about to
delete a node that is not in the table. -/
theorem stale_of_not_sparesFound [DecidableEq Tid] {maxSize maxAgeSec : ℕ} {now : ℤ}
    {config : Threads Tid} {t : Tid} {op : AttrCache.Op} {c : CacheCall} {r : CacheRet c}
    {w' : CacheWorld}
    (h : Concurrent.ReachableIf (system Tid) SparesFound (.init maxSize maxAgeSec now) config)
    (hnext : Concurrent.Next config t op c) (hact : config.world.act c r w')
    (htaken : ¬ SparesFound config t c) :
    ∃ config' t' op' hashNode,
      Concurrent.Reachable (system Tid) (.init maxSize maxAgeSec now) config' ∧
        Concurrent.Next config' t' op' (.deleteSection hashNode) ∧
          ¬ config'.world.Holds hashNode := by
  obtain ⟨hinv, -, hasserted⟩ :=
    h.outline (foundOutline Tid) (birthInv_init maxSize maxAgeSec now)
  have hown := hasserted t op c hnext
  rw [SparesFound] at htaken
  push Not at htaken
  obtain ⟨d, hd, t', op', hashNode, hne, ⟨k', hk'⟩, rfl⟩ := htaken
  obtain ⟨k, hk⟩ := hnext
  exact ⟨_, t', op', d.2, h.reachable.step (.act t hk hact),
    ⟨k', (Function.update_of_ne hne _ _).trans hk'⟩, not_holds_of_mem_deletions hinv hown hact hd⟩

theorem sparesFound_of_nil {config : Threads Tid} {t : Tid} (h : deletions c config.world = []) :
    SparesFound config t c := by
  intro d hd
  rw [h] at hd
  cases hd

/-- An idle thread can come to the section of `AttrCache_remove` for a path with an entry. -/
theorem reachable_delete [DecidableEq Tid] {w₀ : CacheWorld} {config : Threads Tid}
    (h : Concurrent.ReachableIf (system Tid) SparesFound w₀ config) (t : Tid) {path : CString}
    {node : Hnode CString CacheEntry} (hidle : config.threads t = none)
    (hfound : config.world.cache.hashtable.lookup hashfuncDjb2 path = some node) :
    Concurrent.ReachableIf (system Tid) SparesFound w₀ ⟨config.world,
      Function.update config.threads t (some (.remove path,
        .call (.deleteSection (config.world.ref node)) fun _ => .ret (.done true)))⟩ := by
  have h₁ := h.start t (.remove path) hidle
  have hanswer : config.world.act (.lookup path) (some (config.world.ref node)) config.world :=
    ⟨by rw [hfound]; rfl, rfl⟩
  have h₂ := h₁.act t (Function.update_self ..) (sparesFound_of_nil rfl) hanswer
  rwa [Function.update_idem] at h₂

/-- A cache for two entries that holds `/a`. -/
theorem reachable_stored : ∃ (config : Threads Bool) (node : Hnode CString CacheEntry),
    Concurrent.ReachableIf (system Bool) SparesFound (.init 2 60 10) config ∧
      config.threads = (fun _ => none) ∧
      config.world.cache.hashtable.lookup hashfuncDjb2 [47, 97] = some node := by
  have hstart : Concurrent.ReachableIf (system Bool) SparesFound (.init 2 60 10)
      ⟨.init 2 60 10, fun _ => none⟩ := .init
  have hinsert := reachable_insertion hstart false [47, 97] anEntry rfl (by decide) rfl
    fun _ => ⟨sparesFound_of_nil rfl, sparesFound_of_nil rfl⟩
  have hrun : ((AttrCache.init 2 60).setSection [47, 97] anEntry).Runs (fun _ _ _ _ => True) ()
      _ _ := Prog.runs_exec allocAll (fun _ _ => trivial) _ ()
  have hend := (hinsert.act (c := .setSection [47, 97] anEntry) false rfl
    (sparesFound_of_nil rfl) ⟨_, hrun, rfl⟩).finish false rfl
  refine ⟨_, ⟨[47, 97], anEntry, hashfuncDjb2 [47, 97]⟩, hend, ?_, rfl⟩
  funext t
  cases t <;> rfl

/-- A thread that removes `/a` alone deletes a node of the table. -/
theorem delete_holds_remove : ∃ (config : Threads Bool) (hashNode : NodeRef),
    Concurrent.Next config false (.remove [47, 97]) (.deleteSection hashNode) ∧
      hashNode.node ∈ config.world.cache.hashtable.nodes := by
  obtain ⟨config, node, hstored, hidle, hfound⟩ := reachable_stored
  have hdelete := reachable_delete hstored false (congrFun hidle false) hfound
  exact ⟨_, config.world.ref node, ⟨_, rfl⟩,
    (delete_holds hdelete (t := false) (c := .deleteSection (config.world.ref node)) ⟨_, rfl⟩
      (List.mem_singleton.mpr rfl)).1⟩

/-- Two threads that both look up the node of `/a` delete it twice. -/
theorem not_delete_holds : ¬ ∀ config : Threads Bool,
    Concurrent.Reachable (system Bool) (.init 2 60 10) config →
      ∀ t op c, Concurrent.Next config t op c → ∀ d ∈ deletions c config.world,
        d.2.node ∈ d.1.nodes ∧ config.world.birth d.2.node.key = d.2.birth := by
  intro hall
  obtain ⟨config, node, hstored, hidle, hfound⟩ := reachable_stored
  have hfirst := reachable_delete hstored false (congrFun hidle false) hfound
  have hboth := reachable_delete hfirst true (congrFun hidle true) hfound
  have hmem := (Hash.lookup_eq_some (hboth.outline (foundOutline Bool)
    (birthInv_init 2 60 10)).inv.wf hfound).1
  obtain ⟨config', t, op, hashNode, hreach, hnext, hnot⟩ :=
    stale_of_not_sparesFound (t := false) (r := ()) hboth ⟨_, rfl⟩ ⟨holds_ref hmem, rfl⟩
      fun hspares => hspares _ (List.mem_singleton.mpr rfl) true _ _ (by decide) ⟨_, rfl⟩ rfl
  exact hnot (hall config' hreach t op _ hnext _ (List.mem_singleton.mpr rfl))

end Found

end Rhizofs.CacheThreads
