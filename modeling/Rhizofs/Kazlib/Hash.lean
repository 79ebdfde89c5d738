import Rhizofs.Libc
import Mathlib.Data.List.Nodup
import Mathlib.Data.List.Perm.Basic
import Mathlib.Data.Nat.Bitwise

/-!
# The hash table

The part of `kazlib/hash.c` that the attribute cache uses: a table of chains whose number is a
power of two, which doubles or halves as nodes come and go. A table is scanned chain by chain;
`nodes` lists the nodes in that order. Deleting the node just returned does not disturb a scan, so a
scan visits the nodes of the table at its beginning.

`Wf` is the invariant of the table. Under it the table is a finite map from keys to nodes:
`lookup_eq_some_iff` finds the node of a key, `nodes_scanDelete` and `nodes_delete` remove exactly
one node, `insert_spec` adds one, whatever happens to the chains.
-/

namespace Rhizofs.Kazlib

open Extern

/-- `hnode_t`. -/
structure Hnode (K D : Type) where
  key : K
  data : D
  hkey : ℕ

/-- `hash_t`, for a table that may grow and shrink. -/
structure Hash (K D : Type) where
  table : List (List (Hnode K D))
  nchains : ℕ
  nodecount : ℕ
  maxcount : ℕ
  highmark : ℕ
  lowmark : ℕ
  mask : ℕ

def INIT_SIZE : ℕ := 64
def INIT_MASK : ℕ := INIT_SIZE - 1

namespace Hash

variable {K D : Type}

/-- `hash_create`. -/
def create (maxcount : ℕ) : Hash K D :=
  { table := List.replicate INIT_SIZE []
    nchains := INIT_SIZE
    nodecount := 0
    maxcount := maxcount
    highmark := INIT_SIZE * 2
    lowmark := INIT_SIZE / 2
    mask := INIT_MASK }

/-- The nodes in the order of a scan. -/
def nodes (hash : Hash K D) : List (Hnode K D) := hash.table.flatten

/-- `hash_count`. -/
def count (hash : Hash K D) : ℕ := hash.nodecount

/-- `hash_isfull`. -/
def isFull (hash : Hash K D) : Bool := hash.nodecount == hash.maxcount

/-- The table that `grow_table` builds when it gets the memory. Nodes are pushed to the front of
their new chain, which reverses the chains. -/
def grown (hash : Hash K D) : Hash K D :=
  let mask := hash.mask <<< 1 ||| 1
  let exposedBit := mask ^^^ hash.mask
  { hash with
    table := hash.table.map (fun chain => (chain.filter (·.hkey &&& exposedBit == 0)).reverse) ++
      hash.table.map (fun chain => (chain.filter (·.hkey &&& exposedBit != 0)).reverse)
    mask := mask
    nchains := hash.nchains * 2
    lowmark := hash.lowmark * 2
    highmark := hash.highmark * 2 }

/-- `grow_table`. -/
def growTable (hash : Hash K D) : Prog MemRet (Hash K D) := do
  let ok ← alloc (.bytes (8 * (hash.nchains * 2)))
  return if ok then hash.grown else hash

/-- `shrink_table`. Its `realloc` only gives memory back. -/
def shrinkTable (hash : Hash K D) : Hash K D :=
  let nchains := hash.nchains / 2
  { hash with
    table := List.zipWith (· ++ ·) (hash.table.take nchains) (hash.table.drop nchains)
    mask := hash.mask >>> 1
    nchains := nchains
    lowmark := hash.lowmark / 2
    highmark := hash.highmark / 2 }

section Ops

variable [DecidableEq K]

/-- `hash_scan_delete`: take the node out of its chain. -/
def scanDelete (hash : Hash K D) (node : Hnode K D) : Hash K D :=
  { hash with
    table := hash.table.modify (node.hkey &&& hash.mask) (·.eraseP (·.key = node.key))
    nodecount := hash.nodecount - 1 }

/-- `hash_delete`. -/
def delete (hash : Hash K D) (node : Hnode K D) : Hash K D :=
  if hash.nodecount ≤ hash.lowmark ∧ hash.nodecount > INIT_SIZE then
    hash.shrinkTable.scanDelete node
  else hash.scanDelete node

variable (function : K → ℕ)

/-- `hash_lookup`. -/
def lookup (hash : Hash K D) (key : K) : Option (Hnode K D) :=
  let hkey := function key
  (hash.table.getD (hkey &&& hash.mask) []).find? fun node => node.hkey = hkey ∧ node.key = key

omit [DecidableEq K] in
/-- The end of `hash_insert`: the node is put at the front of its chain. -/
def link (hash : Hash K D) (key : K) (data : D) : Hash K D :=
  let hkey := function key
  { hash with
    table := hash.table.modify (hkey &&& hash.mask) (⟨key, data, hkey⟩ :: ·)
    nodecount := hash.nodecount + 1 }

omit [DecidableEq K] in
/-- `hash_insert`. -/
def insert (hash : Hash K D) (key : K) (data : D) : Prog MemRet (Hash K D) := do
  if hash.nodecount ≥ hash.highmark then
    let hash ← hash.growTable
    return hash.link function key data
  return hash.link function key data

omit [DecidableEq K] in
/-- `hash_alloc_insert`: whether there was memory for a node, and the table. -/
def allocInsert (hash : Hash K D) (key : K) (data : D) : Prog MemRet (Bool × Hash K D) := do
  let ok ← alloc .record
  if !ok then return (false, hash)
  return (true, ← hash.insert function key data)

end Ops

/-! ## The invariant -/

/-- The table is well formed: every node is in the chain of its hash value, and no key occurs
twice. -/
structure Wf (function : K → ℕ) (hash : Hash K D) : Prop where
  mask_eq : ∃ k, hash.nchains = 2 ^ (k + 1) ∧ hash.mask = 2 ^ (k + 1) - 1 ∧ hash.lowmark = 2 ^ k
  length_table : hash.table.length = hash.nchains
  placed : ∀ (i : ℕ) chain, hash.table[i]? = some chain → ∀ node ∈ chain,
    node.hkey = function node.key ∧ node.hkey &&& hash.mask = i
  nodup : (hash.nodes.map (·.key)).Nodup
  nodecount_eq : hash.nodecount = hash.nodes.length

theorem mem_nodes {hash : Hash K D} {node : Hnode K D} :
    node ∈ hash.nodes ↔ ∃ (i : ℕ) (chain : _), hash.table[i]? = some chain ∧ node ∈ chain := by
  rw [nodes, List.mem_flatten]
  constructor
  · rintro ⟨chain, hchain, hnode⟩
    obtain ⟨i, hi⟩ := List.mem_iff_getElem?.mp hchain
    exact ⟨i, chain, hi, hnode⟩
  · rintro ⟨i, chain, hi, hnode⟩
    exact ⟨chain, List.mem_of_getElem? hi, hnode⟩

section Wf

variable {function : K → ℕ} {hash : Hash K D}

theorem wf_create (maxcount : ℕ) : Wf function (create maxcount : Hash K D) where
  mask_eq := ⟨5, rfl, rfl, rfl⟩
  length_table := List.length_replicate
  placed := by
    intro i chain h node hnode
    obtain rfl := List.eq_of_mem_replicate (List.mem_of_getElem? h)
    cases hnode
  nodup := by simp [nodes, create]
  nodecount_eq := by simp [nodes, create]

theorem Wf.count_eq (h : Wf function hash) : hash.count = hash.nodes.length := h.nodecount_eq

/-- The chain of a key exists. -/
theorem Wf.and_mask_lt (h : Wf function hash) (hkey : ℕ) :
    hkey &&& hash.mask < hash.table.length := by
  obtain ⟨k, hn, hm, -⟩ := h.mask_eq
  rw [h.length_table, hn, hm, Nat.and_two_pow_sub_one_eq_mod]
  exact Nat.mod_lt _ (Nat.two_pow_pos _)

/-- The chain of a node. -/
theorem Wf.exists_chain (h : Wf function hash) {node : Hnode K D} (hmem : node ∈ hash.nodes) :
    ∃ chain, hash.table[node.hkey &&& hash.mask]? = some chain ∧ node ∈ chain ∧
      node.hkey = function node.key := by
  obtain ⟨i, chain, hi, hnode⟩ := mem_nodes.mp hmem
  obtain ⟨hkey, rfl⟩ := h.placed i chain hi node hnode
  exact ⟨chain, hi, hnode, hkey⟩

/-- A node is determined by its key. -/
theorem Wf.eq_of_key (h : Wf function hash) {node node' : Hnode K D} (hmem : node ∈ hash.nodes)
    (hmem' : node' ∈ hash.nodes) (hkey : node.key = node'.key) : node = node' :=
  List.inj_on_of_nodup_map h.nodup hmem hmem' hkey

/-! ## The operations as operations on a finite map -/

theorem lookup_eq_some [DecidableEq K] (h : Wf function hash) {key : K} {node : Hnode K D}
    (hl : hash.lookup function key = some node) : node ∈ hash.nodes ∧ node.key = key := by
  have hlt := h.and_mask_lt (function key)
  rw [lookup, List.getD_eq_getElem _ _ hlt] at hl
  refine ⟨mem_nodes.mpr ⟨_, _, List.getElem?_eq_getElem hlt, List.mem_of_find?_eq_some hl⟩, ?_⟩
  have hkey := List.find?_some hl
  simp only [decide_eq_true_eq] at hkey
  exact hkey.2

theorem lookup_eq_none [DecidableEq K] (h : Wf function hash) {key : K}
    (hl : hash.lookup function key = none) : ∀ node ∈ hash.nodes, node.key ≠ key := by
  intro node hmem hkey
  obtain ⟨chain, hi, hnode, hhkey⟩ := h.exists_chain hmem
  rw [hhkey, hkey] at hi
  rw [lookup, List.getD_eq_getElem?_getD, hi, List.find?_eq_none] at hl
  simpa [hhkey, hkey] using hl node hnode

/-- A lookup finds the node of the key. -/
theorem lookup_eq_some_iff [DecidableEq K] (h : Wf function hash) {key : K} {node : Hnode K D} :
    hash.lookup function key = some node ↔ node ∈ hash.nodes ∧ node.key = key := by
  refine ⟨lookup_eq_some h, fun ⟨hmem, hkey⟩ => ?_⟩
  cases hl : hash.lookup function key with
  | none => exact absurd hkey (lookup_eq_none h hl node hmem)
  | some node' =>
    obtain ⟨hmem', hkey'⟩ := lookup_eq_some h hl
    rw [h.eq_of_key hmem' hmem (hkey'.trans hkey.symm)]

/-- In a chain the key of a node occurs only at that node. -/
theorem Wf.nodup_chain (h : Wf function hash) {i : ℕ} {chain : List (Hnode K D)}
    (hi : hash.table[i]? = some chain) : (chain.map (·.key)).Nodup := by
  have hsub : chain.Sublist hash.nodes := List.sublist_flatten_of_mem (List.mem_of_getElem? hi)
  exact (hsub.map _).nodup h.nodup

theorem eraseP_key_eq_filter [DecidableEq K] {chain : List (Hnode K D)}
    (h : (chain.map (·.key)).Nodup) (key : K) :
    chain.eraseP (·.key = key) = chain.filter (·.key ≠ key) := by
  induction chain with
  | nil => rfl
  | cons node chain ih =>
    obtain ⟨hnot, hnodup⟩ := List.nodup_cons.mp h
    by_cases hk : node.key = key
    · have hall : ∀ node' ∈ chain, node'.key ≠ key := by
        intro node' hmem hk'
        exact hnot (List.mem_map.mpr ⟨node', hmem, hk'.trans hk.symm⟩)
      rw [List.eraseP_cons_of_pos (by simpa using hk), List.filter_cons_of_neg (by simpa using hk)]
      exact (List.filter_eq_self.mpr (by simpa using hall)).symm
    · rw [List.eraseP_cons_of_neg (by simpa using hk), List.filter_cons_of_pos (by simpa using hk),
        ih hnodup]

/-- Taking a node out of its chain takes its key out of all chains. -/
theorem table_scanDelete [DecidableEq K] (h : Wf function hash) {node : Hnode K D}
    (hmem : node ∈ hash.nodes) :
    (hash.scanDelete node).table = hash.table.map (·.filter (·.key ≠ node.key)) := by
  refine List.ext_getElem? fun i => ?_
  rw [scanDelete, List.getElem?_map]
  by_cases hi : node.hkey &&& hash.mask = i
  · subst hi
    obtain ⟨chain, hchain, -, -⟩ := h.exists_chain hmem
    simp only [List.getElem?_modify_eq, hchain, Option.map_eq_map, Option.map_some,
      eraseP_key_eq_filter (h.nodup_chain hchain)]
  · simp only [List.getElem?_modify_ne _ _ hi]
    cases hchain : hash.table[i]? with
    | none => rfl
    | some chain =>
      refine congrArg some (List.filter_eq_self.mpr fun node' hmem' => ?_).symm
      simp only [decide_eq_true_eq]
      intro hkey
      obtain ⟨hhkey, rfl⟩ := h.placed i chain hchain node' hmem'
      obtain ⟨-, -, -, hhkey'⟩ := h.exists_chain hmem
      exact hi (by rw [hhkey, hhkey', hkey])

/-- **Deletion during a scan** removes exactly one node. -/
theorem nodes_scanDelete [DecidableEq K] (h : Wf function hash) {node : Hnode K D}
    (hmem : node ∈ hash.nodes) :
    (hash.scanDelete node).nodes = hash.nodes.filter (·.key ≠ node.key) := by
  rw [nodes, table_scanDelete h hmem, nodes, List.filter_flatten]

/-- Filtering the nodes by their keys keeps the invariant. -/
theorem wf_of_filter (h : Wf function hash) {hash' : Hash K D} {p : Hnode K D → Bool}
    (hmask : hash'.mask = hash.mask) (hnchains : hash'.nchains = hash.nchains)
    (hlow : hash'.lowmark = hash.lowmark) (htable : hash'.table = hash.table.map (·.filter p))
    (hcount : hash'.nodecount = hash'.nodes.length) : Wf function hash' where
  mask_eq := by rw [hmask, hnchains, hlow]; exact h.mask_eq
  length_table := by rw [htable, hnchains, List.length_map]; exact h.length_table
  placed := by
    intro i chain hi node hnode
    rw [htable, List.getElem?_map, Option.map_eq_some_iff] at hi
    obtain ⟨chain', hi', rfl⟩ := hi
    rw [hmask]
    exact h.placed i chain' hi' node (List.mem_of_mem_filter hnode)
  nodup := by
    have hnodes : hash'.nodes = hash.nodes.filter p := by
      rw [nodes, htable, nodes, List.filter_flatten]
    rw [hnodes]
    exact (List.filter_sublist.map _).nodup h.nodup
  nodecount_eq := hcount

/-- Removing one key removes one node. -/
theorem length_filter_key [DecidableEq K] (h : Wf function hash) {node : Hnode K D}
    (hmem : node ∈ hash.nodes) :
    (hash.nodes.filter (·.key ≠ node.key)).length = hash.nodes.length - 1 := by
  rw [← eraseP_key_eq_filter h.nodup, List.length_eraseP_of_mem hmem (by simp)]

theorem wf_scanDelete [DecidableEq K] (h : Wf function hash) {node : Hnode K D}
    (hmem : node ∈ hash.nodes) : Wf function (hash.scanDelete node) := by
  refine wf_of_filter h rfl rfl rfl (table_scanDelete h hmem) ?_
  rw [nodes_scanDelete h hmem, length_filter_key h hmem, ← h.nodecount_eq]
  rfl

/-! ## Growing and shrinking -/

theorem grown_mask (k : ℕ) : (2 ^ k - 1) <<< 1 ||| 1 = 2 ^ (k + 1) - 1 := by
  refine Nat.eq_of_testBit_eq fun i => ?_
  cases i with
  | zero => simp
  | succ i =>
    have hhalf : (2 ^ (k + 1) - 1) / 2 = 2 ^ k - 1 := by
      have := Nat.two_pow_pos k
      omega
    simp [Nat.testBit_succ, Nat.or_div_two, Nat.shiftLeft_eq, hhalf]

theorem exposedBit_eq (k : ℕ) : (2 ^ (k + 1) - 1) ^^^ (2 ^ k - 1) = 2 ^ k := by
  refine Nat.eq_of_testBit_eq fun i => ?_
  rw [Nat.testBit_xor, Nat.testBit_two_pow_sub_one, Nat.testBit_two_pow_sub_one,
    Nat.testBit_two_pow]
  rcases lt_trichotomy i k with h | rfl | h
  · simp [h, show i < k + 1 by omega, show ¬ k = i by omega]
  · simp
  · simp [show ¬ i < k by omega, show ¬ i < k + 1 by omega, show ¬ k = i by omega]

/-- The exposed bit tells the two new places of a node apart. -/
theorem and_grown_mask (hkey k : ℕ) :
    hkey &&& 2 ^ (k + 1) - 1 =
      (hkey &&& 2 ^ k - 1) + if hkey &&& 2 ^ k = 0 then 0 else 2 ^ k := by
  rw [Nat.and_two_pow_sub_one_eq_mod, Nat.and_two_pow_sub_one_eq_mod, Nat.mod_pow_succ,
    Nat.and_two_pow, Nat.testBit_eq_decide_div_mod_eq]
  rcases Nat.mod_two_eq_zero_or_one (hkey / 2 ^ k) with h | h <;> simp [h]

theorem nodes_grown_perm : hash.grown.nodes.Perm hash.nodes := by
  simp only [nodes, grown, List.flatten_append]
  generalize (hash.mask <<< 1 ||| 1) ^^^ hash.mask = exposedBit
  induction hash.table with
  | nil => exact .nil
  | cons chain table ih =>
    simp only [List.map_cons, List.flatten_cons]
    have hchain : ((chain.filter (·.hkey &&& exposedBit == 0)).reverse ++
        (chain.filter (·.hkey &&& exposedBit != 0)).reverse).Perm chain :=
      ((List.reverse_perm _).append (List.reverse_perm _)).trans (List.filter_append_perm _ chain)
    refine List.Perm.trans ?_ (hchain.append ih)
    simp only [List.append_assoc]
    apply List.Perm.append_left _
    rw [← List.append_assoc, ← List.append_assoc]
    exact List.perm_append_comm.append_right _

theorem wf_grown (h : Wf function hash) : Wf function hash.grown := by
  obtain ⟨k, hn, hm, hl⟩ := h.mask_eq
  have hmask : hash.grown.mask = 2 ^ (k + 2) - 1 := by rw [grown, hm, grown_mask]
  have hbit : (hash.mask <<< 1 ||| 1) ^^^ hash.mask = 2 ^ (k + 1) := by
    rw [hm, grown_mask, exposedBit_eq]
  refine ⟨⟨k + 1, ?_, hmask, ?_⟩, ?_, ?_, ?_, ?_⟩
  · simp only [grown, hn, pow_succ]
  · simp only [grown, hl, pow_succ]
  · simp only [grown, List.length_append, List.length_map, h.length_table]
    omega
  · intro i chain hi node hnode
    rw [hmask, and_grown_mask]
    simp only [grown, hbit] at hi
    by_cases hlt : i < hash.table.length
    · rw [List.getElem?_append_left (by simpa using hlt), List.getElem?_map,
        Option.map_eq_some_iff] at hi
      obtain ⟨chain', hi', rfl⟩ := hi
      obtain ⟨hmem, hclear⟩ := List.mem_filter.mp (List.mem_reverse.mp hnode)
      obtain ⟨hhkey, hplace⟩ := h.placed i chain' hi' node hmem
      rw [hm] at hplace
      exact ⟨hhkey, by rw [hplace, if_pos (by simpa using hclear), Nat.add_zero]⟩
    · rw [List.getElem?_append_right (by simpa using hlt), List.getElem?_map,
        Option.map_eq_some_iff] at hi
      obtain ⟨chain', hi', rfl⟩ := hi
      obtain ⟨hmem, hset⟩ := List.mem_filter.mp (List.mem_reverse.mp hnode)
      obtain ⟨hhkey, hplace⟩ := h.placed _ chain' hi' node hmem
      rw [hm, List.length_map, h.length_table, hn] at hplace
      rw [h.length_table, hn] at hlt
      refine ⟨hhkey, ?_⟩
      rw [hplace, if_neg (by simpa using hset)]
      omega
  · exact ((nodes_grown_perm.map _).nodup_iff).mpr h.nodup
  · rw [nodes_grown_perm.length_eq, ← h.nodecount_eq]
    rfl

theorem flatten_zipWith_perm {α : Type} (a b : List (List α)) (h : a.length = b.length) :
    (List.zipWith (· ++ ·) a b).flatten.Perm (a.flatten ++ b.flatten) := by
  induction a generalizing b with
  | nil =>
    obtain rfl := List.length_eq_zero_iff.mp h.symm
    exact .nil
  | cons x a ih =>
    cases b with
    | nil => cases h
    | cons y b =>
      simp only [List.zipWith_cons_cons, List.flatten_cons, List.append_assoc]
      refine List.Perm.append_left _ (((ih b (by simpa using h)).append_left y).trans ?_)
      rw [← List.append_assoc, ← List.append_assoc]
      exact List.perm_append_comm.append_right _

theorem nodes_shrinkTable_perm (h : Wf function hash) :
    hash.shrinkTable.nodes.Perm hash.nodes := by
  obtain ⟨k, hn, -, -⟩ := h.mask_eq
  have hlen : (hash.table.take (hash.nchains / 2)).length =
      (hash.table.drop (hash.nchains / 2)).length := by
    rw [List.length_take, List.length_drop, h.length_table, hn, pow_succ]
    omega
  apply (flatten_zipWith_perm _ _ hlen).trans
  rw [← List.flatten_append, List.take_append_drop]
  rfl

theorem wf_shrinkTable (h : Wf function hash) (hlow : hash.lowmark > INIT_SIZE) :
    Wf function hash.shrinkTable := by
  obtain ⟨k, hn, hm, hl⟩ := h.mask_eq
  obtain ⟨k, rfl⟩ : ∃ m, k = m + 1 := by
    apply Nat.exists_eq_succ_of_ne_zero
    rintro rfl
    rw [hl] at hlow
    exact absurd hlow (by decide)
  have hhalf : hash.nchains / 2 = 2 ^ (k + 1) := by rw [hn, pow_succ]; omega
  have hmask : hash.shrinkTable.mask = 2 ^ (k + 1) - 1 := by
    have := Nat.two_pow_pos (k + 1)
    simp only [shrinkTable, hm, Nat.shiftRight_one]
    omega
  refine ⟨⟨k, hhalf, hmask, ?_⟩, ?_, ?_, ?_, ?_⟩
  · simp only [shrinkTable, hl, pow_succ]
    omega
  · simp only [shrinkTable, List.length_zipWith, List.length_take, List.length_drop,
      h.length_table]
    omega
  · intro i chain hi node hnode
    -- reducing further gives the same place in both halves
    have hplace : ∀ j, node.hkey &&& hash.mask = j → j % 2 ^ (k + 1) = i →
        node.hkey &&& hash.shrinkTable.mask = i := by
      rintro j rfl hj
      rw [hmask, Nat.and_two_pow_sub_one_eq_mod, ← hj, hm, Nat.and_two_pow_sub_one_eq_mod,
        Nat.mod_mod_of_dvd _ (pow_dvd_pow 2 (Nat.le_succ _))]
    obtain ⟨low, high, hlow, hhigh, rfl⟩ := List.getElem?_zipWith_eq_some.mp hi
    rw [hhalf] at hlow hhigh
    have hilt : i < 2 ^ (k + 1) := by
      by_contra hge
      rw [List.getElem?_eq_none (by rw [List.length_take]; omega)] at hlow
      cases hlow
    rcases List.mem_append.mp hnode with hmem | hmem
    · rw [List.getElem?_take_of_lt hilt] at hlow
      obtain ⟨hhkey, hp⟩ := h.placed i low hlow node hmem
      exact ⟨hhkey, hplace i hp (Nat.mod_eq_of_lt hilt)⟩
    · rw [List.getElem?_drop] at hhigh
      obtain ⟨hhkey, hp⟩ := h.placed _ high hhigh node hmem
      exact ⟨hhkey, hplace _ hp (by rw [Nat.add_mod_left, Nat.mod_eq_of_lt hilt])⟩
  · exact (((nodes_shrinkTable_perm h).map _).nodup_iff).mpr h.nodup
  · rw [(nodes_shrinkTable_perm h).length_eq, ← h.nodecount_eq]
    rfl

/-- **Deletion** removes exactly one node, up to the order of the nodes. -/
theorem nodes_delete [DecidableEq K] (h : Wf function hash) {node : Hnode K D}
    (hmem : node ∈ hash.nodes) :
    (hash.delete node).nodes.Perm (hash.nodes.filter (·.key ≠ node.key)) := by
  unfold delete
  split_ifs with hcond
  · have hmem' := (nodes_shrinkTable_perm h).mem_iff.mpr hmem
    rw [nodes_scanDelete (wf_shrinkTable h (by omega)) hmem']
    exact (nodes_shrinkTable_perm h).filter _
  · rw [nodes_scanDelete h hmem]

theorem wf_delete [DecidableEq K] (h : Wf function hash) {node : Hnode K D}
    (hmem : node ∈ hash.nodes) : Wf function (hash.delete node) := by
  unfold delete
  split_ifs with hcond
  · exact wf_scanDelete (wf_shrinkTable h (by omega))
      ((nodes_shrinkTable_perm h).mem_iff.mpr hmem)
  · exact wf_scanDelete h hmem

theorem maxcount_delete [DecidableEq K] (node : Hnode K D) :
    (hash.delete node).maxcount = hash.maxcount := by
  unfold delete
  split <;> rfl

/-! ## Insertion -/

theorem nodes_link (h : Wf function hash) (key : K) (data : D) :
    (hash.link function key data).nodes.Perm (⟨key, data, function key⟩ :: hash.nodes) := by
  have hlt := h.and_mask_lt (function key)
  simp only [nodes, link]
  rw [List.modify_eq_take_cons_drop hlt]
  nth_rewrite 4 [← List.take_append_drop (function key &&& hash.mask) hash.table]
  rw [List.drop_eq_getElem_cons hlt]
  simp only [List.flatten_append, List.flatten_cons, List.cons_append]
  exact List.perm_middle

theorem wf_link (h : Wf function hash) {key : K} (hkey : ∀ node ∈ hash.nodes, node.key ≠ key)
    (data : D) : Wf function (hash.link function key data) where
  mask_eq := h.mask_eq
  length_table := by rw [link, List.length_modify]; exact h.length_table
  placed := by
    intro i chain hi node hnode
    by_cases hi' : function key &&& hash.mask = i
    · subst hi'
      simp only [link, List.getElem?_modify_eq, Option.map_eq_map, Option.map_eq_some_iff] at hi
      obtain ⟨chain', hchain', rfl⟩ := hi
      rcases List.mem_cons.mp hnode with rfl | hmem
      · exact ⟨rfl, rfl⟩
      · exact h.placed _ chain' hchain' node hmem
    · simp only [link, List.getElem?_modify_ne _ _ hi'] at hi
      exact h.placed i chain hi node hnode
  nodup := by
    rw [((nodes_link h key data).map _).nodup_iff, List.map_cons, List.nodup_cons]
    refine ⟨fun hmem => ?_, h.nodup⟩
    obtain ⟨node, hnode, hk⟩ := List.mem_map.mp hmem
    exact hkey node hnode hk
  nodecount_eq := by
    rw [(nodes_link h key data).length_eq, List.length_cons, ← h.nodecount_eq]
    rfl

/-- **Insertion** of a new key adds exactly one node, whether or not the table could grow. -/
theorem insert_spec (h : Wf function hash) {key : K} (hkey : ∀ node ∈ hash.nodes, node.key ≠ key)
    {data : D} {step : (c : Chunk) → Unit → MemRet c → Unit → Prop} {hash' : Hash K D}
    (hrun : (hash.insert function key data).Runs step () hash' ()) :
    Wf function hash' ∧ hash'.maxcount = hash.maxcount ∧
      hash'.nodes.Perm (⟨key, data, function key⟩ :: hash.nodes) := by
  unfold insert at hrun
  split at hrun
  · obtain ⟨ok, _, -, rfl, -⟩ := hrun
    cases ok with
    | false => exact ⟨wf_link h hkey data, rfl, nodes_link h key data⟩
    | true =>
      have hkey' : ∀ node ∈ hash.grown.nodes, node.key ≠ key :=
        fun node hmem => hkey node (nodes_grown_perm.mem_iff.mp hmem)
      exact ⟨wf_link (wf_grown h) hkey' data, rfl,
        (nodes_link (wf_grown h) key data).trans (nodes_grown_perm.cons _)⟩
  · obtain ⟨rfl, -⟩ := hrun
    exact ⟨wf_link h hkey data, rfl, nodes_link h key data⟩

end Wf

end Hash

end Rhizofs.Kazlib
