import Rhizofs.Foundations.LinkedList
import Rhizofs.Kazlib.Hash

/-!
# The hash table in memory

`kazlib/hash.c` as it is: an array of pointers to the first node of each chain, and nodes that are
linked by pointers. The functions return `none` where the C function would dereference a null
pointer, index behind the table, fail an assertion, or loop more often than a bound on the length of
the chains allows.

`Laid` says which nodes the chains have, and `view` is the table of `Rhizofs.Kazlib.Hash` that they
make up. Each function returns, and does to the view what the function of the same name does to that
table (`lookup_view`, `insert_view`, `delete_view`, `scanDelete_view`, `scanLoop_view`). Its
assertions hold, `hash_verify` among them (`verify_eq_true`).
-/

namespace Rhizofs.Kazlib

open Extern

/-- `hash_t`, and the fields of the nodes: `next`, and the others. -/
structure LinkedHash (P K D : Type) where
  table : List (Option P)
  next : P → Option P
  node : P → Hnode K D
  nchains : ℕ
  nodecount : ℕ
  maxcount : ℕ
  highmark : ℕ
  lowmark : ℕ
  mask : ℕ

/-- `hscan_t`. -/
structure Hscan (P : Type) where
  chain : ℕ
  next : Option P

/-- `assert`. -/
def assert (condition : Bool) : Option Unit := if condition then some () else none

@[simp] theorem assert_true : assert true = some () := rfl

/-- `is_power_of_two`. -/
def isPowerOfTwo (arg : ℕ) : Bool :=
  if _h : arg = 0 then false
  else if arg &&& 1 = 0 then isPowerOfTwo (arg >>> 1)
  else arg == 1
termination_by arg
decreasing_by
  rw [Nat.shiftRight_one]
  omega

namespace LinkedHash

variable {P K D : Type}

section Functions

/-- `hash_create`, when it gets the memory. -/
def create (next : P → Option P) (node : P → Hnode K D) (maxcount : ℕ) : LinkedHash P K D :=
  { table := List.replicate INIT_SIZE none
    next := next
    node := node
    nchains := INIT_SIZE
    nodecount := 0
    maxcount := maxcount
    highmark := INIT_SIZE * 2
    lowmark := INIT_SIZE / 2
    mask := INIT_MASK }

variable (bound : ℕ) (h : LinkedHash P K D)

/-- The loop of `hash_verify` over one chain: the number of nodes, or nothing when a node is in the
wrong chain. -/
def verifyChain (chain : ℕ) : ℕ → Option P → ℕ → Option (Option ℕ)
  | _, none, count => some (some count)
  | 0, some _, _ => none
  | bound + 1, some hptr, count =>
    if (h.node hptr).hkey &&& h.mask ≠ chain then some none
    else verifyChain chain bound (h.next hptr) (count + 1)

/-- The loop of `hash_verify` over the chains. -/
def verifyChains : ℕ → List (Option P) → ℕ → Option (Option ℕ)
  | _, [], count => some (some count)
  | chain, head :: table, count => do
    let some count ← h.verifyChain chain bound head count | return none
    verifyChains (chain + 1) table count

/-- `hash_verify`, for a table that may grow and shrink. -/
def verify : Option Bool := do
  if h.lowmark ≥ h.highmark then return false
  if !isPowerOfTwo h.highmark then return false
  if !isPowerOfTwo h.lowmark then return false
  let some count ← h.verifyChains bound 0 h.table 0 | return false
  return count == h.nodecount

/-- The first chain from `chain` on that is not empty, and its first node. -/
def skipEmpty : List (Option P) → ℕ → ℕ × Option P
  | [], chain => (chain, none)
  | none :: table, chain => skipEmpty table (chain + 1)
  | some first :: _, chain => (chain, some first)

/-- `hash_scan_begin`. When there is no node, `chain` is not used. -/
def scanBegin : Hscan P :=
  let (chain, next) := skipEmpty h.table 0
  ⟨chain, next⟩

/-- `hash_scan_next`: the node, and the scanner afterwards. -/
def scanNext (scan : Hscan P) : Option P × Hscan P :=
  match scan.next with
  | none => (none, scan)
  | some next =>
    match h.next next with
    | some after => (some next, { scan with next := some after })
    | none =>
      match skipEmpty (h.table.drop (scan.chain + 1)) (scan.chain + 1) with
      | (chain, some first) => (some next, ⟨chain, some first⟩)
      | (_, none) => (some next, { scan with next := none })

variable [DecidableEq P]

/-- The loop of `grow_table` over the chains: the pointers, and the heads of the chains in the lower
and in the upper half of the new table. -/
def splitChains (toHigh : P → Bool) : (P → Option P) → List (Option P) →
    Option ((P → Option P) × List (Option P) × List (Option P))
  | next, [] => some (next, [], [])
  | next, hptr :: table => do
    let (next, lowChain, highChain) ← distribute toHigh bound next hptr none none
    let (next, low, high) ← splitChains toHigh next table
    return (next, lowChain :: low, highChain :: high)

/-- The table that `grow_table` builds when it gets the memory. -/
def doubled : Option (LinkedHash P K D) := do
  let mask := h.mask <<< 1 ||| 1
  let exposedBit := mask ^^^ h.mask
  assert (mask != h.mask)
  let (next, low, high) ←
    splitChains bound (fun hptr => (h.node hptr).hkey &&& exposedBit != 0) h.next h.table
  return { h with
    next := next
    table := low ++ high
    mask := mask
    nchains := h.nchains * 2
    lowmark := h.lowmark * 2
    highmark := h.highmark * 2 }

/-- `grow_table`, where `realloc` tells whether it gets the memory. -/
def growTable (realloc : Bool) : Option (LinkedHash P K D) := do
  assert (2 * h.nchains > h.nchains)
  let hash ← if realloc then h.doubled bound else some h
  assert (← hash.verify bound)
  return hash

/-- The loop of `shrink_table` over the pairs of chains. -/
def joinChains : (P → Option P) → List (Option P) → List (Option P) →
    Option ((P → Option P) × List (Option P))
  | next, lowChain :: low, highChain :: high => do
    let (next, chain) ← splice next bound lowChain highChain
    let (next, table) ← joinChains next low high
    return (next, chain :: table)
  | next, _, _ => some (next, [])

/-- `shrink_table`. Its `realloc` only gives memory back. -/
def shrinkTable : Option (LinkedHash P K D) := do
  assert (h.nchains ≥ 2)
  let nchains := h.nchains / 2
  let (next, table) ← joinChains bound h.next (h.table.take nchains) (h.table.drop nchains)
  let hash := { h with
    next := next
    table := table
    mask := h.mask >>> 1
    nchains := nchains
    lowmark := h.lowmark / 2
    highmark := h.highmark / 2 }
  assert (← hash.verify bound)
  return hash

/-- The end of `hash_delete` and of `hash_scan_delete`: the node leaves its chain. -/
def takeOut (node : P) : Option (LinkedHash P K D) := do
  let chain := (h.node node).hkey &&& h.mask
  let hptr ← h.table[chain]?
  let (next, head) ← unlink h.next node bound hptr
  let hash := { h with
    next := next
    table := h.table.set chain head
    nodecount := h.nodecount - 1 }
  assert (← hash.verify bound)
  return { hash with next := Function.update hash.next node none }

/-- The memory of a node that has been freed may hold anything, here `contents`. -/
def freenode (node : P) (contents : Option P × Hnode K D) : LinkedHash P K D :=
  { h with
    next := Function.update h.next node contents.1
    node := Function.update h.node node contents.2 }

/-- `hnode_init`. -/
def hnodeInit (hnode : P) (data : D) : LinkedHash P K D :=
  { h with
    node := Function.update h.node hnode { h.node hnode with data := data }
    next := Function.update h.next hnode none }

variable [DecidableEq K] (function : K → ℕ)

omit [DecidableEq P] in
/-- `hash_lookup`. -/
def lookup (key : K) : Option (Option P) := do
  let hkey := function key
  let hptr ← h.table[hkey &&& h.mask]?
  search h.next (fun nptr => (h.node nptr).hkey = hkey ∧ (h.node nptr).key = key) bound hptr

/-- `hash_insert`. -/
def insert (node : P) (key : K) (realloc : Bool) : Option (LinkedHash P K D) := do
  assert (h.next node).isNone
  assert (h.nodecount < h.maxcount)
  assert (← h.lookup bound function key).isNone
  let h ← if h.nodecount ≥ h.highmark then h.growTable bound realloc else some h
  let hkey := function key
  let chain := hkey &&& h.mask
  let hptr ← h.table[chain]?
  let hash := { h with
    node := Function.update h.node node ⟨key, (h.node node).data, hkey⟩
    next := Function.update h.next node hptr
    table := h.table.set chain (some node)
    nodecount := h.nodecount + 1 }
  assert (← hash.verify bound)
  return hash

/-- `hash_alloc_insert`: whether the allocator returned a node, and the table. -/
def allocInsert (allocnode : Option P) (realloc : Bool) (key : K) (data : D) :
    Option (Bool × LinkedHash P K D) :=
  match allocnode with
  | none => return (false, h)
  | some node => return (true, ← (h.hnodeInit node data).insert bound function node key realloc)

/-- `hash_scan_delete`. -/
def scanDelete (node : P) : Option (LinkedHash P K D) := do
  assert ((← h.lookup bound function (h.node node).key) = some node)
  h.takeOut bound node

/-- `hash_delete`. -/
def delete (node : P) : Option (LinkedHash P K D) := do
  assert ((← h.lookup bound function (h.node node).key) = some node)
  let h ← if h.nodecount ≤ h.lowmark ∧ h.nodecount > INIT_SIZE then h.shrinkTable bound else some h
  h.takeOut bound node

/-- `hash_delete_free`. -/
def deleteFree (node : P) (contents : Option P × Hnode K D) : Option (LinkedHash P K D) := do
  let h ← h.delete bound function node
  return h.freenode node contents

/-- `hash_scan_delete`, or `hash_scan_delfree` when the contents of freed memory are given. -/
def scanDelfree (node : P) (freed : Option (P → Option P × Hnode K D)) :
    Option (LinkedHash P K D) := do
  let h ← h.scanDelete bound function node
  match freed with
  | none => return h
  | some contents => return h.freenode node (contents node)

/-- A loop `while (go && (node = hash_scan_next(&scan)))`, which deletes the nodes that `body`
selects, and frees them when `freed` is given. -/
def scanLoop {σ : Type} (freed : Option (P → Option P × Hnode K D)) (go : σ → Bool)
    (body : σ → Hnode K D → Bool × σ) :
    ℕ → LinkedHash P K D → Hscan P → σ → Option (LinkedHash P K D × σ)
  | rounds, h, scan, s =>
    if !go s then some (h, s)
    else
      match h.scanNext scan, rounds with
      | (none, _), _ => some (h, s)
      | (some _, _), 0 => none
      | (some node, scan), rounds + 1 => do
        let (selected, s) := body s (h.node node)
        let h ← if selected then h.scanDelfree bound function node freed else some h
        scanLoop freed go body rounds h scan s

/-- `hash_free_nodes`: the nodes that it frees, and the empty table. -/
def freeNodes (freed : P → Option P × Hnode K D) :
    Option (LinkedHash P K D × List (Hnode K D)) := do
  let (h, nodes) ← scanLoop bound function (some freed) (fun _ => true)
    (fun nodes node => (true, nodes ++ [node])) bound h h.scanBegin []
  return ({ h with nodecount := 0, table := h.table.map fun _ => none }, nodes)

end Functions

/-! ## The chains and the table they make up -/

/-- `chains` are the nodes of the chains, and no node is in two places. -/
structure Laid (h : LinkedHash P K D) (chains : List (List P)) : Prop where
  table : List.Forall₂ (Chain h.next) h.table chains
  nodup : chains.flatten.Nodup

/-- The table that consists of the nodes in the chains. -/
def view (h : LinkedHash P K D) (chains : List (List P)) : Hash K D :=
  { table := chains.map (List.map h.node)
    nchains := h.nchains
    nodecount := h.nodecount
    maxcount := h.maxcount
    highmark := h.highmark
    lowmark := h.lowmark
    mask := h.mask }

end LinkedHash

/-- A well formed table whose upper mark is the one that `hash_verify` expects. -/
structure Hash.Sound {K D : Type} (function : K → ℕ) (hash : Hash K D) : Prop where
  wf : hash.Wf function
  highmark_eq : hash.highmark = 2 * hash.nchains

namespace Hash.Sound

variable {K D : Type} {function : K → ℕ} {hash : Hash K D}

theorem create (maxcount : ℕ) : Sound function (Hash.create maxcount : Hash K D) :=
  ⟨wf_create maxcount, rfl⟩

theorem grown (h : Sound function hash) : Sound function hash.grown := by
  refine ⟨wf_grown h.wf, ?_⟩
  simp only [Hash.grown, h.highmark_eq]
  omega

theorem shrinkTable (h : Sound function hash) (hlow : hash.lowmark > INIT_SIZE) :
    Sound function hash.shrinkTable := by
  refine ⟨wf_shrinkTable h.wf hlow, ?_⟩
  obtain ⟨k, hn, -⟩ := h.wf.mask_eq
  simp only [Hash.shrinkTable, h.highmark_eq, hn, pow_succ]
  omega

theorem link (h : Sound function hash) {key : K} (hkey : ∀ node ∈ hash.nodes, node.key ≠ key)
    (data : D) : Sound function (hash.link function key data) :=
  ⟨wf_link h.wf hkey data, h.highmark_eq⟩

theorem scanDelete [DecidableEq K] (h : Sound function hash) {node : Hnode K D}
    (hmem : node ∈ hash.nodes) : Sound function (hash.scanDelete node) :=
  ⟨wf_scanDelete h.wf hmem, h.highmark_eq⟩

theorem delete [DecidableEq K] (h : Sound function hash) {node : Hnode K D}
    (hmem : node ∈ hash.nodes) : Sound function (hash.delete node) := by
  unfold Hash.delete
  split_ifs with hcond
  · exact (h.shrinkTable (by omega)).scanDelete ((nodes_shrinkTable_perm h.wf).mem_iff.mpr hmem)
  · exact h.scanDelete hmem

end Hash.Sound

namespace LinkedHash

variable {P K D : Type} {h : LinkedHash P K D} {chains : List (List P)} {function : K → ℕ}
  {bound : ℕ}

theorem nodes_view : (h.view chains).nodes = chains.flatten.map h.node := by
  rw [view, Hash.nodes, List.map_flatten]

/-- The nodes are as many as `nodecount` tells. -/
theorem length_chains (hs : (h.view chains).Sound function) :
    chains.flatten.length = h.nodecount := by
  have hcount := hs.wf.nodecount_eq
  rw [nodes_view, List.length_map] at hcount
  exact hcount.symm

theorem length_le_of_mem (hs : (h.view chains).Sound function) (hbound : h.nodecount ≤ bound)
    {ps : List P} (hps : ps ∈ chains) : ps.length ≤ bound := by
  have hle := (List.sublist_flatten_of_mem hps).length_le
  rw [length_chains hs] at hle
  exact hle.trans hbound

/-- A node is in the chain of its hash value. -/
theorem placed (hs : (h.view chains).Sound function) {i : ℕ} {ps : List P}
    (hps : chains[i]? = some ps) {p : P} (hp : p ∈ ps) :
    (h.node p).hkey = function (h.node p).key ∧ (h.node p).hkey &&& h.mask = i := by
  refine hs.wf.placed i (ps.map h.node) ?_ (h.node p) (List.mem_map_of_mem hp)
  rw [view, List.getElem?_map, hps]
  rfl

/-! ## `hash_verify` -/

theorem isPowerOfTwo_two_pow (k : ℕ) : isPowerOfTwo (2 ^ k) = true := by
  induction k with
  | zero =>
    rw [isPowerOfTwo]
    rfl
  | succ k ih =>
    have hpos := Nat.two_pow_pos k
    have heven : 2 ^ (k + 1) &&& 1 = 0 := by
      rw [Nat.and_one_is_mod, pow_succ]
      omega
    have hhalf : 2 ^ (k + 1) >>> 1 = 2 ^ k := by
      rw [Nat.shiftRight_one, pow_succ]
      omega
    rw [isPowerOfTwo, dif_neg (Nat.two_pow_pos (k + 1)).ne', if_pos heven, hhalf]
    exact ih

theorem verifyChain_eq {chain : ℕ} {hptr : Option P} {ps : List P} (hps : Chain h.next hptr ps)
    (hplaced : ∀ p ∈ ps, (h.node p).hkey &&& h.mask = chain) (hbound : ps.length ≤ bound)
    (count : ℕ) : h.verifyChain chain bound hptr count = some (some (count + ps.length)) := by
  induction ps generalizing hptr bound count with
  | nil =>
    obtain rfl : hptr = none := hps
    cases bound <;> rfl
  | cons p ps ih =>
    obtain ⟨rfl, hrest⟩ := hps
    cases bound with
    | zero => cases hbound
    | succ bound =>
      rw [verifyChain, if_neg (not_not.mpr (hplaced p List.mem_cons_self)),
        ih hrest (fun q hq => hplaced q (List.mem_cons_of_mem p hq))
          (Nat.le_of_succ_le_succ hbound), List.length_cons]
      congr 2
      omega

theorem verifyChains_eq {table : List (Option P)} {chain : ℕ}
    (htable : List.Forall₂ (Chain h.next) table chains)
    (hplaced : ∀ i ps, chains[i]? = some ps → ∀ p ∈ ps, (h.node p).hkey &&& h.mask = chain + i)
    (hbound : ∀ ps ∈ chains, ps.length ≤ bound) (count : ℕ) :
    h.verifyChains bound chain table count = some (some (count + chains.flatten.length)) := by
  induction htable generalizing chain count with
  | nil => rfl
  | @cons hptr ps table chains hps _ ih =>
    have hfirst := verifyChain_eq hps (hplaced 0 ps rfl) (hbound ps List.mem_cons_self) count
    have hrest : ∀ i ps', chains[i]? = some ps' → ∀ p ∈ ps',
        (h.node p).hkey &&& h.mask = chain + 1 + i := by
      intro i ps' hi p hp
      rw [hplaced (i + 1) ps' hi p hp]
      omega
    rw [Nat.add_zero] at hfirst
    rw [verifyChains, hfirst]
    simp only [Option.bind_eq_bind, Option.bind_some]
    rw [ih hrest (fun ps' hps' => hbound ps' (List.mem_cons_of_mem ps hps')), List.flatten_cons,
      List.length_append]
    congr 2
    omega

/-- **`hash_verify` succeeds** on every sound table. -/
theorem verify_eq_true (hl : h.Laid chains) (hs : (h.view chains).Sound function)
    (hbound : h.nodecount ≤ bound) : h.verify bound = some true := by
  obtain ⟨k, hn, -, hlow⟩ := hs.wf.mask_eq
  have hhigh : h.highmark = 2 ^ (k + 2) := by
    have hmark := hs.highmark_eq
    rw [hn] at hmark
    rw [pow_succ, Nat.mul_comm]
    exact hmark
  have hlow : h.lowmark = 2 ^ k := hlow
  have hlt : ¬ h.lowmark ≥ h.highmark := by
    have := Nat.two_pow_pos k
    rw [hhigh, hlow, pow_add]
    omega
  have hcount : h.verifyChains bound 0 h.table 0 = some (some (0 + chains.flatten.length)) :=
    verifyChains_eq hl.table (fun i ps hps p hp => by rw [(placed hs hps hp).2, Nat.zero_add])
      (fun ps hps => length_le_of_mem hs hbound hps) 0
  rw [Nat.zero_add, length_chains hs] at hcount
  unfold verify
  rw [if_neg hlt, hhigh, hlow, isPowerOfTwo_two_pow, isPowerOfTwo_two_pow, hcount]
  simp

/-! ## `hash_lookup` -/

theorem Laid.length_eq (hl : h.Laid chains) : h.table.length = chains.length := hl.table.length_eq

/-- The chain of a hash value. -/
theorem Laid.exists_chain (hl : h.Laid chains) (hs : (h.view chains).Sound function) (hkey : ℕ) :
    ∃ hptr ps, h.table[hkey &&& h.mask]? = some hptr ∧ chains[hkey &&& h.mask]? = some ps ∧
      Chain h.next hptr ps := by
  have hlt : hkey &&& h.mask < chains.length := by
    have := hs.wf.and_mask_lt hkey
    rwa [view, List.length_map] at this
  have hhptr := List.getElem?_eq_getElem (hl.length_eq.symm ▸ hlt)
  have hps := List.getElem?_eq_getElem hlt
  exact ⟨_, _, hhptr, hps, (forall₂_iff_getElem?.mp hl.table).2 _ _ _ hhptr hps⟩

/-- Different nodes have different keys. -/
theorem eq_of_key (hs : (h.view chains).Sound function) {p q : P} (hp : p ∈ chains.flatten)
    (hq : q ∈ chains.flatten) (hkey : (h.node p).key = (h.node q).key) : p = q := by
  have hnodup := hs.wf.nodup
  rw [nodes_view, List.map_map] at hnodup
  exact List.inj_on_of_nodup_map hnodup hp hq hkey

section Lookup

variable [DecidableEq K]

theorem lookup_view (hl : h.Laid chains) (hs : (h.view chains).Sound function)
    (hbound : h.nodecount ≤ bound) (key : K) :
    ∃ found, h.lookup bound function key = some found ∧
      (h.view chains).lookup function key = found.map h.node ∧
      ∀ p, found = some p → p ∈ chains.flatten := by
  obtain ⟨hptr, ps, hhptr, hps, hchain⟩ := hl.exists_chain hs (function key)
  have hmem := List.mem_of_getElem? hps
  refine ⟨ps.find? fun nptr =>
    (h.node nptr).hkey = function key ∧ (h.node nptr).key = key, ?_, ?_, ?_⟩
  · rw [lookup, hhptr]
    exact hchain.search (length_le_of_mem hs hbound hmem) _
  · rw [Hash.lookup, List.getD_eq_getElem?_getD, view, List.getElem?_map, hps]
    exact List.find?_map ..
  · intro p hp
    exact List.mem_flatten.mpr ⟨ps, hmem, List.mem_of_find?_eq_some hp⟩

/-- The assertion of both deletions. -/
theorem lookup_self (hl : h.Laid chains) (hs : (h.view chains).Sound function)
    (hbound : h.nodecount ≤ bound) {p : P} (hp : p ∈ chains.flatten) :
    h.lookup bound function (h.node p).key = some (some p) := by
  obtain ⟨found, hrun, hview, hfound⟩ := lookup_view hl hs hbound (h.node p).key
  have hnode : (h.view chains).lookup function (h.node p).key = some (h.node p) := by
    rw [Hash.lookup_eq_some_iff hs.wf, nodes_view]
    exact ⟨List.mem_map_of_mem hp, rfl⟩
  rw [hrun]
  rw [hnode] at hview
  obtain ⟨q, hq, hkey⟩ := Option.map_eq_some_iff.mp hview.symm
  rw [hq, eq_of_key hs (hfound q hq) hp (congrArg Hnode.key hkey)]

end Lookup

/-! ## Growing and shrinking -/

section Resize

variable [DecidableEq P] {next : P → Option P} {table : List (Option P)}

theorem splitChains_eq (htable : List.Forall₂ (Chain next) table chains)
    (hnodup : chains.flatten.Nodup) (hbound : ∀ ps ∈ chains, ps.length ≤ bound)
    (toHigh : P → Bool) :
    ∃ next' low high, splitChains bound toHigh next table = some (next', low, high) ∧
      List.Forall₂ (Chain next') low (chains.map fun ps => (ps.filter (!toHigh ·)).reverse) ∧
      List.Forall₂ (Chain next') high (chains.map fun ps => (ps.filter toHigh).reverse) ∧
      ∀ p ∉ chains.flatten, next' p = next p := by
  induction table generalizing next chains with
  | nil =>
    cases htable
    exact ⟨next, [], [], rfl, .nil, .nil, fun _ _ => rfl⟩
  | cons hptr table ih =>
    obtain ⟨ps, chains, hps, hrest, rfl⟩ := List.forall₂_cons_left_iff.mp htable
    obtain ⟨hnodup_ps, hnodup_chains, hdisjoint⟩ := List.nodup_append.mp hnodup
    have hnotin : ∀ p ∈ chains.flatten, p ∉ ps := fun p hp hp' => hdisjoint p hp' p hp rfl
    have hempty : Chain next none [] := rfl
    obtain ⟨next₁, lowChain, highChain, hrun₁, hlow₁, hhigh₁, hnext₁⟩ :=
      Segment.distribute hps hempty hempty (by simpa using hnodup_ps) (hbound ps List.mem_cons_self)
        toHigh
    obtain ⟨next₂, low, high, hrun₂, hlow₂, hhigh₂, hnext₂⟩ :=
      ih (chains_congr hrest fun p hp => hnext₁ p (hnotin p hp)) hnodup_chains
        fun ps' hps' => hbound ps' (List.mem_cons_of_mem ps hps')
    have hframe : ∀ p ∈ ps, next₂ p = next₁ p := fun p hp => hnext₂ p fun hp' => hnotin p hp' hp
    rw [List.append_nil] at hlow₁ hhigh₁
    refine ⟨next₂, lowChain :: low, highChain :: high, ?_, .cons ?_ hlow₂, .cons ?_ hhigh₂, ?_⟩
    · rw [splitChains, hrun₁]
      simp only [Option.bind_eq_bind, Option.bind_some, hrun₂]
      rfl
    · exact hlow₁.congr fun p hp => hframe p (List.mem_of_mem_filter (List.mem_reverse.mp hp))
    · exact hhigh₁.congr fun p hp => hframe p (List.mem_of_mem_filter (List.mem_reverse.mp hp))
    · intro p hp
      rw [List.flatten_cons, List.mem_append, not_or] at hp
      rw [hnext₂ p hp.2, hnext₁ p hp.1]

theorem joinChains_eq {low high : List (Option P)} {lows highs : List (List P)}
    (hlow : List.Forall₂ (Chain next) low lows) (hhigh : List.Forall₂ (Chain next) high highs)
    (hlength : lows.length = highs.length) (hnodup : (lows.flatten ++ highs.flatten).Nodup)
    (hbound : ∀ ps ∈ lows, ps.length ≤ bound) :
    ∃ next' table, joinChains bound next low high = some (next', table) ∧
      List.Forall₂ (Chain next') table (List.zipWith (· ++ ·) lows highs) ∧
      ∀ p ∉ lows.flatten, next' p = next p := by
  induction low generalizing next lows high highs with
  | nil =>
    cases hlow
    exact ⟨next, [], by simp [joinChains], .nil, fun _ _ => rfl⟩
  | cons lowChain low ih =>
    obtain ⟨ps, lows, hps, hrest, rfl⟩ := List.forall₂_cons_left_iff.mp hlow
    cases hhigh with
    | nil => cases hlength
    | @cons highChain qs high highs hqs hhigh =>
      rw [List.flatten_cons, List.flatten_cons] at hnodup
      have hperm : ((ps ++ lows.flatten) ++ (qs ++ highs.flatten)).Perm
          ((ps ++ qs) ++ (lows.flatten ++ highs.flatten)) := by
        rw [List.append_assoc, List.append_assoc]
        refine List.Perm.append_left ps ?_
        rw [← List.append_assoc, ← List.append_assoc]
        exact List.perm_append_comm.append_right _
      obtain ⟨hnodup₁, hnodup₂, hdisjoint⟩ := List.nodup_append.mp (hperm.nodup_iff.mp hnodup)
      have hnotin : ∀ p ∈ lows.flatten ++ highs.flatten, p ∉ ps := fun p hp hp' =>
        hdisjoint p (List.mem_append_left _ hp') p hp rfl
      obtain ⟨next₁, chain, hrun₁, hchain₁, hnext₁⟩ :=
        Segment.splice hps hqs hnodup₁ (hbound ps List.mem_cons_self)
      obtain ⟨next₂, table, hrun₂, htable₂, hnext₂⟩ :=
        ih (chains_congr hrest fun p hp => hnext₁ p (hnotin p (List.mem_append_left _ hp)))
          (chains_congr hhigh fun p hp => hnext₁ p (hnotin p (List.mem_append_right _ hp)))
          (Nat.succ.inj hlength) hnodup₂ fun ps' hps' => hbound ps' (List.mem_cons_of_mem ps hps')
      refine ⟨next₂, chain :: table, ?_, .cons ?_ htable₂, ?_⟩
      · rw [joinChains, hrun₁]
        simp only [Option.bind_eq_bind, Option.bind_some, hrun₂]
        rfl
      · refine hchain₁.congr fun p hp => hnext₂ p fun hp' => ?_
        exact hdisjoint p hp p (List.mem_append_left _ hp') rfl
      · intro p hp
        rw [List.flatten_cons, List.mem_append, not_or] at hp
        rw [hnext₂ p hp.2, hnext₁ p hp.1]

/-- The same nodes in other chains. -/
structure Rearranged (h h' : LinkedHash P K D) (chains chains' : List (List P)) : Prop where
  laid : h'.Laid chains'
  perm : chains'.flatten.Perm chains.flatten
  node_eq : h'.node = h.node
  next_eq : ∀ p ∉ chains.flatten, h'.next p = h.next p

theorem flatten_split_perm {α : Type} (toHigh : α → Bool) (xs : List (List α)) :
    ((xs.map fun x => (x.filter (!toHigh ·)).reverse) ++
      xs.map fun x => (x.filter toHigh).reverse).flatten.Perm xs.flatten := by
  rw [List.flatten_append]
  induction xs with
  | nil => exact .nil
  | cons x xs ih =>
    simp only [List.map_cons, List.flatten_cons]
    have hx : ((x.filter (!toHigh ·)).reverse ++ (x.filter toHigh).reverse).Perm x :=
      ((List.reverse_perm _).append (List.reverse_perm _)).trans
        (List.perm_append_comm.trans (List.filter_append_perm toHigh x))
    refine List.Perm.trans ?_ (hx.append ih)
    simp only [List.append_assoc]
    apply List.Perm.append_left _
    rw [← List.append_assoc, ← List.append_assoc]
    exact List.perm_append_comm.append_right _

/-- Growing splits the chains of the view. -/
theorem doubled_view (hl : h.Laid chains) (hs : (h.view chains).Sound function)
    (hbound : h.nodecount ≤ bound) :
    ∃ h' chains', h.doubled bound = some h' ∧ h.Rearranged h' chains chains' ∧
      h'.view chains' = (h.view chains).grown := by
  obtain ⟨k, -, hmask, -⟩ := hs.wf.mask_eq
  have hmask : h.mask = 2 ^ (k + 1) - 1 := hmask
  have hne : (h.mask <<< 1 ||| 1 != h.mask) = true := by
    rw [bne_iff_ne, hmask, Hash.grown_mask, pow_succ]
    have := Nat.two_pow_pos (k + 1)
    omega
  obtain ⟨next', low, high, hrun, hlow, hhigh, hnext⟩ := splitChains_eq hl.table hl.nodup
    (fun ps hps => length_le_of_mem hs hbound hps)
    (fun hptr => (h.node hptr).hkey &&& ((h.mask <<< 1 ||| 1) ^^^ h.mask) != 0)
  have hperm := flatten_split_perm
    (fun hptr => (h.node hptr).hkey &&& ((h.mask <<< 1 ||| 1) ^^^ h.mask) != 0) chains
  have htable : List.Forall₂ (Chain next') (low ++ high) _ := List.rel_append hlow hhigh
  refine ⟨{ h with
    next := next'
    table := low ++ high
    mask := h.mask <<< 1 ||| 1
    nchains := h.nchains * 2
    lowmark := h.lowmark * 2
    highmark := h.highmark * 2 }, _, ?_,
    ⟨⟨htable, hperm.nodup_iff.mpr hl.nodup⟩, hperm, rfl, hnext⟩, ?_⟩
  · unfold doubled
    simp only [hne, assert_true, Option.bind_eq_bind, Option.bind_some, hrun]
    rfl
  · simp only [view, Hash.grown, List.map_append, List.map_map]
    congr 2
    · refine List.map_congr_left fun ps _ => ?_
      simp [List.filter_map, Function.comp_def, bne]
    · refine List.map_congr_left fun ps _ => ?_
      simp [List.filter_map, Function.comp_def]

theorem growTable_view (hl : h.Laid chains) (hs : (h.view chains).Sound function)
    (hbound : h.nodecount ≤ bound) (realloc : Bool) :
    ∃ h' chains', h.growTable bound realloc = some h' ∧ h.Rearranged h' chains chains' ∧
      h'.view chains' = if realloc then (h.view chains).grown else h.view chains := by
  obtain ⟨k, hn, -⟩ := hs.wf.mask_eq
  have hpos : decide (2 * h.nchains > h.nchains) = true := by
    have hn : h.nchains = 2 ^ (k + 1) := hn
    have := Nat.two_pow_pos (k + 1)
    rw [decide_eq_true_eq, hn]
    omega
  unfold growTable
  cases realloc with
  | false =>
    refine ⟨h, chains, ?_, ⟨hl, .refl _, rfl, fun _ _ => rfl⟩, rfl⟩
    simp [hpos, verify_eq_true hl hs hbound]
  | true =>
    obtain ⟨h', chains', hrun, hre, hview⟩ := doubled_view hl hs hbound
    have hs' : (h'.view chains').Sound function := by
      rw [hview]
      exact hs.grown
    have hcount : h'.nodecount ≤ bound := by
      rw [← length_chains hs', hre.perm.length_eq, length_chains hs]
      exact hbound
    refine ⟨h', chains', ?_, hre, hview⟩
    simp [hpos, hrun, verify_eq_true hre.laid hs' hcount]

/-- Shrinking joins the chains of the view. -/
theorem shrinkTable_view (hl : h.Laid chains) (hs : (h.view chains).Sound function)
    (hbound : h.nodecount ≤ bound) (hlow : h.lowmark > INIT_SIZE) :
    ∃ h' chains', h.shrinkTable bound = some h' ∧ h.Rearranged h' chains chains' ∧
      h'.view chains' = (h.view chains).shrinkTable := by
  obtain ⟨k, hn, -⟩ := hs.wf.mask_eq
  have hn : h.nchains = 2 ^ (k + 1) := hn
  have htwo : decide (h.nchains ≥ 2) = true := by
    have := Nat.two_pow_pos k
    rw [decide_eq_true_eq, hn, pow_succ]
    omega
  have hlength : chains.length = 2 ^ (k + 1) := by
    have := hs.wf.length_table
    rwa [view, List.length_map, hn] at this
  have hhalves : (chains.take (h.nchains / 2)).length = (chains.drop (h.nchains / 2)).length := by
    rw [List.length_take, List.length_drop, hlength, hn, pow_succ]
    omega
  obtain ⟨next', table, hrun, htable, hnext⟩ := joinChains_eq
    (List.forall₂_take (h.nchains / 2) hl.table) (List.forall₂_drop (h.nchains / 2) hl.table)
    hhalves (by rw [← List.flatten_append, List.take_append_drop]; exact hl.nodup)
    fun ps hps => length_le_of_mem hs hbound (List.mem_of_mem_take hps)
  have hperm := Hash.flatten_zipWith_perm _ _ hhalves
  rw [← List.flatten_append, List.take_append_drop] at hperm
  obtain ⟨h', hh'⟩ : ∃ h' : LinkedHash P K D, h' = { h with
      next := next'
      table := table
      mask := h.mask >>> 1
      nchains := h.nchains / 2
      lowmark := h.lowmark / 2
      highmark := h.highmark / 2 } := ⟨_, rfl⟩
  have hlaid : h'.Laid
      (List.zipWith (· ++ ·) (chains.take (h.nchains / 2)) (chains.drop (h.nchains / 2))) := by
    rw [hh']
    exact ⟨htable, hperm.nodup_iff.mpr hl.nodup⟩
  have hview : h'.view
      (List.zipWith (· ++ ·) (chains.take (h.nchains / 2)) (chains.drop (h.nchains / 2))) =
        (h.view chains).shrinkTable := by
    simp only [hh', view, Hash.shrinkTable, ← List.map_take, ← List.map_drop, List.map_zipWith,
      List.zipWith_map, List.map_append]
  have hs' : (h'.view _).Sound function := hview ▸ hs.shrinkTable hlow
  have hcount : h'.nodecount ≤ bound := by
    rw [hh']
    exact hbound
  have hverify := verify_eq_true hlaid hs' hcount
  refine ⟨h', _, ?_, ⟨hlaid, hperm, by rw [hh'], fun p hp => ?_⟩, hview⟩
  · rw [hh'] at hverify ⊢
    unfold shrinkTable
    simp only [htwo, assert_true, Option.bind_eq_bind, Option.bind_some, hrun, hverify]
    rfl
  · rw [hh']
    refine hnext p fun hp' => hp ?_
    obtain ⟨ps, hps, hp'⟩ := List.mem_flatten.mp hp'
    exact List.mem_flatten.mpr ⟨ps, List.mem_of_mem_take hps, hp'⟩

end Resize

/-! ## Deletion -/

section Delete

variable [DecidableEq P] [DecidableEq K] {p : P}

omit [DecidableEq P] [DecidableEq K] in
/-- A node is in one chain only. -/
theorem Laid.notMem_of_ne (hs : (h.view chains).Sound function) {i j : ℕ} {ps qs : List P}
    (hps : chains[i]? = some ps) (hqs : chains[j]? = some qs) (hij : i ≠ j) {q : P} (hq : q ∈ qs) :
    q ∉ ps := by
  intro hq'
  exact hij ((placed hs hps hq').2.symm.trans (placed hs hqs hq).2)

omit [DecidableEq K] in
theorem nodup_erase (hnodup : chains.flatten.Nodup) (p : P) :
    (chains.map (·.erase p)).flatten.Nodup := by
  have hsub : (chains.map (·.erase p)).flatten.Sublist chains.flatten := by
    clear hnodup
    induction chains with
    | nil => exact .slnil
    | cons ps chains ih => exact (List.erase_sublist ..).append ih
  exact hsub.nodup hnodup

omit [DecidableEq K] in
theorem notMem_erase (hnodup : chains.flatten.Nodup) (p : P) :
    p ∉ (chains.map (·.erase p)).flatten := by
  intro hmem
  obtain ⟨qs', hqs', hpq⟩ := List.mem_flatten.mp hmem
  obtain ⟨qs, hqs, rfl⟩ := List.mem_map.mp hqs'
  exact ((List.sublist_flatten_of_mem hqs).nodup hnodup).not_mem_erase hpq

/-- Erasing a node from the chains is removing its key from the view. -/
theorem map_erase_eq_filter (hl : h.Laid chains)
    (hs : (h.view chains).Sound function) (hp : p ∈ chains.flatten) {ps : List P}
    (hps : ps ∈ chains) :
    (ps.erase p).map h.node = (ps.map h.node).filter (·.key ≠ (h.node p).key) := by
  have hnodup : ps.Nodup := (List.sublist_flatten_of_mem hps).nodup hl.nodup
  rw [hnodup.erase_eq_filter, List.filter_map]
  refine congrArg _ (List.filter_congr fun q hq => ?_)
  have hq' : q ∈ chains.flatten := List.mem_flatten.mpr ⟨ps, hps, hq⟩
  have hiff : q = p ↔ (h.node q).key = (h.node p).key :=
    ⟨fun he => by rw [he], fun he => eq_of_key hs hq' hp he⟩
  by_cases he : q = p
  · simp [he]
  · simp [he, hiff.not.mp he]

theorem takeOut_view (hl : h.Laid chains) (hs : (h.view chains).Sound function)
    (hbound : h.nodecount ≤ bound) (hp : p ∈ chains.flatten) :
    ∃ h', h.takeOut bound p = some h' ∧ h'.Laid (chains.map (·.erase p)) ∧
      h'.view (chains.map (·.erase p)) = (h.view chains).scanDelete (h.node p) ∧
      h'.node = h.node ∧ h'.next p = none ∧ ∀ q ∉ chains.flatten, h'.next q = h.next q := by
  have hmem : h.node p ∈ (h.view chains).nodes := nodes_view ▸ List.mem_map_of_mem hp
  obtain ⟨ps, hps, hpps⟩ := List.mem_flatten.mp hp
  obtain ⟨i, hi⟩ := List.mem_iff_getElem?.mp hps
  obtain rfl : (h.node p).hkey &&& h.mask = i := (placed hs hi hpps).2
  obtain ⟨hptr, ps', hhptr, hi', hchain⟩ := hl.exists_chain hs (h.node p).hkey
  obtain rfl := Option.some.inj (hi'.symm.trans hi)
  have hnodup : ps'.Nodup := (List.sublist_flatten_of_mem hps).nodup hl.nodup
  obtain ⟨next', head', hrun, hchain', hnext⟩ :=
    hchain.unlink hnodup hpps (length_le_of_mem hs hbound hps)
  obtain ⟨h', hh'⟩ : ∃ h' : LinkedHash P K D, h' = { h with
      next := next'
      table := h.table.set ((h.node p).hkey &&& h.mask) head'
      nodecount := h.nodecount - 1 } := ⟨_, rfl⟩
  have hnodup' := nodup_erase hl.nodup p
  have htable : List.Forall₂ (Chain h'.next) h'.table (chains.map (·.erase p)) := by
    obtain ⟨hlength, hall⟩ := forall₂_iff_getElem?.mp hl.table
    rw [forall₂_iff_getElem?, hh']
    refine ⟨by simp [hlength], fun j head qs hhead hqs => ?_⟩
    rw [List.getElem?_map, Option.map_eq_some_iff] at hqs
    obtain ⟨qs, hqs, rfl⟩ := hqs
    by_cases hij : (h.node p).hkey &&& h.mask = j
    · subst hij
      obtain rfl := Option.some.inj (hqs.symm.trans hi)
      rw [List.getElem?_set_self (List.getElem?_eq_some_iff.mp hhptr).1] at hhead
      obtain rfl := Option.some.inj hhead
      exact hchain'
    · dsimp only at hhead
      rw [List.getElem?_set_ne hij] at hhead
      rw [List.erase_of_not_mem (Laid.notMem_of_ne hs hqs hi (Ne.symm hij) hpps)]
      exact (hall j head qs hhead hqs).congr fun q hq =>
        hnext q (Laid.notMem_of_ne hs hi hqs hij hq)
  have hview : h'.view (chains.map (·.erase p)) = (h.view chains).scanDelete (h.node p) := by
    have herase : (chains.map (·.erase p)).map (List.map h.node) =
        ((h.view chains).scanDelete (h.node p)).table := by
      rw [Hash.table_scanDelete hs.wf hmem, view, List.map_map, List.map_map]
      exact List.map_congr_left fun qs hqs => map_erase_eq_filter hl hs hp hqs
    rw [hh']
    simp only [view, herase]
    rfl
  have hs' : (h'.view (chains.map (·.erase p))).Sound function := hview ▸ hs.scanDelete hmem
  have hverify := verify_eq_true ⟨htable, hnodup'⟩ hs'
    (show h'.nodecount ≤ bound by rw [hh']; exact (Nat.sub_le ..).trans hbound)
  have hfree := notMem_erase hl.nodup p
  refine ⟨{ h' with next := Function.update h'.next p none }, ?_, ⟨?_, hnodup'⟩, hview, ?_,
    Function.update_self .., ?_⟩
  · rw [hh'] at hverify ⊢
    unfold takeOut
    simp only [hhptr, Option.bind_eq_bind, Option.bind_some, hrun, hverify, assert_true]
    rfl
  · exact chains_congr htable fun q hq =>
      Function.update_of_ne (ne_of_mem_of_not_mem hq hfree) ..
  · rw [hh']
  · intro q hq
    show Function.update h'.next p none q = h.next q
    rw [Function.update_of_ne (ne_of_mem_of_not_mem hp hq).symm, hh']
    exact hnext q fun hq' => hq (List.mem_flatten.mpr ⟨ps', hps, hq'⟩)

theorem scanDelete_view (hl : h.Laid chains) (hs : (h.view chains).Sound function)
    (hbound : h.nodecount ≤ bound) (hp : p ∈ chains.flatten) :
    ∃ h', h.scanDelete bound function p = some h' ∧ h'.Laid (chains.map (·.erase p)) ∧
      h'.view (chains.map (·.erase p)) = (h.view chains).scanDelete (h.node p) ∧
      h'.node = h.node := by
  obtain ⟨h', hrun, hlaid, hview, hnode, -⟩ := takeOut_view hl hs hbound hp
  refine ⟨h', ?_, hlaid, hview, hnode⟩
  unfold scanDelete
  rw [lookup_self hl hs hbound hp]
  simpa using hrun

/-- **Deletion** does to the chains what it does to the view, whether or not the table shrinks. -/
theorem delete_view (hl : h.Laid chains) (hs : (h.view chains).Sound function)
    (hbound : h.nodecount ≤ bound) (hp : p ∈ chains.flatten) :
    ∃ h' chains', h.delete bound function p = some h' ∧ h'.Laid chains' ∧
      h'.view chains' = (h.view chains).delete (h.node p) ∧ p ∉ chains'.flatten := by
  unfold delete
  rw [lookup_self hl hs hbound hp]
  by_cases hshrinks : h.nodecount ≤ h.lowmark ∧ h.nodecount > INIT_SIZE
  · obtain ⟨h₁, chains₁, hrun₁, hre, hview₁⟩ := shrinkTable_view hl hs hbound (by omega)
    have hs₁ : (h₁.view chains₁).Sound function := hview₁ ▸ hs.shrinkTable (by
      show h.lowmark > INIT_SIZE
      omega)
    have hcount : h₁.nodecount ≤ bound := by
      rw [← length_chains hs₁, hre.perm.length_eq, length_chains hs]
      exact hbound
    obtain ⟨h', hrun, hlaid, hview, -⟩ :=
      takeOut_view hre.laid hs₁ hcount (hre.perm.mem_iff.mpr hp)
    refine ⟨h', _, ?_, hlaid, ?_, notMem_erase hre.laid.nodup p⟩
    · simpa [hshrinks, hrun₁] using hrun
    · rw [hview, hview₁, hre.node_eq, Hash.delete]
      exact (if_pos hshrinks).symm
  · obtain ⟨h', hrun, hlaid, hview, -⟩ := takeOut_view hl hs hbound hp
    refine ⟨h', _, ?_, hlaid, ?_, notMem_erase hl.nodup p⟩
    · rw [if_neg hshrinks]
      simpa using hrun
    · rw [hview, Hash.delete]
      exact (if_neg hshrinks).symm

omit [DecidableEq K] in
/-- Changing a field of a node that is not in the table. -/
theorem map_update {α : Type} {ps : List P} (hps : ps ∈ chains) (hp : p ∉ chains.flatten)
    (field : P → α) (a : α) : ps.map (Function.update field p a) = ps.map field := by
  refine List.map_congr_left fun q hq => Function.update_of_ne ?_ ..
  exact ne_of_mem_of_not_mem (List.mem_flatten.mpr ⟨ps, hps, hq⟩) hp

omit [DecidableEq K] in
/-- Freeing a node that is not in the table. -/
theorem freenode_view (hl : h.Laid chains) (hp : p ∉ chains.flatten)
    (contents : Option P × Hnode K D) : (h.freenode p contents).Laid chains ∧
      (h.freenode p contents).view chains = h.view chains := by
  constructor
  · exact ⟨chains_congr hl.table fun q hq =>
      Function.update_of_ne (ne_of_mem_of_not_mem hq hp) .., hl.nodup⟩
  · have hnode : chains.map (List.map (h.freenode p contents).node) =
        chains.map (List.map h.node) :=
      List.map_congr_left fun ps hps => map_update hps hp h.node contents.2
    simp only [view, hnode]
    rfl

theorem deleteFree_view (hl : h.Laid chains) (hs : (h.view chains).Sound function)
    (hbound : h.nodecount ≤ bound) (hp : p ∈ chains.flatten) (contents : Option P × Hnode K D) :
    ∃ h' chains', h.deleteFree bound function p contents = some h' ∧ h'.Laid chains' ∧
      h'.view chains' = (h.view chains).delete (h.node p) := by
  obtain ⟨h', chains', hrun, hlaid, hview, hp'⟩ := delete_view hl hs hbound hp
  obtain ⟨hlaid', hview'⟩ := freenode_view hlaid hp' contents
  refine ⟨_, chains', ?_, hlaid', hview'.trans hview⟩
  unfold deleteFree
  rw [hrun]
  rfl

theorem scanDelfree_view (hl : h.Laid chains) (hs : (h.view chains).Sound function)
    (hbound : h.nodecount ≤ bound) (hp : p ∈ chains.flatten)
    (freed : Option (P → Option P × Hnode K D)) :
    ∃ h', h.scanDelfree bound function p freed = some h' ∧
      h'.Laid (chains.map (·.erase p)) ∧
      h'.view (chains.map (·.erase p)) = (h.view chains).scanDelete (h.node p) ∧
      ∀ q, q ≠ p → h'.node q = h.node q := by
  obtain ⟨h', hrun, hlaid, hview, hnode⟩ := scanDelete_view hl hs hbound hp
  unfold scanDelfree
  rw [hrun]
  cases freed with
  | none => exact ⟨h', rfl, hlaid, hview, fun q _ => congrFun hnode q⟩
  | some contents =>
    obtain ⟨hlaid', hview'⟩ := freenode_view hlaid (notMem_erase hl.nodup p) (contents p)
    refine ⟨_, rfl, hlaid', hview'.trans hview, fun q hq => ?_⟩
    show Function.update h'.node p (contents p).2 q = h.node q
    rw [Function.update_of_ne hq, hnode]

end Delete

/-! ## Insertion -/

section Insert

variable [DecidableEq P] {p : P} {key : K}

/-- The end of `hash_insert` puts the node at the front of its chain. -/
theorem link_view (hl : h.Laid chains) (hs : (h.view chains).Sound function)
    (hp : p ∉ chains.flatten) (key : K) {hptr : Option P}
    (hhptr : h.table[function key &&& h.mask]? = some hptr) {h' : LinkedHash P K D}
    (hh' : h' = { h with
      node := Function.update h.node p ⟨key, (h.node p).data, function key⟩
      next := Function.update h.next p hptr
      table := h.table.set (function key &&& h.mask) (some p)
      nodecount := h.nodecount + 1 }) :
    ∃ chains', h'.Laid chains' ∧
      h'.view chains' = (h.view chains).link function key (h.node p).data ∧
      chains'.flatten.Perm (p :: chains.flatten) := by
  obtain ⟨hptr', ps, hhptr', hps, hchain⟩ := hl.exists_chain hs (function key)
  obtain rfl := Option.some.inj (hhptr'.symm.trans hhptr)
  have hlt := (List.getElem?_eq_some_iff.mp hps).1
  have hperm : (chains.modify (function key &&& h.mask) (p :: ·)).flatten.Perm
      (p :: chains.flatten) := by
    rw [List.modify_eq_take_cons_drop hlt]
    conv_rhs => rw [← List.take_append_drop (function key &&& h.mask) chains,
      List.drop_eq_getElem_cons hlt]
    simp only [List.flatten_append, List.flatten_cons, List.cons_append]
    exact List.perm_middle
  have hother : ∀ {j : ℕ} {qs : List P}, chains[j]? = some qs → p ∉ qs := fun hqs hpq =>
    hp (List.mem_flatten.mpr ⟨_, List.mem_of_getElem? hqs, hpq⟩)
  refine ⟨chains.modify (function key &&& h.mask) (p :: ·), ⟨?_, ?_⟩, ?_, hperm⟩
  · obtain ⟨hlength, hall⟩ := forall₂_iff_getElem?.mp hl.table
    rw [forall₂_iff_getElem?, hh']
    refine ⟨by simp [hlength], fun j head qs hhead hqs => ?_⟩
    dsimp only at hhead ⊢
    by_cases hj : function key &&& h.mask = j
    · subst hj
      rw [List.getElem?_set_self (List.getElem?_eq_some_iff.mp hhptr).1] at hhead
      rw [List.getElem?_modify_eq, hps] at hqs
      obtain rfl := Option.some.inj hhead
      obtain rfl := Option.some.inj hqs
      exact hchain.push (hother hps)
    · rw [List.getElem?_set_ne hj] at hhead
      rw [List.getElem?_modify_ne _ _ hj] at hqs
      exact (hall j head qs hhead hqs).update (hother hqs) hptr'
  · exact hperm.nodup_iff.mpr (List.nodup_cons.mpr ⟨hp, hl.nodup⟩)
  · have hnode : ∀ qs ∈ chains,
        qs.map (Function.update h.node p ⟨key, (h.node p).data, function key⟩) =
          qs.map h.node := fun qs hqs => map_update hqs hp h.node _
    have htable : (chains.modify (function key &&& h.mask) (p :: ·)).map
        (List.map (Function.update h.node p ⟨key, (h.node p).data, function key⟩)) =
        (chains.map (List.map h.node)).modify (function key &&& h.mask)
          (⟨key, (h.node p).data, function key⟩ :: ·) := by
      refine List.ext_getElem? fun j => ?_
      rw [List.getElem?_map, List.getElem?_modify, List.getElem?_modify, List.getElem?_map]
      cases hqs : chains[j]? with
      | none => simp
      | some qs =>
        have hmap := hnode qs (List.mem_of_getElem? hqs)
        by_cases hj : function key &&& h.mask = j <;> simp [hj, hmap]
    rw [hh']
    simp only [view, htable]
    rfl

/-- The table after `hash_insert`, when `realloc` tells whether there is memory for growing. -/
def inserted (hash : Hash K D) (function : K → ℕ) (realloc : Bool) (key : K) (data : D) :
    Hash K D :=
  (if hash.nodecount ≥ hash.highmark ∧ realloc then hash.grown else hash).link function key data

omit [DecidableEq P] in
/-- It is a result of the insertion in `Rhizofs.Kazlib.Hash`. -/
theorem runs_inserted (hash : Hash K D) (function : K → ℕ) (realloc : Bool) (key : K) (data : D) :
    (hash.insert function key data).Runs (fun _ _ _ _ => True) ()
      (inserted hash function realloc key data) () := by
  unfold Hash.insert inserted
  by_cases hfull : hash.nodecount ≥ hash.highmark
  · rw [if_pos hfull]
    refine ⟨realloc, (), trivial, ?_⟩
    cases realloc with
    | true => exact ⟨by simp [hfull], rfl⟩
    | false => exact ⟨by simp, rfl⟩
  · rw [if_neg hfull]
    exact ⟨by simp [hfull], rfl⟩

/-- **Insertion** does to the chains what it does to the view, whether or not the table grows. -/
theorem insert_view [DecidableEq K] (hl : h.Laid chains) (hs : (h.view chains).Sound function)
    (hbound : h.nodecount < bound) (hp : p ∉ chains.flatten) (hnull : h.next p = none)
    (hroom : h.nodecount < h.maxcount) (hkey : (h.view chains).lookup function key = none)
    (realloc : Bool) :
    ∃ h' chains', h.insert bound function p key realloc = some h' ∧ h'.Laid chains' ∧
      h'.view chains' = inserted (h.view chains) function realloc key (h.node p).data ∧
      (h'.view chains').Sound function ∧ chains'.flatten.Perm (p :: chains.flatten) := by
  obtain ⟨found, hfound, hview, -⟩ := lookup_view hl hs hbound.le key
  obtain rfl : found = none := by
    rw [hkey] at hview
    exact Option.map_eq_none_iff.mp hview.symm
  -- the table that the node goes into
  obtain ⟨h₁, chains₁, hrun₁, hre, hview₁⟩ : ∃ h₁ chains₁,
      (if h.nodecount ≥ h.highmark then h.growTable bound realloc else some h) = some h₁ ∧
      h.Rearranged h₁ chains chains₁ ∧ h₁.view chains₁ =
        if h.nodecount ≥ h.highmark ∧ realloc then (h.view chains).grown else h.view chains := by
    by_cases hfull : h.nodecount ≥ h.highmark
    · obtain ⟨h₁, chains₁, hrun₁, hre, hview₁⟩ := growTable_view hl hs hbound.le realloc
      exact ⟨h₁, chains₁, by rw [if_pos hfull, hrun₁], hre, by simp [hview₁, hfull]⟩
    · exact ⟨h, chains, if_neg hfull, ⟨hl, .refl _, rfl, fun _ _ => rfl⟩, by simp [hfull]⟩
  have hs₁ : (h₁.view chains₁).Sound function := by
    rw [hview₁]
    split_ifs
    · exact hs.grown
    · exact hs
  have hkey₁ : ∀ node ∈ (h₁.view chains₁).nodes, node.key ≠ key := by
    rw [nodes_view, hre.node_eq]
    intro node hnode
    refine Hash.lookup_eq_none hs.wf hkey node ?_
    rw [nodes_view]
    exact (hre.perm.map h.node).mem_iff.mp hnode
  have hp₁ : p ∉ chains₁.flatten := fun hp' => hp (hre.perm.mem_iff.mp hp')
  obtain ⟨hptr, -, hhptr, -⟩ := hre.laid.exists_chain hs₁ (function key)
  obtain ⟨h', hh'⟩ : ∃ h' : LinkedHash P K D, h' = { h₁ with
      node := Function.update h₁.node p ⟨key, (h₁.node p).data, function key⟩
      next := Function.update h₁.next p hptr
      table := h₁.table.set (function key &&& h₁.mask) (some p)
      nodecount := h₁.nodecount + 1 } := ⟨_, rfl⟩
  obtain ⟨chains', hlaid, hview', hperm⟩ := link_view hre.laid hs₁ hp₁ key hhptr hh'
  have hs' : (h'.view chains').Sound function := hview' ▸ hs₁.link hkey₁ _
  have hcount : h'.nodecount ≤ bound := by
    rw [hh', ← length_chains hs₁, hre.perm.length_eq, length_chains hs]
    exact hbound
  have hverify := verify_eq_true hlaid hs' hcount
  refine ⟨h', chains', ?_, hlaid, ?_, hs', hperm.trans (hre.perm.cons p)⟩
  · rw [hh'] at hverify ⊢
    unfold insert
    by_cases hfull : h.nodecount ≥ h.highmark
    · rw [if_pos hfull] at hrun₁
      simp [hnull, hroom, hfound, hfull, hrun₁, hhptr, hverify]
    · rw [if_neg hfull] at hrun₁
      obtain rfl := Option.some.inj hrun₁
      simp [hnull, hroom, hfound, hfull, hhptr, hverify]
  · rw [hview', hview₁, hre.node_eq, inserted]
    rfl

end Insert

end LinkedHash

end Rhizofs.Kazlib
