import Rhizofs.Fs.AttrCache
import Mathlib.Algebra.Order.Group.Nat
import Mathlib.Data.List.Count

/-!
# What the attribute cache evicts

`AttrCache_shrink` scans the table twice. The first scan takes out the entries that are too old, and
the second one takes out the first entries it meets until enough are gone. What is left is the end
of the list of the entries that are not too old, in the order of the scan (`nodes_shrink`). The
documentation wants the oldest entries to go first; when that is so is `evictsOldest_iff`.
-/

namespace Rhizofs.AttrCache

open Kazlib

variable {cache : AttrCache} {now : ℤ}

/-! ## The two scans -/

/-- Taking out a node in the middle of the scan. -/
theorem nodes_scanDelete_split {hashtable : Hash CString CacheEntry}
    (h : hashtable.Wf hashfuncDjb2) (done : List (Hnode CString CacheEntry))
    {scan : List (Hnode CString CacheEntry)} {node : Hnode CString CacheEntry}
    (hnodes : hashtable.nodes = done ++ node :: scan) :
    (hashtable.scanDelete node).nodes = done ++ scan := by
  have hmem : node ∈ hashtable.nodes := by simp [hnodes]
  have hnodup : ((done ++ node :: scan).map (·.key)).Nodup := hnodes ▸ h.nodup
  rw [List.map_append, List.map_cons, List.nodup_middle, List.nodup_cons] at hnodup
  have hother : ∀ node' ∈ done ++ scan, node'.key ≠ node.key := by
    intro node' hmem' hkey
    apply hnodup.1
    rw [← List.map_append]
    exact List.mem_map.mpr ⟨node', hmem', hkey⟩
  have hself : (done ++ scan).filter (·.key ≠ node.key) = done ++ scan := by
    rw [List.filter_eq_self]
    simpa using hother
  rw [Hash.nodes_scanDelete h hmem, hnodes, List.filter_append, List.filter_cons_of_neg (by simp),
    ← List.filter_append, hself]

/-- The first scan keeps the entries that are not too old, and counts the others. -/
theorem nodes_removeOld (cache : AttrCache) (now : ℤ) {hashtable : Hash CString CacheEntry}
    (h : hashtable.Wf hashfuncDjb2) (done scan : List (Hnode CString CacheEntry))
    (hnodes : hashtable.nodes = done ++ scan) (removed : ℕ) :
    (cache.removeOld now scan hashtable removed).1.nodes =
        done ++ scan.filter (fun node => !cache.isTooOld now node.data) ∧
      (cache.removeOld now scan hashtable removed).2 =
        removed + scan.countP fun node => cache.isTooOld now node.data := by
  induction scan generalizing hashtable done removed with
  | nil => exact ⟨by simpa [removeOld] using hnodes, rfl⟩
  | cons node scan ih =>
    have hmem : node ∈ hashtable.nodes := by simp [hnodes]
    by_cases hold : cache.isTooOld now node.data
    · obtain ⟨h₁, h₂⟩ := ih (Hash.wf_scanDelete h hmem) done
        (nodes_scanDelete_split h done hnodes) (removed + 1)
      simp only [removeOld, hold, if_true]
      constructor
      · rw [h₁, List.filter_cons_of_neg (by simp [hold])]
      · rw [h₂, List.countP_cons, if_pos hold]
        omega
    · have hnodes' : hashtable.nodes = (done ++ [node]) ++ scan := by simp [hnodes]
      obtain ⟨h₁, h₂⟩ := ih h (done ++ [node]) hnodes' removed
      rw [removeOld, if_neg hold]
      constructor
      · rw [h₁, List.filter_cons_of_pos (by simp [hold]), List.append_assoc, List.singleton_append]
      · rw [h₂, List.countP_cons, if_neg hold, Nat.add_zero]

/-- The second scan takes nodes from the front. -/
theorem nodes_removeFirst (shrinkNum : ℕ) {hashtable : Hash CString CacheEntry}
    (h : hashtable.Wf hashfuncDjb2) {scan : List (Hnode CString CacheEntry)}
    (hnodes : hashtable.nodes = scan) (removed : ℕ) :
    (removeFirst shrinkNum scan hashtable removed).1.nodes = scan.drop (shrinkNum - removed) := by
  induction scan generalizing hashtable removed with
  | nil => simpa [removeFirst] using hnodes
  | cons node scan ih =>
    by_cases hlt : removed < shrinkNum
    · have hmem : node ∈ hashtable.nodes := by simp [hnodes]
      have hdel := nodes_scanDelete_split h [] hnodes
      rw [removeFirst, if_pos hlt, ih (Hash.wf_scanDelete h hmem) hdel (removed + 1)]
      obtain ⟨k, hk⟩ : ∃ k, shrinkNum - removed = k + 1 := ⟨shrinkNum - removed - 1, by omega⟩
      rw [hk, List.drop_succ_cons]
      congr 1
      omega
    · rw [removeFirst, if_neg hlt, show shrinkNum - removed = 0 by omega]
      exact hnodes

/-! ## What is left -/

/-- How many entries are to be removed. -/
def shrinkNum (cache : AttrCache) : ℕ := min cache.batchSize cache.hashtable.count

/-- The number of entries that are too old. -/
def expired (cache : AttrCache) (now : ℤ) : ℕ :=
  cache.hashtable.nodes.countP fun node => cache.isTooOld now node.data

/-- The entries that are not too old, in the order of the scan. -/
def fresh (cache : AttrCache) (now : ℤ) : List (Hnode CString CacheEntry) :=
  cache.hashtable.nodes.filter fun node => !cache.isTooOld now node.data

theorem mem_fresh {node : Hnode CString CacheEntry} :
    node ∈ cache.fresh now ↔
      node ∈ cache.hashtable.nodes ∧ ¬ cache.isTooOld now node.data := by
  simp [fresh]

theorem expired_add_length_fresh (h : cache.hashtable.Wf hashfuncDjb2) (now : ℤ) :
    cache.expired now + (cache.fresh now).length = cache.hashtable.count := by
  rw [h.count_eq, expired, fresh, ← List.countP_eq_length_filter]
  have hsplit : cache.hashtable.nodes.length = _ :=
    List.length_eq_countP_add_countP fun node => cache.isTooOld now node.data
  simpa using hsplit.symm

theorem nodup_fresh (h : cache.hashtable.Wf hashfuncDjb2) (now : ℤ) :
    (cache.fresh now).Nodup := (List.Nodup.of_map _ h.nodup).filter _

theorem count_shrink (h : cache.hashtable.Wf hashfuncDjb2) (now : ℤ) :
    (cache.shrink now).2.hashtable.count = (cache.shrink now).2.hashtable.nodes.length := by
  rw [shrink_eq]
  split_ifs
  · exact h.count_eq
  · exact h.count_eq
  · obtain ⟨removed, hs, -⟩ := cache.shrinkSection_shrunk h now cache.shrinkNum
    exact hs.wf.count_eq

/-- **What shrinking leaves**: all but the first of the entries that are not too old. -/
theorem nodes_shrink (h : cache.hashtable.Wf hashfuncDjb2) (hnow : now ≠ -1)
    (hpos : cache.shrinkNum ≠ 0) :
    (cache.shrink now).2.hashtable.nodes =
      (cache.fresh now).drop (cache.shrinkNum - cache.expired now) := by
  obtain ⟨hnodes, hremoved⟩ :
      (cache.removeOld now cache.hashtable.nodes cache.hashtable 0).1.nodes = cache.fresh now ∧
        (cache.removeOld now cache.hashtable.nodes cache.hashtable 0).2 = cache.expired now := by
    simpa [fresh, expired] using cache.nodes_removeOld now h [] cache.hashtable.nodes rfl 0
  have hwf := (cache.removeOld_shrunk now h 0 (List.Subset.refl _) h.nodup).wf
  have hshrink : cache.shrink now = (true, cache.shrinkSection now cache.shrinkNum) := by
    rw [shrink_eq]
    exact (if_neg hpos).trans (if_neg hnow)
  rw [hshrink]
  simp only [shrinkSection, hremoved]
  split_ifs with hlt
  · rw [nodes_removeFirst _ hwf rfl, hnodes]
  · rw [hnodes, show cache.shrinkNum - cache.expired now = 0 by omega, List.drop_zero]

/-- Without entries to remove, or without the time, nothing changes. -/
theorem nodes_shrink_unchanged (h : cache.shrinkNum = 0 ∨ now = -1) :
    (cache.shrink now).2 = cache := by
  rw [shrink_eq]
  split_ifs with h₁ h₂
  · rfl
  · rfl
  · exact absurd h (by tauto)

/-! ## Eviction by age -/

/-- The eviction that the documentation of `AttrCache_shrink` describes, from `cache` to
`cache'`: all entries that are too old go, and enough others, the oldest first. -/
structure EvictsOldest (now : ℤ) (cache cache' : AttrCache) : Prop where
  expired : ∀ node ∈ cache.hashtable.nodes, cache.isTooOld now node.data →
    node ∉ cache'.hashtable.nodes
  amount : cache'.hashtable.count + max (cache.expired now) cache.shrinkNum =
    cache.hashtable.count
  oldest : ∀ node ∈ cache.hashtable.nodes, node ∉ cache'.hashtable.nodes →
    ∀ kept ∈ cache'.hashtable.nodes, node.data.cacheCreationTs ≤ kept.data.cacheCreationTs

/-- An entry that is too old is older than one that is not. -/
theorem creationTs_le_of_isTooOld {node kept : Hnode CString CacheEntry}
    (hold : cache.isTooOld now node.data) (hfresh : ¬ cache.isTooOld now kept.data) :
    node.data.cacheCreationTs ≤ kept.data.cacheCreationTs := by
  simp only [isTooOld, decide_eq_true_eq] at hold hfresh
  omega

theorem evictsOldest_unchanged_iff : EvictsOldest now cache cache ↔
    cache.expired now = 0 ∧ cache.shrinkNum = 0 := by
  constructor
  · intro h
    have := h.amount
    omega
  · rintro ⟨hexpired, hnum⟩
    have hnone : ∀ node ∈ cache.hashtable.nodes, ¬ cache.isTooOld now node.data :=
      List.countP_eq_zero.mp hexpired
    constructor
    · intro node hmem hold
      exact absurd hold (hnone node hmem)
    · omega
    · intro node hmem hgone
      exact absurd hmem hgone

/-- **When the oldest entries go first.** For any content of the table, any batch size and any
reading of the clock, shrinking evicts by age if and only if either there is nothing to remove, or
the clock could be read and the entries that make up the number, which come first in the order of
the table, are no younger than the ones after them. -/
theorem evictsOldest_iff (h : cache.hashtable.Wf hashfuncDjb2) :
    EvictsOldest now cache (cache.shrink now).2 ↔
      if cache.shrinkNum = 0 then cache.expired now = 0
      else now ≠ -1 ∧
        ∀ first ∈ (cache.fresh now).take (cache.shrinkNum - cache.expired now),
          ∀ kept ∈ (cache.fresh now).drop (cache.shrinkNum - cache.expired now),
            first.data.cacheCreationTs ≤ kept.data.cacheCreationTs := by
  split_ifs with hnum
  · rw [nodes_shrink_unchanged (.inl hnum), evictsOldest_unchanged_iff]
    tauto
  by_cases hnow : now = -1
  · rw [nodes_shrink_unchanged (.inr hnow), evictsOldest_unchanged_iff]
    tauto
  have hnodes := nodes_shrink h hnow hnum
  constructor
  · intro hevicts
    refine ⟨hnow, fun first hfirst kept hkept => ?_⟩
    apply hevicts.oldest first _ _ kept (hnodes ▸ hkept)
    · exact (mem_fresh.mp (List.mem_of_mem_take hfirst)).1
    · rw [hnodes]
      exact List.disjoint_take_drop (nodup_fresh h now) le_rfl hfirst
  · rintro ⟨-, hage⟩
    refine ⟨?_, ?_, ?_⟩
    · intro node _ hold hmem
      rw [hnodes] at hmem
      exact (mem_fresh.mp (List.mem_of_mem_drop hmem)).2 hold
    · rw [count_shrink h now, hnodes, List.length_drop]
      have := expired_add_length_fresh h now
      have : cache.shrinkNum ≤ cache.hashtable.count := min_le_right _ _
      omega
    · intro node hmem hgone kept hkept
      rw [hnodes] at hgone hkept
      have hkept' := (mem_fresh.mp (List.mem_of_mem_drop hkept)).2
      by_cases hold : cache.isTooOld now node.data
      · exact creationTs_le_of_isTooOld hold hkept'
      · -- a fresh entry that goes is one of the first
        have hfresh : node ∈ cache.fresh now := mem_fresh.mpr ⟨hmem, hold⟩
        rw [← List.take_append_drop (cache.shrinkNum - cache.expired now) (cache.fresh now),
          List.mem_append] at hfresh
        rcases hfresh with hfirst | hrest
        · exact hage node hfirst kept hkept
        · exact absurd hrest hgone

/-! ## Two entries -/

/-- A cache with the entries `/a` and `/b`, made at the given times. A scan meets `/a` first. -/
def twoEntries (tsA tsB : ℤ) : AttrCache :=
  { hashtable := ((Hash.create 10).link hashfuncDjb2 [47, 97] ⟨.zero, tsA⟩).link hashfuncDjb2
      [47, 98] ⟨.zero, tsB⟩
    maxAgeSec := 10
    batchSize := 1 }

theorem wf_twoEntries (tsA tsB : ℤ) : (twoEntries tsA tsB).hashtable.Wf hashfuncDjb2 := by
  have hcreate : (Hash.create 10 : Hash CString CacheEntry).Wf hashfuncDjb2 := Hash.wf_create 10
  have hnone : ∀ node ∈ (Hash.create 10 : Hash CString CacheEntry).nodes, node.key ≠ [47, 97] := by
    intro node hmem
    cases (List.eq_nil_of_length_eq_zero hcreate.count_eq.symm ▸ hmem)
  apply Hash.wf_link (Hash.wf_link hcreate hnone _)
  intro node hmem hkey
  rcases List.mem_cons.mp ((Hash.nodes_link hcreate _ _).mem_iff.mp hmem) with rfl | hmem
  · have hne : ([47, 97] : CString) ≠ [47, 98] := by decide
    exact hne hkey
  · cases (List.eq_nil_of_length_eq_zero hcreate.count_eq.symm ▸ hmem)

/-- The younger entry goes when the scan meets it first. -/
theorem evicts_younger : (twoEntries 5 0).hashtable.Wf hashfuncDjb2 ∧
    ¬ EvictsOldest 5 (twoEntries 5 0) ((twoEntries 5 0).shrink 5).2 := by
  constructor
  · exact wf_twoEntries 5 0
  · intro h
    let times (cache : AttrCache) := cache.hashtable.nodes.map (·.data.cacheCreationTs)
    have hbefore : times (twoEntries 5 0) = [5, 0] := by decide +kernel
    have hafter : times ((twoEntries 5 0).shrink 5).2 = [0] := by decide +kernel
    obtain ⟨node, hmem, hnode⟩ :=
      List.mem_map.mp (show 5 ∈ times (twoEntries 5 0) by simp [hbefore])
    obtain ⟨kept, hkept, hzero⟩ :=
      List.mem_map.mp (show 0 ∈ times ((twoEntries 5 0).shrink 5).2 by simp [hafter])
    have hgone : node ∉ ((twoEntries 5 0).shrink 5).2.hashtable.nodes := by
      intro hmem'
      have htime : node.data.cacheCreationTs ∈ times ((twoEntries 5 0).shrink 5).2 :=
        List.mem_map_of_mem hmem'
      simp [hafter, hnode] at htime
    have := h.oldest node hmem hgone kept hkept
    omega

/-- When the scan meets the older entry first, that one goes. -/
theorem evicts_older : EvictsOldest 5 (twoEntries 0 5) ((twoEntries 0 5).shrink 5).2 := by
  apply (evictsOldest_iff (wf_twoEntries 0 5)).mpr
  decide +kernel

end Rhizofs.AttrCache
