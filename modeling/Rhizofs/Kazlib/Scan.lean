import Rhizofs.Kazlib.LinkedHash

/-!
# Scanning the table

A scanner stands before a node. It has still to return that node, the rest of its chain and the
later chains (`Remaining`). Deleting a node that it has returned does not change this, so a loop
that deletes some of the nodes it gets still gets each node of the table once, in the order of
`Hash.nodes` (`scan_view`).
-/

namespace Rhizofs.Kazlib

open Extern

/-- A loop over nodes, which deletes the ones that `body` selects. -/
def Hash.scanNodes {K D σ : Type} [DecidableEq K] (go : σ → Bool)
    (body : σ → Hnode K D → Bool × σ) : List (Hnode K D) → Hash K D → σ → Hash K D × σ
  | [], hash, s => (hash, s)
  | node :: nodes, hash, s =>
    if !go s then (hash, s)
    else
      let (selected, s) := body s node
      scanNodes go body nodes (if selected then hash.scanDelete node else hash) s

namespace LinkedHash

variable {P K D : Type} {h : LinkedHash P K D} {chains : List (List P)} {function : K → ℕ}
  {bound : ℕ}

/-- What a scanner has still to return. -/
def Remaining (chains : List (List P)) (scan : Hscan P) (rest : List P) : Prop :=
  match scan.next with
  | none => rest = []
  | some p => ∃ done ps, chains[scan.chain]? = some (done ++ p :: ps) ∧
      rest = p :: ps ++ (chains.drop (scan.chain + 1)).flatten

section Scanner

variable {scan : Hscan P} {p : P} {rest : List P}

theorem remaining_skipEmpty {next : P → Option P} {table table' : List (Option P)} (chain : ℕ)
    (htable : List.Forall₂ (Chain next) table chains) (hdrop : table.drop chain = table') :
    Remaining chains ⟨(skipEmpty table' chain).1, (skipEmpty table' chain).2⟩
      (chains.drop chain).flatten := by
  have hrest := List.forall₂_drop chain htable
  rw [hdrop] at hrest
  fun_induction skipEmpty table' chain with
  | case1 chain =>
    rw [List.forall₂_nil_left_iff.mp hrest]
    rfl
  | case2 table' chain ih =>
    obtain ⟨ps, chains', hps, hrest', heq⟩ := List.forall₂_cons_left_iff.mp hrest
    obtain rfl := chain_none.mp hps
    have hnext : chains.drop (chain + 1) = chains' := by
      rw [← List.tail_drop, heq, List.tail_cons]
    rw [heq, List.flatten_cons, List.nil_append, ← hnext]
    refine ih ?_ (hnext ▸ hrest')
    rw [← List.tail_drop, hdrop, List.tail_cons]
  | case3 first table' chain =>
    obtain ⟨ps, chains', hps, -, heq⟩ := List.forall₂_cons_left_iff.mp hrest
    obtain ⟨qs, rfl, -⟩ := hps.cons_of_some
    refine ⟨[], qs, ?_, ?_⟩
    · show chains[chain]? = some (first :: qs)
      rw [← List.head?_drop, heq, List.head?_cons]
    · show _ = first :: qs ++ (chains.drop (chain + 1)).flatten
      rw [← List.tail_drop, heq, List.tail_cons, List.flatten_cons]

theorem remaining_scanBegin (hl : h.Laid chains) :
    Remaining chains h.scanBegin chains.flatten :=
  remaining_skipEmpty 0 hl.table List.drop_zero

theorem scanNext_nil (hr : Remaining chains scan []) : h.scanNext scan = (none, scan) := by
  unfold Remaining at hr
  unfold scanNext
  cases hnext : scan.next with
  | none => rfl
  | some p =>
    rw [hnext] at hr
    obtain ⟨done, ps, -, hnil⟩ := hr
    cases hnil

/-- The scanner returns a node, and has the others still to return. -/
theorem scanNext_cons (hl : h.Laid chains) (hr : Remaining chains scan (p :: rest)) :
    ∃ scan', h.scanNext scan = (some p, scan') ∧ Remaining chains scan' rest := by
  unfold Remaining at hr
  cases hnext : scan.next with
  | none =>
    rw [hnext] at hr
    cases hr
  | some q =>
    rw [hnext] at hr
    obtain ⟨done, ps, hchain, heq⟩ := hr
    obtain ⟨rfl, rfl⟩ := List.cons.inj heq
    -- the rest of the chain
    have hlt : scan.chain < h.table.length := by
      rw [hl.length_eq]
      exact (List.getElem?_eq_some_iff.mp hchain).1
    have hps := (forall₂_iff_getElem?.mp hl.table).2 scan.chain _ _
      (List.getElem?_eq_getElem hlt) hchain
    obtain ⟨mid, -, rfl, hafter⟩ := segment_append.mp hps
    unfold scanNext
    rw [hnext]
    cases ps with
    | nil =>
      have hnull : h.next p = none := hafter
      have hskip := remaining_skipEmpty (scan.chain + 1) hl.table rfl
      simp only [hnull]
      rcases hempty : skipEmpty (h.table.drop (scan.chain + 1)) (scan.chain + 1) with ⟨chain, first⟩
      rw [hempty] at hskip
      cases first with
      | none => exact ⟨_, rfl, hskip⟩
      | some first => exact ⟨_, rfl, hskip⟩
    | cons q ps =>
      have hq : h.next p = some q := hafter.1
      simp only [hq]
      refine ⟨_, rfl, done ++ [p], ps, ?_, rfl⟩
      rw [List.append_assoc]
      exact hchain

/-- Deleting a node that has been returned. -/
theorem Remaining.erase [DecidableEq P] (hr : Remaining chains scan rest) (hp : p ∉ rest) :
    Remaining (chains.map (·.erase p)) scan rest := by
  unfold Remaining at hr ⊢
  cases hnext : scan.next with
  | none =>
    rw [hnext] at hr
    exact hr
  | some q =>
    rw [hnext] at hr
    obtain ⟨done, ps, hchain, rfl⟩ := hr
    obtain ⟨hps, hlater⟩ := not_or.mp (List.mem_append.not.mp hp)
    have herase : (done ++ q :: ps).erase p = done.erase p ++ q :: ps := by
      by_cases hdone : p ∈ done
      · exact List.erase_append_left _ hdone
      · rw [List.erase_append_right _ hdone, List.erase_of_not_mem hps,
          List.erase_of_not_mem hdone]
    refine ⟨done.erase p, ps, ?_, ?_⟩
    · rw [List.getElem?_map, hchain, Option.map_some, herase]
    · have hsame : (chains.drop (scan.chain + 1)).map (·.erase p) =
          chains.drop (scan.chain + 1) := by
        refine (List.map_congr_left fun qs hqs => ?_).trans (List.map_id _)
        exact List.erase_of_not_mem fun hpq => hlater (List.mem_flatten.mpr ⟨qs, hqs, hpq⟩)
      rw [← List.map_drop, hsame]

end Scanner

/-! ## Loops -/

section Loops

variable [DecidableEq P] [DecidableEq K] {σ : Type} (freed : Option (P → Option P × Hnode K D))
  (go : σ → Bool) (body : σ → Hnode K D → Bool × σ)

/-- What is known of a table after a loop. -/
structure Scanned (chains : List (List P)) (function : K → ℕ) (h' : LinkedHash P K D)
    (chains' : List (List P)) : Prop where
  laid : h'.Laid chains'
  sound : (h'.view chains').Sound function
  subset : chains'.flatten ⊆ chains.flatten

theorem scanLoop_view (hl : h.Laid chains) (hs : (h.view chains).Sound function)
    (hbound : h.nodecount ≤ bound) {scan : Hscan P} {rest : List P} {rounds : ℕ}
    (hr : Remaining chains scan rest) (hnodup : rest.Nodup) (hsub : rest ⊆ chains.flatten)
    (hrounds : rest.length ≤ rounds) (s : σ) :
    ∃ h' chains' s', scanLoop bound function freed go body rounds h scan s = some (h', s') ∧
      (h'.view chains', s') = (h.view chains).scanNodes go body (rest.map h.node) s ∧
      Scanned chains function h' chains' := by
  induction rest generalizing h chains scan rounds s with
  | nil =>
    refine ⟨h, chains, s, ?_, rfl, hl, hs, List.Subset.refl _⟩
    unfold scanLoop
    rw [scanNext_nil hr]
    split <;> rfl
  | cons p rest ih =>
    cases rounds with
    | zero => cases hrounds
    | succ rounds =>
      obtain ⟨scan', hnext, hr'⟩ := scanNext_cons hl hr
      obtain ⟨hp, hnodup⟩ := List.nodup_cons.mp hnodup
      have hp' : p ∈ chains.flatten := hsub List.mem_cons_self
      have hrest : rest ⊆ chains.flatten := List.subset_of_cons_subset hsub
      unfold scanLoop
      rw [List.map_cons, Hash.scanNodes]
      by_cases hgo : go s
      swap
      · refine ⟨h, chains, s, ?_, ?_, hl, hs, List.Subset.refl _⟩ <;> simp [hgo]
      rcases hbody : body s (h.node p) with ⟨selected, s₁⟩
      cases selected with
      | false =>
        obtain ⟨h', chains', s', hrun, hview, hscanned⟩ := ih hl hs hbound hr' hnodup hrest
          (Nat.le_of_succ_le_succ hrounds) s₁
        refine ⟨h', chains', s', ?_, ?_, hscanned⟩
        · simpa [hgo, hnext, hbody] using hrun
        · simpa [hgo, hbody] using hview
      | true =>
        obtain ⟨h₁, hdel, hl₁, hview₁, hnode₁⟩ := scanDelfree_view hl hs hbound hp' freed
        have hmem : h.node p ∈ (h.view chains).nodes := nodes_view ▸ List.mem_map_of_mem hp'
        have hs₁ : (h₁.view _).Sound function := hview₁ ▸ hs.scanDelete hmem
        have hcount : h₁.nodecount ≤ bound := by
          have heq : h₁.nodecount = h.nodecount - 1 := congrArg Hash.nodecount hview₁
          omega
        have hrest₁ : rest ⊆ (chains.map (·.erase p)).flatten := by
          intro q hq
          obtain ⟨qs, hqs, hq'⟩ := List.mem_flatten.mp (hrest hq)
          refine List.mem_flatten.mpr ⟨qs.erase p, List.mem_map_of_mem hqs, ?_⟩
          exact (List.mem_erase_of_ne (ne_of_mem_of_not_mem hq hp)).mpr hq'
        obtain ⟨h', chains', s', hrun, hview, hscanned⟩ := ih hl₁ hs₁ hcount (hr'.erase hp) hnodup
          hrest₁ (Nat.le_of_succ_le_succ hrounds) s₁
        have hnodes : rest.map h₁.node = rest.map h.node :=
          List.map_congr_left fun q hq => hnode₁ q (ne_of_mem_of_not_mem hq hp)
        refine ⟨h', chains', s', ?_, ?_, hscanned.laid, hscanned.sound,
          List.Subset.trans hscanned.subset ?_⟩
        · simpa [hgo, hnext, hbody, hdel] using hrun
        · rw [hview₁, hnodes] at hview
          simpa [hgo, hbody] using hview
        · intro q hq
          obtain ⟨qs', hqs', hq⟩ := List.mem_flatten.mp hq
          obtain ⟨qs, hqs, rfl⟩ := List.mem_map.mp hqs'
          exact List.mem_flatten.mpr ⟨qs, hqs, List.mem_of_mem_erase hq⟩

/-- **A loop over the whole table** gets each node once, whichever it deletes. -/
theorem scan_view (hl : h.Laid chains) (hs : (h.view chains).Sound function)
    (hbound : h.nodecount ≤ bound) (s : σ) :
    ∃ h' chains' s',
      scanLoop bound function freed go body bound h h.scanBegin s = some (h', s') ∧
      (h'.view chains', s') = (h.view chains).scanNodes go body (h.view chains).nodes s ∧
      Scanned chains function h' chains' := by
  rw [nodes_view]
  refine scanLoop_view freed go body hl hs hbound (remaining_scanBegin hl) hl.nodup
    (List.Subset.refl _) ?_ s
  rwa [length_chains hs]

end Loops

end LinkedHash

end Rhizofs.Kazlib
