import Rhizofs.Ownership.Response

/-!
# Well-formed responses

`Response_pack` needs every sub-object of the response, and `Response_destroy` has to free what was
ever attached, once. A run of a handler leaves the response in one of three ways (`Outcome`): all is
well, a block that nobody frees is lost, or the response still refers to a freed block. The calls
of the run decide which one it is (`handle_wellFormed_iff`).
-/

namespace Rhizofs.Ownership

open Extern

/-- From `Response_pack` on the heap `h` to the heap `h'` after `Response_destroy`: what is packed
is live, and everything that was attached has been freed exactly once. -/
structure WellFormed (b : ResponseBlocks) (h h' : Heap) : Prop where
  live : ∀ p ∈ b.packed, h.Live p
  released : ∀ p ∈ b.attached, h'.freed.count p = 1

/-- A symbolic link was read. -/
def LinkRead : Event SysRet → Prop
  | ⟨.readlink _ _, .ok _⟩ => True
  | _ => False

/-- The status of a file system was read. -/
def StatRead : Event SysRet → Prop
  | ⟨.statvfs _, .ok _⟩ => True
  | _ => False

/-- The array of a listing was allocated. -/
def ArrayMade : Event SysRet → Prop
  | ⟨.alloc (.entries _), ok⟩ => ok = true
  | _ => False

/-- The groups of the user were read, which completes an `Attrs`. -/
def GroupsRead : Event SysRet → Prop
  | ⟨.getgroups _, .ok _⟩ => True
  | _ => False

/-- A lookup of the groups failed. -/
def LookupFailed : Event SysRet → Prop
  | ⟨.ngroups, .error _⟩ => True
  | ⟨.getgroups _, .error _⟩ => True
  | _ => False

/-- A helper function failed. -/
def HelperFailed (tr : Trace) : Prop := lastAlloc tr = some false ∨ ∃ ev ∈ tr, LookupFailed ev

/-- The run attached a link target or the status of a file system; or it made the array of a
listing, and it either failed after an entry was completed or ended without one. -/
def Spills (tr : Trace) : Prop :=
  (∃ ev ∈ tr, LinkRead ev ∨ StatRead ev) ∧ lastAlloc tr ≠ some false ∨
    (∃ ev ∈ tr, ArrayMade ev) ∧ (HelperFailed tr ↔ ∃ ev ∈ tr, GroupsRead ev)

/-- The other calls than those of `Spills` that attach something. -/
def IsPlain : SysCall → Prop
  | .readlink _ _ | .statvfs _ | .alloc (.entries _) => False
  | _ => True

/-- How a handler leaves the response. -/
inductive Outcome (rest : Multiset ℕ) (b : ResponseBlocks) (h : Heap) (spills : Prop) : Prop
  | settled (linkTarget : b.linkTarget = none) (statfs : b.statfs = none)
      (accounts : h.Accounts (b.destroyed + rest))
      (array : ∀ p, b.array = some p → b.entries ≠ [] ∨ p ∈ h.freed) (not : ¬ spills)
  | lost (p : ℕ) (attached : p ∈ b.attached) (accounts : h.Accounts (b.destroyed + ({p} + rest)))
      (spills : spills)
  | stale (p : ℕ) (packed : p ∈ b.packed) (freed : p ∈ h.freed) (spills : spills)

section WellFormed

variable {b : ResponseBlocks} {h : Heap} {rest : Multiset ℕ} {spills : Prop}

theorem responseDestroy_eq (b : ResponseBlocks) (h : Heap) :
    responseDestroy b h = .ret ((), h.free b.destroyed) := by
  have hsum : b.destroyed = b.attrs.elim 0 AttrsBlocks.all +
      ((b.entries.map AttrsBlocks.all).sum + b.usedArray) +
      b.datablock.elim 0 DataBlockBlocks.all + {b.version} + {b.response} := by
    rw [ResponseBlocks.destroyed, ResponseBlocks.payload, ResponseBlocks.own]
    ac_rfl
  rw [hsum, ← Heap.free_free, ← Heap.free_free, ← Heap.free_free, ← Heap.free_free]
  rfl

theorem traces_responseDestroy (b : ResponseBlocks) (h : Heap) :
    (responseDestroy b h).Traces [] ((), h.free b.destroyed) := by
  rw [responseDestroy_eq]
  exact ⟨rfl, rfl⟩

theorem ResponseBlocks.mem_attached {p : ℕ} (hlink : b.linkTarget = none)
    (hstat : b.statfs = none) (hp : p ∈ b.attached) : p ∈ b.destroyed ∨ b.array = some p := by
  simp only [attached, hlink, hstat, Own.block_none, add_zero, Multiset.mem_add] at hp
  simp only [destroyed, Multiset.mem_add]
  rcases hp with (hp | hp) | hp
  · exact .inl (.inl (.inl hp))
  · cases harray : b.array with
    | none => simp [harray] at hp
    | some q =>
      rw [harray, Own.block_some, Multiset.mem_singleton] at hp
      exact .inr (congrArg some hp.symm)
  · exact .inl (.inr hp)

theorem Outcome.wellFormed_free_iff (hout : Outcome rest b h spills) :
    WellFormed b h (h.free b.destroyed) ↔ ¬ spills := by
  cases hout with
  | settled hlink hstat hacc harray hnot =>
    apply iff_of_true _ hnot
    have hpacked : b.packed = b.destroyed := by
      simp [ResponseBlocks.packed, ResponseBlocks.destroyed, hlink, hstat]
    have hacc' := Heap.accounts_free hacc
    constructor
    · intro p hp
      rw [hpacked] at hp
      exact hacc.live (Multiset.mem_add.mpr (.inl hp))
    · intro p hp
      have hfreed : p ∈ (h.free b.destroyed).freed := by
        apply Multiset.mem_add.mpr
        rcases ResponseBlocks.mem_attached hlink hstat hp with hdestroyed | hp
        · exact .inr hdestroyed
        rcases harray p hp with hne | hgone
        · have hused : p ∈ b.usedArray := by simp [ResponseBlocks.usedArray, hne, hp]
          exact .inr (by simp [ResponseBlocks.destroyed, hused])
        · exact .inl hgone
      have hnodup := (Multiset.nodup_add.mp (Multiset.nodup_add.mp hacc'.nodup).1).1
      exact Multiset.count_eq_one_of_mem hnodup hfreed
  | lost p hattached hacc hspills =>
    apply iff_of_false _ (not_not.mpr hspills)
    intro hwf
    have hlive := (Heap.accounts_free hacc).live
      (Multiset.mem_add.mpr (.inl (Multiset.mem_singleton_self p)))
    have hcount := hwf.released p hattached
    rw [Multiset.count_eq_zero_of_notMem hlive.2.1] at hcount
    cases hcount
  | stale p hpacked hfreed hspills =>
    apply iff_of_false _ (not_not.mpr hspills)
    intro hwf
    exact (hwf.live p hpacked).2.1 hfreed

end WellFormed

/-! ## The runs of the handlers -/

section Runs

variable {lz4 : Lz4} {sd : ServeDir} {request : Request} {r r' : OwnedResponse}
  {h h' : Heap} {rest owned : Multiset ℕ} {tr tr₁ tr₂ : Trace} {rc : ℤ}

theorem exists_mem_append {P : Event SysRet → Prop} :
    (∃ ev ∈ tr₁ ++ tr₂, P ev) ↔ (∃ ev ∈ tr₁, P ev) ∨ ∃ ev ∈ tr₂, P ev := by
  simp only [List.mem_append, or_and_right, exists_or]

theorem isPlain_of_isHelper {c : SysCall} (hhelper : c.IsHelper) : IsPlain c := by
  cases c with
  | alloc chunk => cases chunk <;> simp_all [SysCall.IsHelper, IsPlain]
  | _ => simp_all [SysCall.IsHelper, IsPlain]

theorem not_read_of_isPlain (hplain : ∀ ev ∈ tr, IsPlain ev.1) :
    ¬ ∃ ev ∈ tr, LinkRead ev ∨ StatRead ev := by
  rintro ⟨⟨c, a⟩, hmem, hread⟩
  have := hplain _ hmem
  cases c <;> simp_all [LinkRead, StatRead, IsPlain]

theorem not_arrayMade_of_isPlain (hplain : ∀ ev ∈ tr, IsPlain ev.1) :
    ¬ ∃ ev ∈ tr, ArrayMade ev := by
  rintro ⟨⟨c, a⟩, hmem, hmade⟩
  have := hplain _ hmem
  cases c with
  | alloc chunk => cases chunk <;> simp_all [ArrayMade, IsPlain]
  | _ => simp_all [ArrayMade]

theorem not_spills_of_isPlain (hplain : ∀ ev ∈ tr, IsPlain ev.1) : ¬ Spills tr := by
  rintro (⟨hread, -⟩ | ⟨hmade, -⟩)
  · exact not_read_of_isPlain hplain hread
  · exact not_arrayMade_of_isPlain hplain hmade

/-- A helper run fails when it says so. -/
theorem helperFailed_of_helperRun {failed : Prop} (hrun : HelperRun tr failed) :
    HelperFailed tr ↔ failed := by
  apply Iff.trans _ (hrun.explains .stat).symm
  apply or_congr_right
  apply exists_congr
  rintro ⟨c, a⟩
  apply and_congr_right
  intro hmem
  have hhelper := hrun.isHelper _ hmem
  cases c with
  | ngroups => cases a <;> simp [LookupFailed, Drops]
  | getgroups size => cases a <;> simp [LookupFailed, Drops]
  | alloc chunk => simp [LookupFailed, Drops]
  | getuid => simp [LookupFailed, Drops]
  | _ => exact absurd hhelper (by simp [SysCall.IsHelper])

theorem helperFailed_append (hnot : ¬ HelperFailed tr₁) :
    HelperFailed (tr₁ ++ tr₂) ↔ HelperFailed tr₂ := by
  unfold HelperFailed at *
  obtain ⟨hlast₁, hlookup₁⟩ := not_or.mp hnot
  have hlast : lastAlloc (tr₁ ++ tr₂) = some false ↔ lastAlloc tr₂ = some false := by
    rw [lastAlloc_append]
    cases lastAlloc tr₂ <;> simp [hlast₁]
  rw [hlast, exists_mem_append, or_iff_right hlookup₁]

theorem not_groupsRead_of_mem {α : Type} {p : Prog MemRet α} {a : α}
    (hrun : (mem p).Traces tr a) : ¬ ∃ ev ∈ tr, GroupsRead ev := by
  induction p generalizing tr with
  | ret b =>
    obtain ⟨rfl, -⟩ := hrun
    simp
  | call c k ih =>
    obtain ⟨ok, tr, rfl, hrest⟩ := hrun
    simpa [GroupsRead] using ih ok hrest

theorem groupsRead_append_of_mem {α : Type} {p : Prog MemRet α} {a : α}
    (hrun : (mem p).Traces tr₁ a) :
    (∃ ev ∈ tr₁ ++ tr₂, GroupsRead ev) ↔ ∃ ev ∈ tr₂, GroupsRead ev := by
  rw [exists_mem_append, or_iff_right (not_groupsRead_of_mem hrun)]

theorem groupsRead_posixCurrentUserInGroup {gid : ℕ} {isInGroup : Option Bool}
    (hrun : (posixCurrentUserInGroup gid).Traces tr isInGroup) :
    (∃ ev ∈ tr, GroupsRead ev) ↔ isInGroup.isSome := by
  obtain ⟨nGroups, tr, rfl, hrest⟩ := hrun
  cases nGroups with
  | error e =>
    obtain ⟨rfl, rfl⟩ := hrest
    simp [GroupsRead]
  | ok nGroups =>
    obtain ⟨ok, tr, rfl, hrest⟩ := hrest
    cases ok with
    | false =>
      obtain ⟨rfl, rfl⟩ := hrest
      simp [GroupsRead]
    | true =>
      obtain ⟨groups, tr, rfl, hrest⟩ := hrest
      cases groups with
      | error e =>
        obtain ⟨rfl, rfl⟩ := hrest
        simp [GroupsRead]
      | ok groups =>
        obtain ⟨rfl, rfl⟩ := hrest
        simp [GroupsRead]

/-- `Attrs_create` reads the groups if and only if it has a result. -/
theorem groupsRead_attrs_create {sb : Stat} {name : Option CString} {attrs : Option Attrs}
    (hrun : (Attrs.create sb name).Traces tr attrs) :
    (∃ ev ∈ tr, GroupsRead ev) ↔ attrs.isSome := by
  obtain ⟨ok, tr, rfl, hrest⟩ := hrun
  rw [List.exists_mem_cons_iff, or_iff_right (by simp [GroupsRead])]
  cases ok with
  | false =>
    obtain ⟨rfl, rfl⟩ := hrest
    simp
  | true =>
    obtain ⟨ok, tr₁, tr₂, rfl, hname, hrest₁⟩ := (Prog.traces_bind (mem _) _ _ _).mp hrest
    rw [groupsRead_append_of_mem hname]
    cases ok with
    | false =>
      obtain ⟨rfl, rfl⟩ := hrest₁
      simp
    | true =>
      obtain ⟨_ | permissions, tr₃, tr₄, rfl, hpermissions, hrest₂⟩ :=
        (Prog.traces_bind (mem _) _ _ _).mp hrest₁
      · obtain ⟨rfl, rfl⟩ := hrest₂
        rw [groupsRead_append_of_mem hpermissions]
        simp
      rw [groupsRead_append_of_mem hpermissions]
      obtain ⟨_ | timestamps, tr₅, tr₆, rfl, htimestamps, hrest₃⟩ :=
        (Prog.traces_bind (mem _) _ _ _).mp hrest₂
      · obtain ⟨rfl, rfl⟩ := hrest₃
        rw [groupsRead_append_of_mem htimestamps]
        simp
      rw [groupsRead_append_of_mem htimestamps]
      obtain ⟨uid, tr₇, rfl, hrest₄⟩ := hrest₃
      rw [List.exists_mem_cons_iff, or_iff_right (by simp [GroupsRead])]
      obtain ⟨_ | isInGroup, tr₈, tr₉, rfl, hgroup, hrest₅⟩ :=
        (Prog.traces_bind (posixCurrentUserInGroup _) _ _ _).mp hrest₄
      all_goals
        obtain ⟨rfl, rfl⟩ := hrest₅
        rw [List.append_nil, groupsRead_posixCurrentUserInGroup hgroup]
        rfl

/-- What the second loop of READDIR adds to the response: the entries `new`. -/
structure Filled (rest : Multiset ℕ) (r r' : OwnedResponse) (new : List AttrsBlocks) (h' : Heap)
    (tr : Trace) (done : Bool) : Prop where
  blocks : r'.blocks = { r.blocks with entries := r.blocks.entries ++ new }
  accounts : h'.Accounts ((new.map AttrsBlocks.all).sum + rest)
  completed : (∃ ev ∈ tr, GroupsRead ev) ↔ new ≠ []
  failed : HelperFailed tr ↔ done = false

/-- The loop stops at an entry. -/
theorem filled_stop (hacc : h.Accounts rest) (hgroups : ¬ ∃ ev ∈ tr, GroupsRead ev)
    (hfailed : HelperFailed tr) : Filled rest r r [] h tr false :=
  ⟨by simp, by simpa using hacc, by simpa using hgroups, by simpa using hfailed⟩

/-- A part of the run that did not fail and added the entries `added`. -/
theorem Filled.append {new : List AttrsBlocks} (added : List AttrsBlocks) {r₁ : OwnedResponse}
    {done : Bool}
    (hblocks : r₁.blocks = { r.blocks with entries := r.blocks.entries ++ added })
    (hgroups : (∃ ev ∈ tr₁, GroupsRead ev) ↔ added ≠ []) (hfailed : ¬ HelperFailed tr₁)
    (hfilled : Filled ((added.map AttrsBlocks.all).sum + rest) r₁ r' new h' tr₂ done) :
    Filled rest r r' (added ++ new) h' (tr₁ ++ tr₂) done where
  blocks := by
    rw [hfilled.blocks, hblocks, List.append_assoc]
  accounts := by
    convert hfilled.accounts using 1
    rw [List.map_append, List.sum_append]
    ac_rfl
  completed := by
    rw [exists_mem_append, hgroups, hfilled.completed]
    simp only [ne_eq, List.append_eq_nil_iff]
    tauto
  failed := by
    rw [helperFailed_append hfailed]
    exact hfilled.failed

theorem filled_fillEntries (dirpath : CString) (names : List CString) {done : Bool}
    (hacc : h.Accounts rest)
    (hrun : ((fillEntries dirpath names r) h).Traces tr ((done, r'), h')) :
    ∃ new, Filled rest r r' new h' tr done := by
  induction names generalizing r h tr rest with
  | nil =>
    obtain ⟨rfl, hout, rfl⟩ := Own.traces_pure.mp hrun
    obtain ⟨rfl, rfl⟩ := Prod.mk.inj hout
    exact ⟨[], by simp, by simpa using hacc, by simp, by simp [HelperFailed, lastAlloc]⟩
  | cons name names ih =>
    obtain ⟨path, tr₁, tr₂, rfl, hjoin, hrest⟩ := Own.traces_lift_bind.mp hrun
    have hhelper := helperFailed_of_helperRun (isHelperProg_pathJoin _ _ _ _ hjoin)
    have hgroups := not_groupsRead_of_mem hjoin
    cases path with
    | none =>
      obtain ⟨rfl, hout, rfl⟩ := Own.traces_pure.mp hrest
      obtain ⟨rfl, rfl⟩ := Prod.mk.inj hout
      rw [List.append_nil]
      exact ⟨[], filled_stop hacc hgroups (hhelper.mpr rfl)⟩
    | some path =>
      obtain ⟨status, tr₃, tr₄, rfl, ⟨_, _, rfl, rfl, rfl⟩, hrest₁⟩ :=
        Own.traces_lift_bind.mp hrest
      have hnot : ¬ HelperFailed (tr₁ ++ [⟨.lstat path, status⟩]) := by
        rw [helperFailed_append (by simp [hhelper])]
        simp [HelperFailed, lastAlloc, LookupFailed]
      have hgroups₁ : ¬ ∃ ev ∈ tr₁ ++ [⟨.lstat path, status⟩], GroupsRead ev := by
        rw [exists_mem_append, or_iff_right hgroups]
        simp [GroupsRead]
      rw [← List.append_assoc]
      cases status with
      | error e =>
        -- the entry is left out
        obtain ⟨new, hfilled⟩ := ih hacc hrest₁
        have hfilled₁ : Filled (([].map AttrsBlocks.all).sum + rest)
            { r with response := r.response.setErrno e.errno } r' new h' tr₄ done := by
          simpa using hfilled
        exact ⟨new, .append [] (by simp) (by simpa using hgroups₁) hnot hfilled₁⟩
      | ok sb =>
        obtain ⟨attrs, h₃, tr₅, tr₆, rfl, hcreate, hrest₂⟩ := Own.traces_bind.mp hrest₁
        have hcreate₁ := (attrsCreate_erase sb (some name)).traces hcreate
        have hacc₁ := triple_attrsCreate sb (some name) (by simpa using hacc) hcreate
        have hhelper₁ := helperFailed_of_helperRun (isHelperProg_attrs_create _ _ _ _ hcreate₁)
        have hgroups₂ := groupsRead_attrs_create hcreate₁
        rw [← List.append_assoc]
        cases attrs with
        | none =>
          obtain ⟨rfl, hout, rfl⟩ := Own.traces_pure.mp hrest₂
          obtain ⟨rfl, rfl⟩ := Prod.mk.inj hout
          rw [List.append_nil]
          refine ⟨[], filled_stop (by simpa using hacc₁) ?_ ?_⟩
          · rw [exists_mem_append, or_iff_right hgroups₁, hgroups₂]
            simp
          · rw [helperFailed_append hnot, hhelper₁]
            rfl
        | some attrs =>
          obtain ⟨new, hfilled⟩ := ih hacc₁ hrest₂
          refine ⟨attrs.2 :: new, .append [attrs.2] rfl ?_ ?_ (by simpa using hfilled)⟩
          · rw [exists_mem_append, or_iff_right hgroups₁, hgroups₂]
            simp
          · rw [helperFailed_append hnot, hhelper₁]
            simp

/-! ### The calls of the other handlers -/

/-- All runs of `p` make plain calls only. -/
def Plain {α : Type} (p : Prog SysRet α) : Prop :=
  ∀ ⦃tr : Trace⦄ ⦃a : α⦄, p.Traces tr a → ∀ ev ∈ tr, IsPlain ev.1

section Plain

variable {α β : Type} {response : Response}

theorem plain_ret (a : α) : Plain (.ret a) := by
  rintro tr b ⟨rfl, -⟩
  simp

theorem plain_bind {p : Prog SysRet α} {f : α → Prog SysRet β} (hp : Plain p)
    (hf : ∀ a, Plain (f a)) : Plain (p >>= f) := by
  intro tr b hrun ev hmem
  obtain ⟨a, tr₁, tr₂, rfl, hfirst, hrest⟩ := (Prog.traces_bind p f tr b).mp hrun
  rcases List.mem_append.mp hmem with hmem | hmem
  · exact hp hfirst ev hmem
  · exact hf a hrest ev hmem

theorem plain_sys {c : SysCall} {f : SysRet c → Prog SysRet β} (hc : IsPlain c)
    (hf : ∀ a, Plain (f a)) : Plain (sys c >>= f) := by
  apply plain_bind _ hf
  rintro tr a ⟨_, _, rfl, rfl, rfl⟩
  simpa using hc

theorem plain_of_isHelperProg {failed : α → Prop} {p : Prog SysRet α}
    (hp : IsHelperProg failed p) : Plain p :=
  fun _ _ hrun ev hmem => isPlain_of_isHelper ((hp _ _ hrun).isHelper ev hmem)

theorem plain_fullpath : Plain (sd.fullpath request) := by
  unfold ServeDir.fullpath
  cases request.path with
  | none => exact plain_ret none
  | some path => exact plain_of_isHelperProg (isHelperProg_pathJoin _ _)

theorem plain_onPath (op : CString → PathOp) : Plain (sd.onPath request response op) := by
  apply plain_bind plain_fullpath
  rintro (_ | path)
  · exact plain_ret _
  refine plain_sys trivial ?_
  rintro (e | ⟨⟩)
  · exact plain_ret _
  · exact plain_ret _

theorem plain_onTwoPaths (op : CString → CString → PathOp) :
    Plain (sd.onTwoPaths request response op) := by
  unfold ServeDir.onTwoPaths
  cases request.pathTo with
  | none => exact plain_ret _
  | some pathTo =>
    apply plain_bind (plain_of_isHelperProg (isHelperProg_pathJoin _ _))
    rintro (_ | pathTo)
    · exact plain_ret _
    · exact plain_onPath _

theorem plain_fillEntries (dirpath : CString) (names : List CString) :
    Plain (ServeDir.fillEntries dirpath names response) := by
  induction names generalizing response with
  | nil => exact plain_ret _
  | cons name names ih =>
    apply plain_bind (plain_of_isHelperProg (isHelperProg_pathJoin _ _))
    rintro (_ | path)
    · exact plain_ret _
    refine plain_sys trivial ?_
    rintro (e | sb)
    · exact ih
    apply plain_bind (plain_of_isHelperProg (isHelperProg_attrs_create _ _))
    rintro (_ | attrs)
    · exact plain_ret _
    · exact ih

theorem plain_opGetattr : Plain (ServeDir.opGetattr sd request response) := by
  apply plain_bind plain_fullpath
  rintro (_ | path)
  · exact plain_ret _
  refine plain_sys trivial ?_
  rintro (e | sb)
  · exact plain_ret _
  apply plain_bind (plain_of_isHelperProg (isHelperProg_attrs_create _ _))
  rintro (_ | attrs)
  · exact plain_ret _
  · exact plain_ret _

/-- Closing the file is the last call. -/
theorem plain_close (fd : ℕ) (a : α) : Plain (sys (.close fd) >>= fun _ => .ret a) :=
  plain_sys trivial fun _ => plain_ret a

theorem plain_opRead (hdatablock : response.datablock = none) :
    Plain (ServeDir.opRead lz4 sd request response) := by
  unfold ServeDir.opRead
  cases request.size with
  | none => exact plain_ret _
  | some size =>
    cases request.offset with
    | none => exact plain_ret _
    | some offset =>
      apply plain_bind plain_fullpath
      rintro (_ | path)
      · exact plain_ret _
      refine plain_sys trivial ?_
      rintro (e | fd)
      · exact plain_ret _
      refine plain_sys trivial ?_
      rintro (_ | _)
      · exact plain_close fd _
      have hread : Plain (ServeDir.readAt fd size offset) := by
        unfold ServeDir.readAt
        split_ifs
        · exact plain_sys trivial plain_ret
        · exact plain_sys trivial plain_ret
      apply plain_bind hread
      rintro (e | databuf)
      · exact plain_close fd _
      have hset :
          Plain (mem (Response.setData lz4 { response with requesttype := .read } databuf)) :=
        plain_of_isHelperProg (isHelperProg_response_setData lz4 databuf hdatablock)
      apply plain_bind hset
      rintro ⟨ok, response⟩
      exact plain_close fd _

theorem plain_opOpen : Plain (ServeDir.opOpen sd request response) := by
  unfold ServeDir.opOpen
  cases request.openflags with
  | none => exact plain_ret _
  | some openflags =>
    apply plain_bind plain_fullpath
    rintro (_ | path)
    · exact plain_ret _
    refine plain_sys trivial ?_
    rintro (e | fd)
    · exact plain_ret _
    · exact plain_close fd _

theorem plain_opCreate : Plain (ServeDir.opCreate sd request response) := by
  unfold ServeDir.opCreate
  cases request.permissions with
  | none => exact plain_ret _
  | some permissions =>
    apply plain_bind plain_fullpath
    rintro (_ | path)
    · exact plain_ret _
    refine plain_sys trivial ?_
    rintro (e | fd)
    · exact plain_ret _
    · exact plain_close fd _

theorem plain_opWrite : Plain (ServeDir.opWrite lz4 sd request response) := by
  unfold ServeDir.opWrite
  cases request.size with
  | none => exact plain_ret _
  | some size =>
    cases request.offset with
    | none => exact plain_ret _
    | some offset =>
      dsimp only
      split_ifs
      · exact plain_ret _
      cases request.datablock with
      | none => exact plain_ret _
      | some datablock =>
        apply plain_bind plain_fullpath
        rintro (_ | path)
        · exact plain_ret _
        refine plain_sys trivial ?_
        rintro (e | fd)
        · exact plain_ret _
        have hdata : Plain (mem (ServeDir.writeData lz4 datablock size)) := fun _ _ hrun ev hmem =>
          isPlain_of_isHelper ((traces_writeData hrun).1 ev hmem).1
        apply plain_bind hdata
        rintro (_ | data)
        · exact plain_close fd _
        refine plain_sys trivial ?_
        intro bytesWritten
        refine plain_sys trivial ?_
        rintro (e | ⟨⟩)
        · exact plain_close fd _
        refine plain_sys trivial ?_
        intro now
        exact plain_sys trivial fun _ => plain_ret _

/-- The handlers that attach nothing to the response. -/
theorem plain_dispatch (hreaddir : request.requesttype ≠ .readdir)
    (hreadlink : request.requesttype ≠ .readlink) (hstatfs : request.requesttype ≠ .statfs)
    (hdatablock : response.datablock = none) :
    Plain (ServeDir.dispatch lz4 sd request response) := by
  unfold ServeDir.dispatch
  cases htype : request.requesttype with
  | readdir => exact absurd htype hreaddir
  | readlink => exact absurd htype hreadlink
  | statfs => exact absurd htype hstatfs
  | rmdir | unlink => exact plain_onPath _
  | rename | link => exact plain_onTwoPaths _
  | access | mkdir | chmod =>
    dsimp only [ServeDir.opAccess, ServeDir.opMkdir, ServeDir.opChmod]
    cases request.permissions with
    | none => exact plain_ret _
    | some permissions => exact plain_onPath _
  | truncate =>
    unfold ServeDir.opTruncate
    cases request.offset with
    | none => exact plain_ret _
    | some offset => exact plain_onPath _
  | utimens =>
    unfold ServeDir.opUtimens
    cases request.timestamps with
    | none => exact plain_ret _
    | some timestamps => exact plain_onPath _
  | symlink =>
    unfold ServeDir.opSymlink
    cases request.pathTo with
    | none => exact plain_ret _
    | some pathTo => exact plain_onPath _
  | mknod =>
    unfold ServeDir.opMknod
    cases request.permissions with
    | none => exact plain_ret _
    | some permissions =>
      cases request.filetype with
      | none => exact plain_ret _
      | some filetype =>
        dsimp only
        split_ifs
        · exact plain_onPath _
        · exact plain_ret _
  | getattr => exact plain_opGetattr
  | «open» => exact plain_opOpen
  | read => exact plain_opRead hdatablock
  | write => exact plain_opWrite
  | create => exact plain_opCreate
  | ping | stat | unknown | invalid | other n => exact plain_ret _

end Plain

/-! ### The outcomes -/

section Outcomes

variable {p q : ℕ} {b : ResponseBlocks}

theorem ResponseBlocks.destroyed_fresh (p q : ℕ) :
    (fresh p q).destroyed = (fresh p q).own := by
  simp [destroyed, payload, usedArray, fresh]

/-- Nothing has been attached. -/
theorem outcome_fresh {spills : Prop} (hacc : h.Accounts ((ResponseBlocks.fresh p q).own + rest))
    (hnot : ¬ spills) : Outcome rest (.fresh p q) h spills := by
  rw [← ResponseBlocks.destroyed_fresh] at hacc
  exact .settled rfl rfl hacc (by simp [ResponseBlocks.fresh]) hnot

/-- A handler that returns without having attached anything. -/
theorem outcome_return {response : Response} {rc₁ : ℤ} (hfresh : b = .fresh p q)
    (hacc : h.Accounts (b.own + rest)) (hnot : ¬ Spills tr)
    (hrun : ((pure (rc₁, ⟨response, b⟩) : Own SysRet _) h).Traces tr₁ ((rc, r'), h')) :
    Outcome rest r'.blocks h' (Spills tr) := by
  obtain ⟨-, hout, rfl⟩ := Own.traces_pure.mp hrun
  obtain ⟨rfl, rfl⟩ := Prod.mk.inj hout
  subst hfresh
  exact outcome_fresh hacc hnot

theorem outcome_opGetattr (hfresh : r.blocks = .fresh p q)
    (hacc : h.Accounts (r.blocks.own + rest))
    (hrun : (opGetattr sd request r h).Traces tr ((rc, r'), h')) :
    Outcome rest r'.blocks h' (Spills tr) := by
  have hnot := not_spills_of_isPlain (plain_opGetattr ((opGetattr_erase sd request r).traces hrun))
  obtain ⟨_ | path, tr₁, tr₂, rfl, -, hrest⟩ := Own.traces_lift_bind.mp hrun
  · exact outcome_return hfresh hacc hnot hrest
  obtain ⟨e | sb, tr₃, tr₄, rfl, -, hrest₁⟩ := Own.traces_lift_bind.mp hrest
  · exact outcome_return hfresh hacc hnot hrest₁
  obtain ⟨_ | ⟨attrs, a⟩, h₁, tr₅, tr₆, rfl, hcreate, hrest₂⟩ := Own.traces_bind.mp hrest₁
  all_goals have hacc₁ := triple_attrsCreate sb none (by simpa using hacc) hcreate
  · exact outcome_return hfresh (by simpa using hacc₁) hnot hrest₂
  · obtain ⟨rfl, hout, rfl⟩ := Own.traces_pure.mp hrest₂
    obtain ⟨rfl, rfl⟩ := Prod.mk.inj hout
    rw [hfresh] at hacc₁ ⊢
    apply Outcome.settled rfl rfl _ (by simp [ResponseBlocks.fresh]) hnot
    simpa [ResponseBlocks.destroyed, ResponseBlocks.payload, ResponseBlocks.usedArray,
      ResponseBlocks.fresh, ResponseBlocks.own, add_assoc] using hacc₁

theorem outcome_opReadlink (hfresh : r.blocks = .fresh p q)
    (hacc : h.Accounts (r.blocks.own + rest))
    (hrun : (opReadlink sd request r h).Traces tr ((rc, r'), h')) :
    Outcome rest r'.blocks h' (Spills tr) := by
  obtain ⟨path, tr₁, tr₂, rfl, hpath, hrest⟩ := Own.traces_lift_bind.mp hrun
  rcases ServeDir.traces_fullpath hpath with ⟨rfl, hhelper⟩ | ⟨hsome, n, rfl⟩
  · obtain ⟨rfl, -⟩ := Own.traces_pure.mp hrest
    refine outcome_return hfresh hacc (not_spills_of_isPlain ?_) hrest
    simpa using fun ev hmem => isPlain_of_isHelper (hhelper ev hmem)
  obtain ⟨path, rfl⟩ := Option.isSome_iff_exists.mp hsome
  obtain ⟨e | linkTarget, tr₃, tr₄, rfl, ⟨_, _, rfl, rfl, rfl⟩, hrest₁⟩ :=
    Own.traces_lift_bind.mp hrest
  · obtain ⟨rfl, -⟩ := Own.traces_pure.mp hrest₁
    exact outcome_return hfresh hacc (by simp [Spills, LinkRead, StatRead, ArrayMade]) hrest₁
  obtain ⟨tr₅, tr₆, rfl, ⟨⟨_, _, rfl, rfl, rfl⟩, hrest₂⟩ | ⟨⟨_, _, rfl, rfl, rfl⟩, hrest₂⟩⟩ :=
    Own.traces_allocate_bind.mp hrest₁
  · obtain ⟨rfl, hout, rfl⟩ := Own.traces_pure.mp hrest₂
    obtain ⟨rfl, rfl⟩ := Prod.mk.inj hout
    rw [hfresh] at hacc ⊢
    apply Outcome.lost h.next
    · simp [ResponseBlocks.attached]
    · convert Heap.accounts_alloc hacc using 1
      rw [← Multiset.singleton_add, add_left_comm, ← ResponseBlocks.destroyed_fresh]
      rfl
    · exact .inl ⟨by simp [LinkRead], by simp [lastAlloc]⟩
  · obtain ⟨rfl, -⟩ := Own.traces_pure.mp hrest₂
    apply outcome_return hfresh hacc _ hrest₂
    simp [Spills, lastAlloc, ArrayMade]

theorem outcome_opStatfs (hfresh : r.blocks = .fresh p q)
    (hacc : h.Accounts (r.blocks.own + rest))
    (hrun : (opStatfs sd request r h).Traces tr ((rc, r'), h')) :
    Outcome rest r'.blocks h' (Spills tr) := by
  obtain ⟨path, tr₁, tr₂, rfl, hpath, hrest⟩ := Own.traces_lift_bind.mp hrun
  rcases ServeDir.traces_fullpath hpath with ⟨rfl, hhelper⟩ | ⟨hsome, n, rfl⟩
  · obtain ⟨rfl, -⟩ := Own.traces_pure.mp hrest
    refine outcome_return hfresh hacc (not_spills_of_isPlain ?_) hrest
    simpa using fun ev hmem => isPlain_of_isHelper (hhelper ev hmem)
  obtain ⟨path, rfl⟩ := Option.isSome_iff_exists.mp hsome
  obtain ⟨e | stfs, tr₃, tr₄, rfl, ⟨_, _, rfl, rfl, rfl⟩, hrest₁⟩ :=
    Own.traces_lift_bind.mp hrest
  · obtain ⟨rfl, -⟩ := Own.traces_pure.mp hrest₁
    exact outcome_return hfresh hacc (by simp [Spills, LinkRead, StatRead, ArrayMade]) hrest₁
  obtain ⟨tr₅, tr₆, rfl, ⟨statfs, ⟨ok, tr₇, rfl, hcreate⟩, hrest₂⟩ |
    ⟨⟨ok, tr₇, rfl, hcreate⟩, hrest₂⟩⟩ := Own.traces_create_bind.mp hrest₁
  all_goals
    cases ok
    all_goals obtain ⟨rfl, hstatfs⟩ := hcreate
  · cases hstatfs
  · obtain ⟨rfl, hout, rfl⟩ := Own.traces_pure.mp hrest₂
    obtain ⟨rfl, rfl⟩ := Prod.mk.inj hout
    rw [hfresh] at hacc ⊢
    apply Outcome.lost h.next
    · simp [ResponseBlocks.attached]
    · convert Heap.accounts_alloc hacc using 1
      rw [← Multiset.singleton_add, add_left_comm, ← ResponseBlocks.destroyed_fresh]
      rfl
    · exact .inl ⟨by simp [StatRead], by simp [lastAlloc]⟩
  · obtain ⟨rfl, -⟩ := Own.traces_pure.mp hrest₂
    apply outcome_return hfresh hacc _ hrest₂
    simp [Spills, lastAlloc, ArrayMade]
  · cases hstatfs

/-- An allocation that succeeds decides nothing. -/
theorem spills_cons_alloc {c : Chunk} (hc : ∀ n, c ≠ .entries n) :
    Spills (⟨.alloc c, true⟩ :: tr) ↔ Spills tr := by
  have hread : LinkRead ⟨.alloc c, true⟩ ∨ StatRead ⟨.alloc c, true⟩ ↔ False := by
    simp [LinkRead, StatRead]
  have hmade : ¬ ArrayMade ⟨.alloc c, true⟩ := by
    cases c <;> simp_all [ArrayMade]
  have hlast : lastAlloc (⟨.alloc c, true⟩ :: tr) = some false ↔ lastAlloc tr = some false := by
    change (lastAlloc tr).or (some true) = some false ↔ _
    cases lastAlloc tr <;> simp
  have hfailed : HelperFailed (⟨.alloc c, true⟩ :: tr) ↔ HelperFailed tr := by
    simp [HelperFailed, hlast, LookupFailed]
  simp only [Spills, List.exists_mem_cons_iff, hread, hmade, hfailed, ne_eq, hlast, GroupsRead,
    false_or]

/-- The calls of a listing around the second loop. -/
def listed (dirpath : CString) (counted names : List CString × Option Failure) (tr : Trace) :
    Trace :=
  ⟨.opendir dirpath, .ok ()⟩ :: ⟨.readdir dirpath, counted⟩ ::
    ⟨.alloc (.entries counted.1.length), true⟩ :: ⟨.rewinddir dirpath, ()⟩ ::
    ⟨.readdir dirpath, names⟩ :: (tr ++ [⟨.closedir dirpath, ()⟩])

theorem exists_mem_listed {dirpath : CString} {counted names : List CString × Option Failure}
    {P : Event SysRet → Prop} : (∃ ev ∈ listed dirpath counted names tr, P ev) ↔
      P ⟨.opendir dirpath, .ok ()⟩ ∨ P ⟨.readdir dirpath, counted⟩ ∨
        P ⟨.alloc (.entries counted.1.length), true⟩ ∨ P ⟨.rewinddir dirpath, ()⟩ ∨
          P ⟨.readdir dirpath, names⟩ ∨ (∃ ev ∈ tr, P ev) ∨ P ⟨.closedir dirpath, ()⟩ := by
  unfold listed
  simp only [List.exists_mem_cons_iff, exists_mem_append, List.not_mem_nil, false_and, exists_false,
    or_false]

theorem lastAlloc_listed {dirpath : CString} {counted names : List CString × Option Failure} :
    lastAlloc (listed dirpath counted names tr) = (lastAlloc tr).or (some true) := by
  change (lastAlloc (tr ++ [⟨.closedir dirpath, ()⟩])).or (some true) = _
  rw [lastAlloc_append]
  rfl

theorem spills_listed {dirpath : CString} {counted names : List CString × Option Failure}
    (hplain : ∀ ev ∈ tr, IsPlain ev.1) :
    Spills (listed dirpath counted names tr) ↔
      (HelperFailed tr ↔ ∃ ev ∈ tr, GroupsRead ev) := by
  have hread : ¬ ∃ ev ∈ listed dirpath counted names tr, LinkRead ev ∨ StatRead ev := by
    rw [exists_mem_listed]
    rintro (h | h | h | h | h | h | h)
    case inr.inr.inr.inr.inr.inl => exact not_read_of_isPlain hplain h
    all_goals exact h.elim id id
  have hfailed : HelperFailed (listed dirpath counted names tr) ↔ HelperFailed tr := by
    unfold HelperFailed
    rw [exists_mem_listed, lastAlloc_listed]
    cases lastAlloc tr <;> simp [LookupFailed]
  have hmade : ∃ ev ∈ listed dirpath counted names tr, ArrayMade ev :=
    exists_mem_listed.mpr (.inr (.inr (.inl rfl)))
  have hgroups : (∃ ev ∈ listed dirpath counted names tr, GroupsRead ev) ↔
      ∃ ev ∈ tr, GroupsRead ev := by
    rw [exists_mem_listed]
    simp [GroupsRead]
  unfold Spills
  rw [hfailed, hgroups]
  exact ⟨fun hspills => hspills.elim (fun hleft => absurd hleft.1 hread) And.right,
    fun hright => .inr ⟨hmade, hright⟩⟩

/-- A response that lists the entries `new` in the array `a`. -/
def ResponseBlocks.listing (p q a : ℕ) (new : List AttrsBlocks) : ResponseBlocks :=
  { fresh p q with array := some a, entries := new }

theorem ResponseBlocks.destroyed_listing (p q a : ℕ) (new : List AttrsBlocks) :
    (listing p q a new).destroyed =
      (new.map AttrsBlocks.all).sum + (if new = [] then 0 else {a}) + (fresh p q).own := by
  by_cases hnew : new = []
  · simp [destroyed, payload, usedArray, listing, fresh, own, hnew]
  · simp [destroyed, payload, usedArray, listing, fresh, own, hnew]

/-- Where the loop stops, the entries and the array are destroyed. -/
theorem outcome_stopped {a : ℕ} {new : List AttrsBlocks}
    (hacc : h.Accounts ((new.map AttrsBlocks.all).sum +
      (a ::ₘ ((ResponseBlocks.fresh p q).own + rest)))) :
    Outcome rest (.listing p q a new) (h.free ((new.map AttrsBlocks.all).sum + {a}))
      (new ≠ []) := by
  cases new with
  | nil =>
    apply Outcome.settled rfl rfl _ _ (by simp)
    · rw [ResponseBlocks.destroyed_listing]
      apply Heap.accounts_free
      simpa using hacc
    · intro a' ha'
      obtain rfl : a = a' := by simpa [ResponseBlocks.listing] using ha'
      exact .inr (by simp [Heap.free])
  | cons b new =>
    -- the first entry is still reachable
    have hmem : b.attrs ∈ ((b :: new).map AttrsBlocks.all).sum := by simp [AttrsBlocks.all]
    apply Outcome.stale b.attrs _ _ (by simp)
    · simp only [ResponseBlocks.packed, ResponseBlocks.payload, Multiset.mem_add]
      exact .inl (.inl (.inl (.inl (.inl (.inr hmem)))))
    · simp only [Heap.free, Multiset.mem_add]
      exact .inr (.inl hmem)

/-- Without an entry the array of a complete listing is lost. -/
theorem outcome_completed {a : ℕ} {new : List AttrsBlocks}
    (hacc : h.Accounts ((new.map AttrsBlocks.all).sum +
      (a ::ₘ ((ResponseBlocks.fresh p q).own + rest)))) :
    Outcome rest (.listing p q a new) h (new = []) := by
  rw [← Multiset.singleton_add] at hacc
  cases new with
  | nil =>
    apply Outcome.lost a
    · simp [ResponseBlocks.attached, ResponseBlocks.listing]
    · rw [ResponseBlocks.destroyed_listing, add_left_comm]
      simpa using hacc
    · rfl
  | cons b new =>
    apply Outcome.settled rfl rfl _ _ (by simp)
    · rw [ResponseBlocks.destroyed_listing, if_neg (by simp), add_assoc, add_assoc]
      exact hacc
    · intro a' ha'
      exact .inl (by simp [ResponseBlocks.listing])

/-- The filling of the array, which must complete an entry and must not fail afterwards. -/
theorem outcome_readdirFill {response : Response} {dirpath : CString} {a : ℕ}
    (hacc : h.Accounts (a ::ₘ ((ResponseBlocks.fresh p q).own + rest)))
    (hrun : (readdirFill ⟨response, .listing p q a []⟩ dirpath h).Traces tr ((rc, r'), h')) :
    ∃ names trf, tr = ⟨.rewinddir dirpath, ()⟩ :: ⟨.readdir dirpath, names⟩ ::
        (trf ++ [⟨.closedir dirpath, ()⟩]) ∧ (∀ ev ∈ trf, IsPlain ev.1) ∧
      Outcome rest r'.blocks h' (HelperFailed trf ↔ ∃ ev ∈ trf, GroupsRead ev) := by
  obtain ⟨_, tr₁, tr₂, rfl, ⟨_, _, rfl, rfl, rfl⟩, hrest⟩ := Own.traces_lift_bind.mp hrun
  obtain ⟨names, tr₃, tr₄, rfl, ⟨_, _, rfl, rfl, rfl⟩, hrest₁⟩ := Own.traces_lift_bind.mp hrest
  obtain ⟨⟨done, r₁⟩, h₁, trf, tr₅, rfl, hfill, hrest₂⟩ := Own.traces_bind.mp hrest₁
  obtain ⟨new, hblocks, hacc₁, hcompleted, hfailed⟩ := filled_fillEntries dirpath names.1 hacc hfill
  have hplain := plain_fillEntries dirpath names.1
    ((fillEntries_erase _ dirpath names.1).traces hfill)
  have hlisting : r₁.blocks = .listing p q a new := hblocks
  cases done with
  | false =>
    change ((Own.lift (sys (.closedir dirpath)) >>= fun _ => pure (-1, r₁))
      (h₁.free ((r₁.blocks.entries.map AttrsBlocks.all).sum + Own.block r₁.blocks.array))).Traces
        tr₅ ((rc, r'), h') at hrest₂
    obtain ⟨_, tr₆, tr₇, rfl, ⟨_, _, rfl, rfl, rfl⟩, hrest₃⟩ := Own.traces_lift_bind.mp hrest₂
    obtain ⟨rfl, hout, rfl⟩ := Own.traces_pure.mp hrest₃
    obtain ⟨rfl, rfl⟩ := Prod.mk.inj hout
    refine ⟨names, trf, rfl, hplain, ?_⟩
    rw [hfailed, hcompleted, hlisting]
    simpa [ResponseBlocks.listing] using outcome_stopped hacc₁
  | true =>
    obtain ⟨_, tr₆, tr₇, rfl, ⟨_, _, rfl, rfl, rfl⟩, hrest₃⟩ := Own.traces_lift_bind.mp hrest₂
    obtain ⟨rfl, hout, rfl⟩ := Own.traces_pure.mp hrest₃
    obtain ⟨rfl, rfl⟩ := Prod.mk.inj hout
    refine ⟨names, trf, rfl, hplain, ?_⟩
    rw [hfailed, hcompleted, hlisting]
    simpa using outcome_completed hacc₁

theorem outcome_opReaddir (hfresh : r = ⟨.initial, .fresh p q⟩)
    (hacc : h.Accounts (r.blocks.own + rest))
    (hrun : (opReaddir sd request r h).Traces tr ((rc, r'), h')) :
    Outcome rest r'.blocks h' (Spills tr) := by
  subst hfresh
  obtain ⟨path, tr₁, tr₂, rfl, hpath, hrest⟩ := Own.traces_lift_bind.mp hrun
  rcases ServeDir.traces_fullpath hpath with ⟨rfl, hhelper⟩ | ⟨hsome, n, rfl⟩
  · obtain ⟨rfl, -⟩ := Own.traces_pure.mp hrest
    refine outcome_return rfl hacc (not_spills_of_isPlain ?_) hrest
    simpa using fun ev hmem => isPlain_of_isHelper (hhelper ev hmem)
  obtain ⟨path, rfl⟩ := Option.isSome_iff_exists.mp hsome
  obtain ⟨e | ⟨⟩, tr₃, tr₄, rfl, ⟨_, _, rfl, rfl, rfl⟩, hrest₁⟩ := Own.traces_lift_bind.mp hrest
  · obtain ⟨rfl, -⟩ := Own.traces_pure.mp hrest₁
    exact outcome_return rfl hacc (by simp [Spills, LinkRead, StatRead, ArrayMade]) hrest₁
  obtain ⟨counted, tr₅, tr₆, rfl, ⟨_, _, rfl, rfl, rfl⟩, hrest₂⟩ := Own.traces_lift_bind.mp hrest₁
  obtain ⟨tr₇, tr₈, rfl, ⟨⟨_, _, rfl, rfl, rfl⟩, hrest₃⟩ | ⟨⟨_, _, rfl, rfl, rfl⟩, hrest₃⟩⟩ :=
    Own.traces_allocate_bind.mp hrest₂
  · obtain ⟨names, trf, rfl, hplain, hout⟩ := outcome_readdirFill (Heap.accounts_alloc hacc) hrest₃
    convert hout using 1
    rw [List.singleton_append, spills_cons_alloc (by simp)]
    exact spills_listed hplain
  · obtain ⟨_, tr₉, tr₁₀, rfl, ⟨_, _, rfl, rfl, rfl⟩, hrest₄⟩ := Own.traces_lift_bind.mp hrest₃
    obtain ⟨rfl, -⟩ := Own.traces_pure.mp hrest₄
    exact outcome_return rfl hacc (by simp [Spills, LinkRead, StatRead, ArrayMade]) hrest₄

theorem outcome_opRead (hfresh : r = ⟨.initial, .fresh p q⟩)
    (hacc : h.Accounts (r.blocks.own + rest))
    (hrun : (opRead lz4 sd request r h).Traces tr ((rc, r'), h')) :
    Outcome rest r'.blocks h' (Spills tr) := by
  subst hfresh
  have hnot := not_spills_of_isPlain
    (plain_opRead rfl ((opRead_erase lz4 sd request _).traces hrun))
  unfold opRead at hrun
  cases hsize : request.size with
  | none =>
    rw [hsize] at hrun
    exact outcome_return rfl hacc hnot hrun
  | some size =>
    cases hoffset : request.offset with
    | none =>
      rw [hsize, hoffset] at hrun
      exact outcome_return rfl hacc hnot hrun
    | some offset =>
      rw [hsize, hoffset] at hrun
      obtain ⟨_ | path, tr₁, tr₂, rfl, -, hrest⟩ := Own.traces_lift_bind.mp hrun
      · exact outcome_return rfl hacc hnot hrest
      obtain ⟨e | fd, tr₃, tr₄, rfl, -, hrest₁⟩ := Own.traces_lift_bind.mp hrest
      · exact outcome_return rfl hacc hnot hrest₁
      obtain ⟨_ | _, tr₅, tr₆, rfl, -, hrest₂⟩ := Own.traces_lift_bind.mp hrest₁
      · obtain ⟨_, tr₇, tr₈, rfl, -, hrest₃⟩ := Own.traces_lift_bind.mp hrest₂
        exact outcome_return rfl hacc hnot hrest₃
      obtain ⟨e | databuf, tr₇, tr₈, rfl, -, hrest₃⟩ := Own.traces_lift_bind.mp hrest₂
      · obtain ⟨_, tr₉, tr₁₀, rfl, -, hrest₄⟩ := Own.traces_lift_bind.mp hrest₃
        exact outcome_return rfl hacc hnot hrest₄
      obtain ⟨⟨ok, r₁⟩, h₁, tr₉, tr₁₀, rfl, hset, hrest₄⟩ := Own.traces_bind.mp hrest₃
      obtain ⟨_, tr₁₁, tr₁₂, rfl, -, hrest₅⟩ := Own.traces_lift_bind.mp hrest₄
      obtain ⟨-, hout, rfl⟩ := Own.traces_pure.mp hrest₅
      obtain ⟨rfl, rfl⟩ := Prod.mk.inj hout
      have hacc₁ := triple_responseSetData lz4 databuf rfl (by simpa using hacc) hset
      obtain ⟨datablock, hblocks⟩ := (blocks_responseSetData lz4 databuf h).of_traces hset
      dsimp only at hblocks hacc₁
      rw [hblocks] at hacc₁ ⊢
      apply Outcome.settled rfl rfl _ (by simp [ResponseBlocks.fresh]) hnot
      simpa [ResponseBlocks.destroyed, ResponseBlocks.payload, ResponseBlocks.usedArray,
        ResponseBlocks.fresh, ResponseBlocks.own, add_assoc] using hacc₁

theorem outcome_dispatch (hfresh : r = ⟨.initial, .fresh p q⟩)
    (hacc : h.Accounts (r.blocks.own + rest))
    (hrun : (dispatch lz4 sd request r h).Traces tr ((rc, r'), h')) :
    Outcome rest r'.blocks h' (Spills tr) := by
  have hblocks : r.blocks = .fresh p q := congrArg OwnedResponse.blocks hfresh
  generalize handler : dispatch lz4 sd request r = handler at hrun
  unfold dispatch at handler
  split at handler
  all_goals subst handler
  next => exact outcome_opReaddir hfresh hacc hrun
  next => exact outcome_opReadlink hblocks hacc hrun
  next => exact outcome_opGetattr hblocks hacc hrun
  next => exact outcome_opRead hfresh hacc hrun
  next => exact outcome_opStatfs hblocks hacc hrun
  next hreaddir hreadlink hgetattr hread hstatfs =>
    obtain ⟨out, tr₁, tr₂, rfl, hdispatch, hrest⟩ := Own.traces_lift_bind.mp hrun
    have hnone : r.response.datablock = none := by
      rw [hfresh]
      rfl
    have hplain := plain_dispatch hreaddir hreadlink hstatfs hnone hdispatch
    obtain ⟨rfl, -⟩ := Own.traces_pure.mp hrest
    rw [List.append_nil]
    exact outcome_return hblocks hacc (not_spills_of_isPlain hplain) hrest

theorem triple_responseCreate :
    Own.Triple 0 responseCreate fun r => r.elim 0 fun r => r.blocks.own := by
  apply Own.triple_allocate_bind
  · exact Own.triple_pure rfl
  intro response
  apply Own.triple_allocate_bind
  · exact Own.triple_free_bind 0 rfl (Own.triple_pure rfl)
  intro version
  exact Own.triple_pure rfl

theorem traces_responseCreate
    (hrun : (responseCreate h).Traces tr (some r, h')) : (∃ p q, r = ⟨.initial, .fresh p q⟩) ∧
      tr = [⟨.alloc .record, true⟩, ⟨.alloc .record, true⟩] := by
  obtain ⟨tr₁, tr₂, rfl, ⟨⟨_, _, rfl, rfl, rfl⟩, hrest⟩ | ⟨-, hrest⟩⟩ :=
    Own.traces_allocate_bind.mp hrun
  · obtain ⟨tr₃, tr₄, rfl, ⟨⟨_, _, rfl, rfl, rfl⟩, hrest₁⟩ | ⟨-, hrest₁⟩⟩ :=
      Own.traces_allocate_bind.mp hrest
    · obtain ⟨rfl, hout, rfl⟩ := Own.traces_pure.mp hrest₁
      exact ⟨⟨_, _, Option.some.inj hout⟩, rfl⟩
    · cases (Own.traces_pure.mp hrest₁).2.1
  · cases (Own.traces_pure.mp hrest).2.1

/-- **How a round leaves the response.** -/
theorem outcome_handle {received : Option Request} (hacc : h.Accounts rest)
    (hrun : (handle lz4 sd received h).Traces tr (some (rc, r'), h')) :
    Outcome rest r'.blocks h' (Spills tr) := by
  have hrecord : ∀ n, Chunk.record ≠ .entries n := by simp
  cases received with
  | none =>
    obtain ⟨_ | r, h₁, tr₁, tr₂, rfl, hcreate, hrest⟩ := Own.traces_bind.mp hrun
    · cases (Own.traces_pure.mp hrest).2.1
    have hacc₁ := triple_responseCreate (by simpa using hacc) hcreate
    obtain ⟨⟨p, q, rfl⟩, rfl⟩ := traces_responseCreate hcreate
    obtain ⟨rfl, hout, rfl⟩ := Own.traces_pure.mp hrest
    obtain ⟨rfl, rfl⟩ := Prod.mk.inj (Option.some.inj hout)
    exact outcome_fresh hacc₁ (not_spills_of_isPlain (by simp [IsPlain]))
  | some request =>
    obtain ⟨_ | r, h₁, tr₁, tr₂, rfl, hcreate, hrest⟩ := Own.traces_bind.mp hrun
    · cases (Own.traces_pure.mp hrest).2.1
    have hacc₁ := triple_responseCreate (by simpa using hacc) hcreate
    obtain ⟨⟨p, q, rfl⟩, rfl⟩ := traces_responseCreate hcreate
    obtain ⟨out, h₂, tr₃, tr₄, rfl, hdispatch, hrest₁⟩ := Own.traces_bind.mp hrest
    obtain ⟨rfl, hout, rfl⟩ := Own.traces_pure.mp hrest₁
    obtain rfl : (rc, r') = out := Option.some.inj hout
    convert outcome_dispatch rfl hacc₁ hdispatch using 1
    simp only [List.cons_append, List.nil_append, List.append_nil, spills_cons_alloc hrecord]

/-- **The sub-objects of a response** are live when it is packed, and freed exactly once after it
has been destroyed, if and only if the round did not spill: it read no link target and no status of
a file system that it could store, and it completed an entry of a listing exactly when no helper
failed. -/
theorem handle_wellFormed_iff (lz4 : Lz4) (sd : ServeDir) (received : Option Request) (h : Heap)
    (owned : Multiset ℕ) (hacc : h.Accounts owned) (tr : Trace) (rc : ℤ) (r : OwnedResponse)
    (h₁ h₂ : Heap) (hrun : (handle lz4 sd received h).Traces tr (some (rc, r), h₁))
    (hdestroy : (responseDestroy r.blocks h₁).Traces [] ((), h₂)) :
    WellFormed r.blocks h₁ h₂ ↔ ¬ Spills tr := by
  rw [responseDestroy_eq] at hdestroy
  obtain rfl := (Prod.mk.inj hdestroy.2).2
  exact (outcome_handle hacc hrun).wellFormed_free_iff

/-- A READDIR of the root of the shared directory. -/
def listRoot : Request :=
  { Request.initial with path := some [47], requesttype := .readdir }

/-- With the entry `f` the response is well-formed. -/
theorem handle_wellFormed_one : ∃ tr rc r h₁ h₂,
    (handle .onRun ⟨[47, 115]⟩ (some listRoot) .empty).Traces tr (some (rc, r), h₁) ∧
      (responseDestroy r.blocks h₁).Traces [] ((), h₂) ∧ WellFormed r.blocks h₁ h₂ := by
  obtain ⟨tr, out, h₁, hrun, hnot⟩ : ∃ tr out h₁,
      (handle .onRun ⟨[47, 115]⟩ (some listRoot) .empty).Traces tr (some out, h₁) ∧
        ¬ Spills tr := by
    refine ⟨_, _, _, ⟨true, _, rfl, true, _, rfl, true, _, rfl, .ok (), _, rfl, ([[102]], none), _,
      rfl, true, _, rfl, (), _, rfl, ([[102]], none), _, rfl, true, _, rfl, .ok .zero, _, rfl, true,
      _, rfl, true, _, rfl, true, _, rfl, true, _, rfl, true, _, rfl, true, _, rfl, true, _, rfl,
      (0 : ℕ), _, rfl, .ok 0, _, rfl, true, _, rfl, .ok [], _, rfl, (), _, rfl, rfl, rfl⟩, ?_⟩
    simp [Spills, LinkRead, StatRead, ArrayMade, HelperFailed, lastAlloc, LookupFailed, GroupsRead]
  have hdestroy := traces_responseDestroy out.2.blocks h₁
  refine ⟨tr, out.1, out.2, h₁, _, hrun, hdestroy, ?_⟩
  exact (handle_wellFormed_iff _ _ _ _ _ Heap.accounts_empty _ _ _ _ _ hrun hdestroy).mpr hnot

/-- When `path_join` fails for the second entry `g`, the response still refers to the attributes of
`f`, which have been freed, and `Response_destroy` frees them again. -/
theorem handle_not_wellFormed : ∃ tr rc r h₁ h₂,
    (handle .onRun ⟨[47, 115]⟩ (some listRoot) .empty).Traces tr (some (rc, r), h₁) ∧
      (responseDestroy r.blocks h₁).Traces [] ((), h₂) ∧ ¬ WellFormed r.blocks h₁ h₂ := by
  obtain ⟨tr, out, h₁, hrun, hspills⟩ : ∃ tr out h₁,
      (handle .onRun ⟨[47, 115]⟩ (some listRoot) .empty).Traces tr (some out, h₁) ∧
        Spills tr := by
    refine ⟨_, _, _, ⟨true, _, rfl, true, _, rfl, true, _, rfl, .ok (), _, rfl,
      ([[102], [103]], none), _, rfl, true, _, rfl, (), _, rfl, ([[102], [103]], none), _, rfl,
      true, _, rfl, .ok .zero, _, rfl, true, _, rfl, true, _, rfl, true, _, rfl, true, _, rfl, true,
      _, rfl, true, _, rfl, true, _, rfl, (0 : ℕ), _, rfl, .ok 0, _, rfl, true, _, rfl, .ok [], _,
      rfl, false, _, rfl, (), _, rfl, rfl, rfl⟩, ?_⟩
    simp [Spills, LinkRead, StatRead, ArrayMade, HelperFailed, lastAlloc, LookupFailed, GroupsRead]
  have hdestroy := traces_responseDestroy out.2.blocks h₁
  refine ⟨tr, out.1, out.2, h₁, _, hrun, hdestroy, ?_⟩
  rw [(outcome_handle Heap.accounts_empty hrun).wellFormed_free_iff, not_not]
  exact hspills

end Outcomes

end Runs

end Rhizofs.Ownership
