import Rhizofs.Foundations.Ownership
import Rhizofs.Fs.Payload

/-!
# The paths and entries of a directory listing

`Rhizofs_readdir` with an identity for every path and every `CacheEntry` it creates. A round of its
loop hands both to the cache, but keeps the pointers in `path_entry` and `cache_entry` until a later
round stores new ones there. A failure in between frees what the cache owns
(`rhizofsReaddir_givenUp_iff`). Without the identities this is `rhizofsReaddir` of the client
(`rhizofsReaddir_erase`).
-/

namespace Rhizofs.Ownership

open Extern

/-- The variables `path_entry` and `cache_entry`. -/
structure Variables where
  pathEntry : Option ℕ
  cacheEntry : Option ℕ

/-- The blocks that the label `error` frees. -/
def Variables.blocks (vars : Variables) : Multiset ℕ :=
  Own.block vars.pathEntry + Own.block vars.cacheEntry

/-- The variables before the loop. -/
def Variables.null : Variables := ⟨none, none⟩

/-- The end of a round: the attributes are stored in the new entry, which is handed to the cache. -/
def readdirSet (path : CString) (currentTime : ℤ) (attrs : Attrs) (name : CString)
    (vars : Variables) : Own ClientRet (Bool × Variables) := do
  let (ok, statResult) ← Own.lift (rhizofsConvertAttrsStat attrs)
  if !ok then return (false, vars)
  let ok ← Own.lift (client (.cacheSet (joined path name) ⟨statResult, currentTime⟩))
  if !ok then return (false, vars)
  Own.give vars.blocks
  return (true, vars)

/-- The second half of a round: the entry is added to the cache, or not. -/
def readdirCache (path : CString) (currentTime : ℤ) (attrs : Attrs) (name : CString)
    (vars : Variables) : Own ClientRet (Bool × Variables) := do
  -- `path_join` stores its result in `path_entry`, also when that is `NULL`
  let pathEntry ← Own.allocate (client (.alloc (.bytes ((joinPlan path name).1 + 1))))
  if pathEntry.isNone then return (false, { vars with pathEntry := none })
  let cacheEntry ← Own.allocate cacheEntryCreate
  if cacheEntry.isNone then return (false, ⟨pathEntry, none⟩)
  readdirSet path currentTime attrs name ⟨pathEntry, cacheEntry⟩

/-- The loop: whether it ended without a jump to `error`, and the variables. -/
def readdirEntries (path : CString) (currentTime : ℤ) :
    List Attrs → Variables → Own ClientRet (Bool × Variables)
  | [], vars => return (true, vars)
  | attrs :: entries, vars => do
    let some name := attrs.name | return (false, vars)
    let stop ← Own.lift (client (.filler name))
    if stop then return (true, vars)
    let (ok, vars) ← readdirCache path currentTime attrs name vars
    if !ok then return (false, vars)
    readdirEntries path currentTime entries vars

/-- `OP_INIT` and `OP_COMMUNICATE`: the response, or the jump to `error`. -/
def received (path : CString) : Prog ClientRet (Option Response × ℤ) :=
  operation (fun request => return some { request with path := some path, requesttype := .readdir })
    (fun returnedErr => (none, returnedErr)) fun response returnedErr =>
      return (some response, returnedErr)

/-- The listing of a response, from the reading of the clock to the jump to `error`. -/
def readdirUse (path : CString) (response : Response) (returnedErr : ℤ) : Own ClientRet ℤ := do
  let currentTime ← Own.lift (client .time)
  if currentTime = -1 then
    Own.free Variables.null.blocks
    return -returnedErr
  let (ok, vars) ← readdirEntries path currentTime response.directoryEntries .null
  if ok then return 0
  Own.free vars.blocks
  return -returnedErr

/-- `Rhizofs_readdir`. -/
def rhizofsReaddir (path : CString) : Own ClientRet ℤ := do
  match ← Own.lift (received path) with
  | (none, returnedErr) =>
    Own.free Variables.null.blocks
    return -returnedErr
  | (some response, returnedErr) => readdirUse path response returnedErr

/-! ## Stumbling after a handover -/

/-- The number of entries that the cache accepted. -/
def accepted : List (Event ClientRet) → ℕ
  | [] => 0
  | ⟨.cacheSet _ _, true⟩ :: tr => accepted tr + 1
  | _ :: tr => accepted tr

/-- The last call was an allocation for a path, and it failed. -/
def PathFailed (tr : List (Event ClientRet)) : Prop :=
  ∃ n, tr.getLast? = some ⟨.alloc (.bytes n), false⟩

/-- The loop over the entries stopped at one without a name, or at one whose path could not be
joined. -/
def StopsAtPath (entries : List Attrs) (tr : List (Event ClientRet)) : Prop :=
  (∃ attrs, entries[accepted tr]? = some attrs ∧ attrs.name = none) ∨ PathFailed tr

/-- The run came to an entry without a name, or to one whose path could not be joined, after the
cache had accepted an entry. -/
def Stumbles (tr : List (Event ClientRet)) : Prop :=
  accepted tr ≠ 0 ∧ ∃ response err,
    tr.findSome? exchanged = some (some response, err) ∧ StopsAtPath response.directoryEntries tr

theorem accepted_append (tr₁ tr₂ : List (Event ClientRet)) :
    accepted (tr₁ ++ tr₂) = accepted tr₁ + accepted tr₂ := by
  induction tr₁ with
  | nil => simp [accepted]
  | cons ev tr₁ ih =>
    obtain ⟨c, r⟩ := ev
    cases c with
    | cacheSet path cacheEntry => cases r <;> simp [accepted, ih, Nat.add_right_comm]
    | _ => simp [accepted, ih]

/-! ## The loop -/

/-- How the second half of a round ends: the path could not be joined; the entry was not accepted,
and its blocks are in the variables; or both blocks were handed over, and are still there. -/
inductive Round (owned : Multiset ℕ) (h : Heap) (vars : Variables) :
    List (Event ClientRet) → Bool → Variables → Heap → Prop
  | pathFailed (n : ℕ) :
      Round owned h vars [⟨.alloc (.bytes n), false⟩] false { vars with pathEntry := none } h
  | refused {tr : List (Event ClientRet)} {vars' : Variables} {h' : Heap}
      (none : accepted tr = 0) (last : ¬ PathFailed tr)
      (acc : h'.Accounts (vars'.blocks + owned)) : Round owned h vars tr false vars' h'
  | handed {tr : List (Event ClientRet)} {p e : ℕ} {h' : Heap}
      (one : accepted tr = 1) (last : ¬ PathFailed tr) (acc : h'.Accounts owned)
      (given : e ∈ h'.given) : Round owned h vars tr true ⟨some p, some e⟩ h'

section Loop

variable {path name : CString} {currentTime : ℤ} {attrs : Attrs} {entries : List Attrs}
  {vars vars' : Variables} {owned : Multiset ℕ} {h h' : Heap} {tr : List (Event ClientRet)}
  {ok : Bool}

/-- A round whose two allocations succeeded. -/
theorem round_readdirSet {p e n : ℕ} {h₀ : Heap}
    (hacc : h.Accounts ((⟨some p, some e⟩ : Variables).blocks + owned))
    (hrun : ((readdirSet path currentTime attrs name ⟨some p, some e⟩) h).Traces tr
      ((ok, vars'), h')) :
    Round owned h₀ vars (⟨.alloc (.bytes n), true⟩ :: ⟨.alloc .record, true⟩ :: tr) ok vars' h' := by
  obtain ⟨⟨converted, statResult⟩, h₁, tr₁, tr₂, rfl, hconv, hrest⟩ := Own.traces_bind.mp hrun
  obtain ⟨⟨ids, _, rfl, rfl, -⟩, rfl⟩ := Own.traces_lift.mp hconv
  cases converted with
  | false =>
    obtain ⟨rfl, hout, rfl⟩ := Own.traces_pure.mp hrest
    obtain ⟨rfl, rfl⟩ := Prod.mk.inj hout
    exact .refused rfl (by simp [PathFailed]) hacc
  | true =>
    obtain ⟨set, h₂, tr₃, tr₄, rfl, hset, hrest₁⟩ := Own.traces_bind.mp hrest
    obtain ⟨⟨_, _, rfl, rfl, rfl⟩, rfl⟩ := Own.traces_lift.mp hset
    cases set with
    | false =>
      obtain ⟨rfl, hout, rfl⟩ := Own.traces_pure.mp hrest₁
      obtain ⟨rfl, rfl⟩ := Prod.mk.inj hout
      exact .refused rfl (by simp [PathFailed]) hacc
    | true =>
      obtain ⟨rfl, hout, rfl⟩ := Own.traces_pure.mp hrest₁
      obtain ⟨rfl, rfl⟩ := Prod.mk.inj hout
      refine .handed rfl (by simp [PathFailed]) (Heap.accounts_give hacc) ?_
      simp [Heap.give, Variables.blocks]

theorem round_readdirCache (hacc : h.Accounts owned)
    (hrun : ((readdirCache path currentTime attrs name vars) h).Traces tr ((ok, vars'), h')) :
    Round owned h vars tr ok vars' h' := by
  obtain ⟨tr₁, tr₂, rfl, ⟨⟨_, _, rfl, rfl, rfl⟩, hrest⟩ | ⟨⟨_, _, rfl, rfl, rfl⟩, hrest⟩⟩ :=
    Own.traces_allocate_bind.mp hrun
  · have hacc₁ := Heap.accounts_alloc hacc
    obtain ⟨tr₃, tr₄, rfl, ⟨⟨_, _, rfl, rfl, rfl⟩, hrest₁⟩ | ⟨⟨_, _, rfl, rfl, rfl⟩, hrest₁⟩⟩ :=
      Own.traces_allocate_bind.mp hrest
    · have hblocks : h.alloc.alloc.Accounts
          ((⟨some h.next, some h.alloc.next⟩ : Variables).blocks + owned) := by
        have hacc₂ := Heap.accounts_alloc hacc₁
        rwa [← Multiset.singleton_add, ← Multiset.singleton_add, ← add_assoc,
          add_comm ({h.alloc.next} : Multiset ℕ)] at hacc₂
      exact round_readdirSet hblocks hrest₁
    · obtain ⟨rfl, hout, rfl⟩ := Own.traces_pure.mp hrest₁
      obtain ⟨rfl, rfl⟩ := Prod.mk.inj hout
      exact .refused rfl (by simp [PathFailed]) (by simpa [Variables.blocks] using hacc₁)
  · obtain ⟨rfl, hout, rfl⟩ := Own.traces_pure.mp hrest
    obtain ⟨rfl, rfl⟩ := Prod.mk.inj hout
    exact .pathFailed _

/-- The variables between two rounds: nothing, or blocks that an earlier round handed over. -/
inductive Stale (h : Heap) : Bool → Variables → Prop
  | null : Stale h false .null
  | given {p e : ℕ} (mem : e ∈ h.given) : Stale h true ⟨some p, some e⟩

/-- The blocks that are left to free after the loop. -/
def leftover (ok : Bool) (vars : Variables) : Multiset ℕ := if ok then 0 else vars.blocks

/-- How the loop ends: everything is accounted for, or `error` comes with a block in the variables
that was handed over in an earlier round. -/
structure LoopEnd (owned : Multiset ℕ) (stumbles : Prop) (ok : Bool) (vars : Variables)
    (h : Heap) : Prop where
  accounts : ¬ stumbles → h.Accounts (leftover ok vars + owned)
  stumbled : stumbles → ∃ p ∈ leftover ok vars, p ∈ h.given

/-- Where the loop stops at an entry before anything was stored in the variables. -/
theorem loopEnd_of_stale {prior : Bool} {stops : Prop} (hacc : h.Accounts owned)
    (hstale : Stale h prior vars) (hstops : stops) {pathEntry : Option ℕ}
    (hpath : pathEntry = none ∨ pathEntry = vars.pathEntry) :
    LoopEnd owned (prior = true ∧ stops) false { vars with pathEntry := pathEntry } h := by
  cases hstale with
  | null =>
    obtain rfl : pathEntry = none := by simpa [Variables.null] using hpath
    exact ⟨fun _ => by simpa [leftover, Variables.blocks, Variables.null] using hacc, by simp⟩
  | @given p e mem =>
    refine ⟨fun hnot => absurd ⟨rfl, hstops⟩ hnot, fun _ => ⟨e, ?_, mem⟩⟩
    simp [leftover, Variables.blocks]

/-- Where the loop ends well. -/
theorem loopEnd_done {stumbles : Prop} (hacc : h.Accounts owned) (hnot : ¬ stumbles) :
    LoopEnd owned stumbles true vars h :=
  ⟨fun _ => by simpa [leftover] using hacc, fun hstumbles => absurd hstumbles hnot⟩

theorem not_pathFailed_filler (stop : Bool) (htr : ¬ PathFailed tr) :
    ¬ PathFailed (⟨.filler name, stop⟩ :: tr) := by
  cases tr with
  | nil => simp [PathFailed]
  | cons ev tr => simpa [PathFailed] using htr

theorem pathFailed_append {tr₁ tr₂ : List (Event ClientRet)} (htr : ¬ PathFailed tr₁) :
    PathFailed (tr₁ ++ tr₂) ↔ PathFailed tr₂ := by
  cases tr₂ with
  | nil => simpa [PathFailed] using htr
  | cons ev tr₂ => simp [PathFailed, List.getLast?_append]

/-- The stop after a part of a run in which some entries were accepted. -/
theorem stopsAtPath_append {tr₁ tr₂ : List (Event ClientRet)} (htr : ¬ PathFailed tr₁) :
    StopsAtPath entries (tr₁ ++ tr₂) ↔ StopsAtPath (entries.drop (accepted tr₁)) tr₂ := by
  unfold StopsAtPath
  rw [pathFailed_append htr, accepted_append, List.getElem?_drop]

/-- **The loop over the entries**: whatever the response holds and whichever call fails. -/
theorem loopEnd_readdirEntries {prior : Bool} (hacc : h.Accounts owned)
    (hstale : Stale h prior vars)
    (hrun : ((readdirEntries path currentTime entries vars) h).Traces tr ((ok, vars'), h')) :
    LoopEnd owned ((prior = true ∨ accepted tr ≠ 0) ∧ StopsAtPath entries tr) ok vars' h' := by
  induction entries generalizing vars h tr prior with
  | nil =>
    obtain ⟨rfl, hout, rfl⟩ := Own.traces_pure.mp hrun
    obtain ⟨rfl, rfl⟩ := Prod.mk.inj hout
    exact loopEnd_done hacc (by simp [StopsAtPath, PathFailed])
  | cons attrs entries ih =>
    unfold readdirEntries at hrun
    cases hname : attrs.name with
    | none =>
      simp only [hname] at hrun
      obtain ⟨rfl, hout, rfl⟩ := Own.traces_pure.mp hrun
      obtain ⟨rfl, rfl⟩ := Prod.mk.inj hout
      have hstops : StopsAtPath (attrs :: entries) [] := .inl ⟨attrs, rfl, hname⟩
      simpa [accepted] using loopEnd_of_stale hacc hstale hstops (.inr rfl)
    | some name =>
      simp only [hname] at hrun
      obtain ⟨stop, h₁, tr₁, tr₂, rfl, hfiller, hrest⟩ := Own.traces_bind.mp hrun
      obtain ⟨⟨_, _, rfl, rfl, rfl⟩, rfl⟩ := Own.traces_lift.mp hfiller
      cases stop with
      | true =>
        obtain ⟨rfl, hout, rfl⟩ := Own.traces_pure.mp hrest
        obtain ⟨rfl, rfl⟩ := Prod.mk.inj hout
        exact loopEnd_done hacc (by simp [StopsAtPath, PathFailed, accepted, hname])
      | false =>
        obtain ⟨⟨ok₁, vars₁⟩, h₂, tr₃, tr₄, rfl, hcache, hrest₁⟩ := Own.traces_bind.mp hrest
        cases round_readdirCache hacc hcache with
        | pathFailed n =>
          obtain ⟨rfl, hout, rfl⟩ := Own.traces_pure.mp hrest₁
          obtain ⟨rfl, rfl⟩ := Prod.mk.inj hout
          have hfailed : PathFailed [⟨.filler name, false⟩, ⟨.alloc (.bytes n), false⟩] := ⟨n, rfl⟩
          simpa [accepted, StopsAtPath, hfailed] using loopEnd_of_stale hacc hstale hfailed (.inl rfl)
        | refused hzero hlast hblocks =>
          obtain ⟨rfl, hout, rfl⟩ := Own.traces_pure.mp hrest₁
          obtain ⟨rfl, rfl⟩ := Prod.mk.inj hout
          refine ⟨fun _ => hblocks, ?_⟩
          rintro ⟨-, ⟨attrs', hget, hnone⟩ | hfailed⟩
          · simp only [accepted, List.append_nil, List.singleton_append, hzero,
              List.getElem?_cons_zero, Option.some.injEq] at hget
            rw [← hget, hname] at hnone
            cases hnone
          · exact absurd (by simpa using hfailed) (not_pathFailed_filler false hlast)
        | @handed _ p e _ hone hlast hacc₁ hmem =>
          have hend := ih hacc₁ (.given hmem) hrest₁
          have hone' : accepted (⟨.filler name, false⟩ :: tr₃) = 1 := hone
          rw [← List.append_assoc, accepted_append, List.singleton_append,
            stopsAtPath_append (not_pathFailed_filler false hlast), hone']
          simpa using hend

/-! ## The whole function -/

/-- The exchange with the server fails, or it delivers the response. -/
theorem traces_received {received? : Option Response} {returnedErr : ℤ}
    (hrun : (received path).Traces tr (received?, returnedErr)) :
    (received? = none ∧ accepted tr = 0) ∨ ∃ request response, received? = some response ∧
      tr = [⟨.alloc .record, true⟩, ⟨.communicate request, (some response, returnedErr)⟩] := by
  obtain ⟨ok, _, rfl, hrest⟩ := hrun
  cases ok with
  | false =>
    obtain ⟨rfl, hout⟩ := hrest
    exact .inl ⟨(Prod.mk.inj hout).1, rfl⟩
  | true =>
    obtain ⟨r, tr₁, tr₂, rfl, hexchange, hrest₁⟩ :=
      (Prog.traces_bind (opCommunicate _) _ _ _).mp hrest
    obtain ⟨answer, err, rfl, rfl⟩ := traces_opCommunicate hexchange
    split_ifs at hrest₁ with herr
    · obtain ⟨rfl, hout⟩ := hrest₁
      exact .inl ⟨(Prod.mk.inj hout).1, rfl⟩
    · cases answer with
      | none =>
        obtain ⟨rfl, hout⟩ := hrest₁
        exact .inl ⟨(Prod.mk.inj hout).1, rfl⟩
      | some response =>
        obtain ⟨rfl, hout⟩ := hrest₁
        obtain ⟨rfl, rfl⟩ := Prod.mk.inj hout
        exact .inr ⟨_, response, rfl, rfl⟩

/-- Once the response is there, the rest of the run decides. -/
theorem stumbles_of_received {request : Request} {response : Response} {err : ℤ} :
    Stumbles ([⟨.alloc .record, true⟩, ⟨.communicate request, (some response, err)⟩] ++ tr) ↔
      accepted tr ≠ 0 ∧ StopsAtPath response.directoryEntries tr := by
  have hexchange : ¬ PathFailed [⟨.alloc .record, true⟩,
      ⟨.communicate request, (some response, err)⟩] := by simp [PathFailed]
  unfold Stumbles
  rw [accepted_append]
  constructor
  · rintro ⟨haccepted, response', err', heq, hstops⟩
    obtain ⟨rfl, rfl⟩ : response = response' ∧ err = err' := by
      simpa only [List.cons_append, List.findSome?_cons, exchanged, Option.some.injEq,
        Prod.mk.injEq] using heq
    exact ⟨by simpa [accepted] using haccepted, (stopsAtPath_append hexchange).mp hstops⟩
  · rintro ⟨haccepted, hstops⟩
    refine ⟨by simpa [accepted] using haccepted, response, err, rfl, ?_⟩
    exact (stopsAtPath_append hexchange).mpr hstops

/-- What was handed over is spared, and every other block created since `h` is freed exactly
once. -/
structure GivenUp (h h' : Heap) : Prop where
  spared : ∀ p ∈ h'.given, p ∉ h'.freed
  released : ∀ p, h.next ≤ p → p < h'.next → p ∉ h'.given → h'.freed.count p = 1

theorem GivenUp.of_accounts (hacc : h.Accounts owned) (hacc' : h'.Accounts owned) :
    GivenUp h h' := by
  constructor
  · intro p hgiven hfreed
    exact Multiset.disjoint_left.mp
      (Multiset.nodup_add.mp (Multiset.nodup_add.mp hacc'.nodup).1).2.2 hfreed hgiven
  · intro p hge hlt hgiven
    have hnot : p ∉ owned := by
      intro hmem
      have := hacc.lt_next (Multiset.mem_add.mpr (.inr hmem))
      omega
    rw [hacc'.count_freed hlt hnot, if_neg hgiven]

/-- The end of the function, with the label `error`: everything is accounted for, or a block that
was handed over is freed. -/
theorem givenUp_readdirUse {response : Response} {returnedErr rc : ℤ} (hacc : h.Accounts owned)
    (hrun : ((readdirUse path response returnedErr) h).Traces tr (rc, h')) :
    GivenUp h h' ↔ ¬ (accepted tr ≠ 0 ∧ StopsAtPath response.directoryEntries tr) := by
  obtain ⟨now, h₁, tr₁, tr₂, rfl, htime, hrest⟩ := Own.traces_bind.mp hrun
  obtain ⟨⟨_, _, rfl, rfl, rfl⟩, rfl⟩ := Own.traces_lift.mp htime
  by_cases hnow : now = -1
  · rw [if_pos hnow] at hrest
    obtain ⟨rfl, rfl, rfl⟩ := Own.traces_pure.mp hrest
    apply iff_of_true _ (by simp [accepted])
    exact .of_accounts hacc (by simpa [Variables.blocks, Variables.null] using hacc)
  rw [if_neg hnow] at hrest
  obtain ⟨⟨ok, vars⟩, h₂, tr₃, tr₄, rfl, hloop, hrest₁⟩ := Own.traces_bind.mp hrest
  have hend := loopEnd_readdirEntries hacc .null hloop
  have hfreed : tr₄ = [] ∧ h' = h₂.free (leftover ok vars) := by
    cases ok with
    | true =>
      obtain ⟨rfl, -, rfl⟩ := Own.traces_pure.mp hrest₁
      exact ⟨rfl, by simp [leftover]⟩
    | false =>
      obtain ⟨rfl, -, rfl⟩ := Own.traces_pure.mp hrest₁
      exact ⟨rfl, rfl⟩
  obtain ⟨rfl, rfl⟩ := hfreed
  have htime : ¬ PathFailed [⟨.time, now⟩] := by simp [PathFailed]
  rw [List.append_nil, accepted_append, stopsAtPath_append htime]
  by_cases hstumbles : accepted tr₃ ≠ 0 ∧ StopsAtPath response.directoryEntries tr₃
  · obtain ⟨p, hp, hgiven⟩ := hend.stumbled (by simpa using hstumbles)
    apply iff_of_false _ (by simpa [accepted] using hstumbles)
    intro hgivenUp
    exact hgivenUp.spared p hgiven (Multiset.mem_add.mpr (.inr hp))
  · apply iff_of_true _ (by simpa [accepted] using hstumbles)
    exact .of_accounts hacc (Heap.accounts_free (hend.accounts (by simpa using hstumbles)))

/-- **When a listing gives up what it handed over.** For any response and whichever call fails, no
path or entry that the cache accepted is freed and all others are freed exactly once, if and only if
the loop does not come, after an entry was accepted, to an entry without a name or to one whose path
cannot be joined. -/
theorem rhizofsReaddir_givenUp_iff {rc : ℤ} (hacc : h.Accounts owned)
    (hrun : ((rhizofsReaddir path) h).Traces tr (rc, h')) : GivenUp h h' ↔ ¬ Stumbles tr := by
  obtain ⟨⟨received?, returnedErr⟩, h₁, tr₁, tr₂, rfl, hreceived, hrest⟩ := Own.traces_bind.mp hrun
  obtain ⟨hreceived₁, rfl⟩ := Own.traces_lift.mp hreceived
  obtain ⟨rfl, hzero⟩ | ⟨request, response, rfl, rfl⟩ := traces_received hreceived₁
  · obtain ⟨rfl, rfl, rfl⟩ := Own.traces_pure.mp hrest
    apply iff_of_true _ (by simp [Stumbles, hzero])
    exact .of_accounts hacc (by simpa [Variables.blocks, Variables.null] using hacc)
  · rw [givenUp_readdirUse hacc hrest, stumbles_of_received]

end Loop

/-! ### The model without identities -/

theorem readdirSet_erase (path : CString) (currentTime : ℤ) (attrs : Attrs) (name : CString)
    (vars : Variables) :
    Own.Erases Prod.fst (readdirSet path currentTime attrs name vars) (do
      let (ok, statResult) ← rhizofsConvertAttrsStat attrs
      if !ok then return false
      client (.cacheSet (joined path name) ⟨statResult, currentTime⟩)) := by
  apply Own.erases_lift_bind
  rintro ⟨ok, statResult⟩
  cases ok with
  | false => exact Own.erases_pure _ _
  | true =>
    simp only [Bool.not_true, Bool.false_eq_true, if_false]
    rw [← Prog.bind_ret (client (.cacheSet (joined path name) ⟨statResult, currentTime⟩))]
    apply Own.erases_lift_bind
    rintro (_ | _)
    · exact Own.erases_pure _ _
    · exact fun _ => rfl

theorem readdirCache_erase (path : CString) (currentTime : ℤ) (attrs : Attrs) (name : CString)
    (vars : Variables) :
    Own.Erases Prod.fst (readdirCache path currentTime attrs name vars)
      (Rhizofs.readdirCache path currentTime attrs name) := by
  apply Own.erases_allocate_bind _ (Own.erases_pure _ _)
  intro p
  apply Own.erases_allocate_bind _ (Own.erases_pure _ _)
  intro e
  exact readdirSet_erase path currentTime attrs name ⟨some p, some e⟩

theorem readdirEntries_erase (path : CString) (currentTime : ℤ) (entries : List Attrs)
    (vars : Variables) :
    Own.Erases Prod.fst (readdirEntries path currentTime entries vars)
      (Rhizofs.readdirEntries path currentTime entries) := by
  induction entries generalizing vars with
  | nil => exact Own.erases_pure _ _
  | cons attrs entries ih =>
    unfold readdirEntries Rhizofs.readdirEntries
    cases attrs.name with
    | none => exact Own.erases_pure _ _
    | some name =>
      apply Own.erases_lift_bind
      rintro (_ | _)
      · apply Own.erases_bind (readdirCache_erase path currentTime attrs name vars)
        rintro ⟨_ | _, vars⟩
        · exact Own.erases_pure _ _
        · exact ih vars
      · exact Own.erases_pure _ _

/-- An operation is the exchange with the server, and what is done with its outcome. -/
theorem operation_bind {α : Type} (fill : Request → Prog ClientRet (Option Request)) (failed : ℤ → α)
    (use : Response → ℤ → Prog ClientRet α) :
    operation fill failed use =
      operation fill (fun returnedErr => ((none : Option Response), returnedErr))
        (fun response returnedErr => return (some response, returnedErr)) >>= fun r =>
          match r with
          | (none, returnedErr) => return failed returnedErr
          | (some response, returnedErr) => use response returnedErr := by
  unfold operation
  rw [Prog.bind_assoc]
  congr 1
  funext request
  cases request with
  | none => rfl
  | some request =>
    change (fill request >>= _) = (fill request >>= _) >>= _
    rw [Prog.bind_assoc]
    congr 1
    funext request
    cases request with
    | none => rfl
    | some request =>
      change (opCommunicate request >>= _) = (opCommunicate request >>= _) >>= _
      rw [Prog.bind_assoc]
      congr 1
      funext r
      obtain ⟨_ | response, returnedErr⟩ := r <;> rfl

/-- **Without the identities**, the function is the one of the client. -/
theorem rhizofsReaddir_erase (path : CString) :
    Own.Erases id (rhizofsReaddir path) (Rhizofs.rhizofsReaddir path) := by
  unfold Rhizofs.rhizofsReaddir
  rw [operation_bind]
  apply Own.erases_lift_bind
  rintro ⟨_ | response, returnedErr⟩
  · exact fun _ => rfl
  apply Own.erases_lift_bind
  intro now
  by_cases hnow : now = -1
  · simp only [hnow, if_true]
    exact fun _ => rfl
  · simp only [hnow, if_false]
    apply Own.erases_bind (readdirEntries_erase path now response.directoryEntries .null)
    rintro ⟨_ | _, vars⟩
    · exact fun _ => rfl
    · exact fun _ => rfl

/-! ## A listing with a nameless entry -/

/-- The attributes of an empty file. -/
def entryNamed (name : Option CString) : Attrs where
  size := 0
  isOwner := false
  isInGroup := false
  timestamps := ⟨0, 0, some 0, none, none, none⟩
  filetype := .regularFile
  permissions := ⟨⟨false, false, false⟩, ⟨false, false, false⟩, ⟨false, false, false⟩⟩
  name := name

/-- A listing of the root with the file `f` and further entries. -/
def listingWith (entries : List Attrs) : Response :=
  { Response.initial with
    requesttype := .readdir
    directoryEntries := entryNamed (some [102]) :: entries }

/-- The client lists the root, and the cache accepts `/f`. -/
def listingTrace (entries : List Attrs) : List (Event ClientRet) :=
  [⟨.alloc .record, true⟩,
    ⟨.communicate { Request.initial with path := some [47], requesttype := .readdir },
      (some (listingWith entries), 0)⟩,
    ⟨.time, (5 : ℤ)⟩, ⟨.filler [102], false⟩, ⟨.alloc (.bytes 3), true⟩, ⟨.alloc .record, true⟩,
    ⟨.fuseContext, ((0 : ℕ), (0 : ℕ))⟩,
    ⟨.cacheSet [47, 102] ⟨((entryNamed (some [102])).toStat 0 0).2, 5⟩, true⟩]

/-- After a second entry without a name both blocks, which the cache owns, are freed. -/
theorem rhizofsReaddir_frees_given : ∃ tr rc h',
    ((rhizofsReaddir [47]) .empty).Traces tr (rc, h') ∧ h'.given = {0, 1} ∧ h'.freed = {0, 1} ∧
      ¬ GivenUp .empty h' := by
  have hrun : ((rhizofsReaddir [47]) .empty).Traces (listingTrace [entryNamed none])
      (0, (Heap.empty.alloc.alloc.give {0, 1}).free {0, 1}) :=
    ⟨true, _, rfl, _, _, rfl, 5, _, rfl, false, _, rfl, true, _, rfl, true, _, rfl, (0, 0), _, rfl,
      true, _, rfl, rfl, rfl⟩
  refine ⟨_, _, _, hrun, rfl, rfl, ?_⟩
  intro hgivenUp
  exact hgivenUp.spared 0 (by decide) (by decide)

/-- With one entry everything is given up. -/
theorem rhizofsReaddir_givenUp_one : ∃ tr rc h',
    ((rhizofsReaddir [47]) .empty).Traces tr (rc, h') ∧ GivenUp .empty h' := by
  have hrun : ((rhizofsReaddir [47]) .empty).Traces (listingTrace [])
      (0, Heap.empty.alloc.alloc.give {0, 1}) :=
    ⟨true, _, rfl, _, _, rfl, 5, _, rfl, false, _, rfl, true, _, rfl, true, _, rfl, (0, 0), _, rfl,
      true, _, rfl, rfl, rfl⟩
  refine ⟨_, _, _, hrun, (rhizofsReaddir_givenUp_iff Heap.accounts_empty hrun).mpr ?_⟩
  rintro ⟨-, response, err, hexchanged, ⟨attrs, hget, -⟩ | ⟨n, hlast⟩⟩
  · have heq : some (some (listingWith []), (0 : ℤ)) = some (some response, err) := hexchanged
    obtain ⟨rfl, rfl⟩ : listingWith [] = response ∧ 0 = err := by simpa using heq
    simp [listingTrace, accepted, listingWith] at hget
  · simp [listingTrace] at hlast

end Rhizofs.Ownership
