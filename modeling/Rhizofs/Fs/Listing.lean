import Rhizofs.Fs.Payload
import Rhizofs.Fs.Prefetch
import Rhizofs.Server.RegularFile

/-!
# Listing a directory while entries vanish

`ServeDir_op_readdir` skips an entry whose status is gone, but leaves the error of its `lstat` in
the response, and with an error `Rhizofs_readdir` drops the whole listing. Here all calls succeed
except that the status of an entry may be gone (`Tree.Vanishing`). `readdir_lists_iff` says when the
caller gets the names of the remaining entries.
-/

namespace Rhizofs

open Extern

namespace Tree

variable (tree : Tree)

/-- The answers of a system where only the `lstat` of an entry may fail. -/
def Vanishing : (c : SysCall) → SysRet c → Prop
  | .lstat path, r => r = tree.lstat path
  | .getuid, uid => uid = tree.uid
  | .ngroups, r => r = .ok tree.groups.length
  | .getgroups _, r => r = .ok tree.groups
  | c, r => c.Succeeded r

/-- The names that a pass over a directory yields. -/
def pass : Event SysRet → Option (List CString)
  | ⟨.readdir _, (names, _)⟩ => some names
  | _ => none

/-- The attributes of an entry, if it is still there. -/
def entry (dirpath name : CString) : Option Attrs :=
  match tree.lstat (joined dirpath name) with
  | .ok sb => some (tree.attrsOf sb (some name))
  | .error _ => none

/-- The entry has a status. -/
def Remains (dirpath name : CString) : Prop := (tree.entry dirpath name).isSome

/-- The interface of this system, which notes the passes over directories. -/
abbrev vanishingSpec : Spec SysRet (List (List CString)) := Prog.observing tree.Vanishing pass

/-! ## The server -/

section Server

variable {tree} {α β : Type} {Q : α → List (List CString) → Prop} {passes : List (List CString)}

/-- A function that only allocates returns what it does with memory available. -/
theorem wp_vanishing_mem_bind {p : Prog MemRet β} {f : β → Prog SysRet α}
    (h : (f (p.exec allocAll ()).1).wp tree.vanishingSpec Q passes) :
    (mem p >>= f).wp tree.vanishingSpec Q passes := by
  induction p with
  | ret b => exact h
  | call c k ih =>
    refine Prog.wp_unobserved_bind (fun _ => rfl) fun ok hok => ?_
    obtain rfl : ok = true := hok
    exact ih true h

theorem wp_vanishing_posixCurrentUserInGroup {gid : ℕ} :
    (posixCurrentUserInGroup gid).wp tree.vanishingSpec
      (fun r passes' => r = some (tree.groups.contains gid) ∧ passes' = passes) passes := by
  refine Prog.wp_unobserved_bind (fun _ => rfl) fun nGroups hn => ?_
  obtain rfl : nGroups = .ok tree.groups.length := hn
  refine Prog.wp_unobserved_bind (fun _ => rfl) fun ok hok => ?_
  obtain rfl : ok = true := hok
  refine Prog.wp_unobserved_bind (fun _ => rfl) fun groups hg => ?_
  obtain rfl : groups = .ok tree.groups := hg
  simp

theorem wp_vanishing_attrs_create {sb : Stat} {name : CString} :
    (Attrs.create sb (some name)).wp tree.vanishingSpec
      (fun r passes' => r = some (tree.attrsOf sb (some name)) ∧ passes' = passes) passes := by
  refine Prog.wp_unobserved_bind (fun _ => rfl) fun ok hok => ?_
  obtain rfl : ok = true := hok
  refine wp_vanishing_mem_bind (wp_vanishing_mem_bind (wp_vanishing_mem_bind ?_))
  refine Prog.wp_unobserved_bind (fun _ => rfl) fun uid huid => ?_
  obtain rfl : uid = tree.uid := huid
  apply Prog.wp_seq _ wp_vanishing_posixCurrentUserInGroup
  rintro _ _ ⟨rfl, rfl⟩
  exact ⟨rfl, rfl⟩

variable {response : Response}

/-- The filling pass adds the entries that remain, and keeps the response free of errors exactly
when all of them do. -/
theorem wp_vanishing_fillEntries {dirpath : CString} {names : List CString} :
    (ServeDir.fillEntries dirpath names response).wp tree.vanishingSpec
      (fun out passes' => out.1 = true ∧ passes' = passes ∧
        out.2.directoryEntries =
          response.directoryEntries ++ names.filterMap (tree.entry dirpath) ∧
        (out.2.errnotype = .none ↔
          response.errnotype = .none ∧ ∀ name ∈ names, tree.Remains dirpath name)) passes := by
  induction names generalizing response with
  | nil => simp [ServeDir.fillEntries]
  | cons name names ih =>
    apply wp_vanishing_mem_bind
    rw [exec_pathJoin]
    refine Prog.wp_unobserved_bind (fun _ => rfl) fun r hr => ?_
    obtain rfl : r = tree.lstat (joined dirpath name) := hr
    cases hstat : tree.lstat (joined dirpath name) with
    | error e =>
      refine Prog.wp_mono _ ?_ ih
      rintro out _ ⟨hdone, rfl, hentries, herr⟩
      have hgone : tree.entry dirpath name = none := by simp [entry, hstat]
      refine ⟨hdone, rfl, ?_, ?_⟩
      · rw [hentries, List.filterMap_cons_none hgone]
        rfl
      · have hset := response.setErrno_errnotype_ne e
        simp [herr, hset, Remains, hgone]
    | ok sb =>
      apply Prog.wp_seq _ wp_vanishing_attrs_create
      rintro _ _ ⟨rfl, rfl⟩
      refine Prog.wp_mono _ ?_ ih
      rintro out _ ⟨hdone, rfl, hentries, herr⟩
      have hentry : tree.entry dirpath name = some (tree.attrsOf sb (some name)) := by
        simp [entry, hstat]
      refine ⟨hdone, rfl, ?_, ?_⟩
      · rw [hentries, List.filterMap_cons_some hentry, List.append_assoc, List.singleton_append]
      · simp [herr, Remains, hentry]

/-- What the handler of a READDIR answers with. -/
theorem wp_vanishing_opReaddir {sd : ServeDir} {request : Request} {path : CString}
    (hpath : request.path = some path) (herr : response.errnotype = .none) :
    (ServeDir.opReaddir sd request response).wp tree.vanishingSpec
      (fun out passes' => ∃ counted names, passes' = passes ++ [counted, names] ∧
        out.2.directoryEntries = names.filterMap (tree.entry (joined sd.directory path)) ∧
        (out.2.errnotype = .none ↔ ∀ name ∈ names, tree.Remains (joined sd.directory path) name))
      passes := by
  unfold ServeDir.opReaddir ServeDir.fullpath
  simp only [hpath]
  apply wp_vanishing_mem_bind
  rw [exec_pathJoin]
  refine Prog.wp_unobserved_bind (fun _ => rfl) fun opened hopened => ?_
  cases opened with
  | error e => cases hopened
  | ok opened =>
    refine Prog.wp_observing_bind fun counted _ => ?_
    refine Prog.wp_unobserved_bind (fun _ => rfl) fun ok hok => ?_
    obtain rfl : ok = true := hok
    refine Prog.wp_unobserved_bind (fun _ => rfl) fun _ _ => ?_
    refine Prog.wp_observing_bind fun listed _ => ?_
    apply Prog.wp_seq _ wp_vanishing_fillEntries
    rintro out _ ⟨hdone, rfl, hentries, hnone⟩
    refine Prog.wp_unobserved_bind (fun _ => rfl) fun _ _ => ?_
    refine ⟨counted.1, listed.1, ?_, hentries, ?_⟩
    · simp [pass]
    · simpa [herr] using hnone

/-- **The response to a READDIR**, whose passes found `counted` and `names`. -/
theorem response_of_handle {lz4 : Lz4} {sd : ServeDir} {path : CString} {rc : ℤ}
    {counted names : List CString} {tr : Trace}
    (h : (ServeDir.handle lz4 sd (some { Request.initial with
      path := some path
      requesttype := .readdir })).Traces tr (some (rc, response)))
    (hcalls : ∀ ev ∈ tr, tree.Vanishing ev.1 ev.2)
    (hpasses : tr.filterMap pass = [counted, names]) :
    response.directoryEntries = names.filterMap (tree.entry (joined sd.directory path)) ∧
      (response.errnotype = .none ↔
        ∀ name ∈ names, tree.Remains (joined sd.directory path) name) := by
  have hhandle : (ServeDir.handle lz4 sd (some { Request.initial with
      path := some path
      requesttype := .readdir })).wp tree.vanishingSpec (fun out passes =>
        ∀ rc response, out = some (rc, response) → ∃ counted names, passes = [counted, names] ∧
          response.directoryEntries = names.filterMap (tree.entry (joined sd.directory path)) ∧
          (response.errnotype = .none ↔
            ∀ name ∈ names, tree.Remains (joined sd.directory path) name)) [] := by
    apply wp_vanishing_mem_bind
    apply Prog.wp_seq _ (wp_vanishing_opReaddir rfl rfl)
    rintro out _ ⟨counted, names, rfl, hout⟩ rc response ⟨⟩
    exact ⟨counted, names, rfl, hout⟩
  obtain ⟨counted', names', heq, hout⟩ := Prog.wp_observing_traces hhandle h hcalls rc response rfl
  obtain ⟨rfl, rfl⟩ : counted = counted' ∧ names = names' := by simpa [hpasses] using heq
  exact hout

end Server

/-! ## The client -/

/-- The answers to a client that gets this response, when nothing else fails and the caller's buffer
takes all names. -/
def Delivers (response : Response) : (c : ClientCall) → ClientRet c → Prop
  | .communicate _, answer => answer = (some response, response.getErrno)
  | .alloc _, ok => ok = true
  | .time, currentTime => currentTime ≠ -1
  | .filler _, stop => stop = false
  | .cacheSet _ _, ok => ok = true
  | _, _ => True

/-- The interface of this client, which notes the names handed to the filler. -/
abbrev deliverySpec (response : Response) : Spec ClientRet (List CString) :=
  Prog.observing (Delivers response) handed

section Client

variable {α β : Type} {Q : α → List CString → Prop} {names : List CString} {response : Response}

theorem wp_delivery_filler_bind {name : CString} {f : Bool → Prog ClientRet α}
    (h : (f false).wp (deliverySpec response) Q (names ++ [name])) :
    (client (.filler name) >>= f).wp (deliverySpec response) Q names := by
  refine Prog.wp_observing_call fun stop hstop => ?_
  obtain rfl : stop = false := hstop
  exact h

theorem wp_delivery_clientMem_bind {p : Prog MemRet β} {f : β → Prog ClientRet α}
    (h : (f (p.exec allocAll ()).1).wp (deliverySpec response) Q names) :
    (clientMem p >>= f).wp (deliverySpec response) Q names := by
  induction p with
  | ret b => exact h
  | call c k ih =>
    refine Prog.wp_unobserved_bind (fun _ => rfl) fun ok hok => ?_
    obtain rfl : ok = true := hok
    exact ih true h

/-- The attributes have a name and all timestamps, like those of the server. -/
def Complete (attrs : Attrs) : Prop := attrs.name.isSome ∧ attrs.timestamps.creationSec.isSome

theorem wp_delivery_readdirCache {path name : CString} {currentTime : ℤ} {attrs : Attrs}
    (hattrs : Complete attrs) :
    (readdirCache path currentTime attrs name).wp (deliverySpec response)
      (fun ok names' => ok = true ∧ names' = names) names := by
  apply wp_delivery_clientMem_bind
  rw [exec_pathJoin]
  refine Prog.wp_unobserved_bind (fun _ => rfl) fun ok hok => ?_
  obtain rfl : ok = true := hok
  refine Prog.wp_unobserved_bind (fun _ => rfl) fun user _ => ?_
  have hconv : (attrs.toStat user.1 user.2).1 = true := by
    have hfst : attrs.copyToStat.1 = true := by rw [Attrs.copyToStat_fst, hattrs.2]
    simp [Attrs.toStat, hfst]
  rcases hstat : attrs.toStat user.1 user.2 with ⟨ok, stat⟩
  obtain rfl : ok = true := by simpa [hstat] using hconv
  simp only [Prog.pure_eq]
  refine Prog.wp_unobserved_bind (fun _ => rfl) fun ok hok => ?_
  exact ⟨hok, rfl⟩

/-- The loop of `Rhizofs_readdir` hands all names to the filler. -/
theorem wp_delivery_readdirEntries {path : CString} {currentTime : ℤ} {entries : List Attrs}
    (hentries : ∀ attrs ∈ entries, Complete attrs) :
    (readdirEntries path currentTime entries).wp (deliverySpec response)
      (fun ok names' => ok = true ∧ names' = names ++ entries.filterMap (·.name)) names := by
  induction entries generalizing names with
  | nil => simp [readdirEntries]
  | cons attrs entries ih =>
    obtain ⟨hattrs, htail⟩ := List.forall_mem_cons.mp hentries
    obtain ⟨name, hname⟩ := Option.isSome_iff_exists.mp hattrs.1
    simp only [readdirEntries, hname, List.filterMap_cons]
    apply wp_delivery_filler_bind
    apply Prog.wp_seq _ (wp_delivery_readdirCache hattrs)
    rintro _ _ ⟨rfl, rfl⟩
    refine Prog.wp_mono _ ?_ (ih htail)
    rintro ok _ ⟨hok, rfl⟩
    exact ⟨hok, by rw [List.append_assoc, List.singleton_append]⟩

/-- **What `Rhizofs_readdir` hands to the filler** is nothing when the response has an error, and
else the names in the response. -/
theorem handed_of_readdir {path : CString} {tr : List (Event ClientRet)} {ret : ℤ}
    (h : (rhizofsReaddir path).Traces tr ret)
    (hdelivers : ∀ ev ∈ tr, Delivers response ev.1 ev.2)
    (hentries : ∀ attrs ∈ response.directoryEntries, Complete attrs) :
    tr.filterMap handed =
      if response.errnotype = .none then response.directoryEntries.filterMap (·.name) else [] := by
  have hwp : (rhizofsReaddir path).wp (deliverySpec response) (fun _ names => names =
      if response.errnotype = .none then response.directoryEntries.filterMap (·.name) else [])
      [] := by
    refine Prog.wp_unobserved_bind (fun _ => rfl) fun ok hok => ?_
    obtain rfl : ok = true := hok
    refine Prog.wp_unobserved_bind (fun _ => rfl) fun answer hanswer => ?_
    obtain rfl : answer = (some response, response.getErrno) := hanswer
    by_cases herr : response.errnotype = .none
    · have hzero : response.getErrno = 0 := Response.getErrno_eq_zero herr
      simp only [Prog.bind, Prog.pure_eq, hzero, ne_eq, not_true_eq_false, if_false]
      refine Prog.wp_unobserved_bind (fun _ => rfl) fun currentTime htime => ?_
      have htime' : currentTime ≠ -1 := htime
      simp only [if_neg htime']
      apply Prog.wp_seq _ (wp_delivery_readdirEntries hentries)
      rintro ok _ ⟨-, rfl⟩
      simp [herr]
    · have hne : response.getErrno ≠ 0 := mt (Errno.toLocal_eq_zero_iff _).mp herr
      simp [Prog.bind, hne, herr]
  exact Prog.wp_observing_traces hwp h hdelivers

end Client

theorem complete_entry {tree : Tree} {dirpath name : CString} {attrs : Attrs}
    (h : tree.entry dirpath name = some attrs) : Complete attrs ∧ attrs.name = some name := by
  unfold entry at h
  cases hstat : tree.lstat (joined dirpath name) with
  | error e => simp [hstat] at h
  | ok sb =>
    obtain rfl : tree.attrsOf sb (some name) = attrs := by simpa [hstat] using h
    exact ⟨⟨rfl, rfl⟩, rfl⟩

/-- The names of the entries that remain. -/
theorem names_of_entries (tree : Tree) (dirpath : CString) (names : List CString) :
    (names.filterMap (tree.entry dirpath)).filterMap (·.name) =
      names.filter fun name => (tree.entry dirpath name).isSome := by
  induction names with
  | nil => rfl
  | cons name names ih =>
    cases hentry : tree.entry dirpath name with
    | none => rw [List.filterMap_cons_none hentry, ih, List.filter_cons_of_neg (by simp [hentry])]
    | some attrs =>
      rw [List.filterMap_cons_some hentry, List.filter_cons_of_pos (by simp [hentry]),
        List.filterMap_cons_some (complete_entry hentry).2, ih]

end Tree

open Rhizofs.Tree in
/-- **When a listing is complete.** A READDIR whose passes find `counted` and then `names` is
served while the status of some of the names is gone, nothing else fails, and the client lists the
response. The response is free of errors with the attributes of the remaining entries in order, and
the client hands exactly their names to the filler, if and only if no entry is gone. -/
theorem readdir_lists_iff (lz4 : Lz4) (sd : ServeDir) (tree : Tree) (path : CString)
    (counted names : List CString) (trs : Trace) (rc : ℤ) (response : Response)
    (hserved : (ServeDir.handle lz4 sd (some { Request.initial with
      path := some path
      requesttype := .readdir })).Traces trs (some (rc, response)))
    (hcalls : ∀ ev ∈ trs, tree.Vanishing ev.1 ev.2)
    (hpasses : trs.filterMap pass = [counted, names])
    (trc : List (Event ClientRet)) (ret : ℤ) (hclient : (rhizofsReaddir path).Traces trc ret)
    (hdelivers : ∀ ev ∈ trc, Delivers response ev.1 ev.2) :
    (response.errnotype = .none ∧
      response.directoryEntries = names.filterMap (tree.entry (joined sd.directory path)) ∧
      trc.filterMap handed =
        names.filter fun name => (tree.entry (joined sd.directory path) name).isSome) ↔
      ∀ name ∈ names, tree.Remains (joined sd.directory path) name := by
  obtain ⟨hentries, herr⟩ := response_of_handle hserved hcalls hpasses
  constructor
  · rintro ⟨hnone, -⟩
    exact herr.mp hnone
  · intro hall
    have hnone := herr.mpr hall
    refine ⟨hnone, hentries, ?_⟩
    have hcomplete : ∀ attrs ∈ response.directoryEntries, Complete attrs := by
      intro attrs hmem
      rw [hentries] at hmem
      obtain ⟨name, -, hentry⟩ := List.mem_filterMap.mp hmem
      exact (complete_entry hentry).1
    rw [handed_of_readdir hclient hdelivers hcomplete, if_pos hnone, hentries, names_of_entries]

/-! ## Two listings of one directory -/

/-- The root of `/s` with the file `f` is listed completely. -/
theorem readdir_lists_iff_file : ∃ trs rc response trc ret,
    (ServeDir.handle .onRun ⟨[47, 115]⟩ (some { Request.initial with
      path := some [47]
      requesttype := .readdir })).Traces trs (some (rc, response)) ∧
    (rhizofsReaddir [47]).Traces trc ret ∧ response.errnotype = .none ∧
      trc.filterMap handed = [[102]] := by
  have hserved : (ServeDir.handle .onRun ⟨[47, 115]⟩ (some { Request.initial with
      path := some [47]
      requesttype := .readdir })).Traces _ (some (0, listingOfFile)) :=
    ⟨true, _, rfl, true, _, rfl, true, _, rfl, .ok (), _, rfl, ([[102]], none), _, rfl,
      true, _, rfl, (), _, rfl, ([[102]], none), _, rfl, true, _, rfl,
      .ok { Stat.zero with stMode := S_IFREG ||| 0o644, stUid := 5 }, _, rfl,
      true, _, rfl, true, _, rfl, true, _, rfl, true, _, rfl, true, _, rfl, true, _, rfl,
      true, _, rfl, (5 : ℕ), _, rfl, .ok 0, _, rfl, true, _, rfl, .ok [], _, rfl, (), _, rfl, rfl,
      rfl⟩
  have hclient : (rhizofsReaddir [47]).Traces _ 0 :=
    ⟨true, _, rfl, (some listingOfFile, 0), _, rfl, (100 : ℤ), _, rfl, false, _, rfl, true, _, rfl,
      true, _, rfl, (1, 2), _, rfl, true, _, rfl, rfl, rfl⟩
  have hlists :=
    readdir_lists_iff .onRun ⟨[47, 115]⟩ treeOfFile [47] [[102]] [[102]] _ 0 listingOfFile
    hserved ?_ rfl _ 0 hclient ?_
  · have hall : ∀ name ∈ [[102]], treeOfFile.Remains (joined [47, 115] [47]) name := by
      simp [Tree.Remains, Tree.entry, treeOfFile, joined, joinPlan, PATH_SEP]
    obtain ⟨hnone, -, hhanded⟩ := hlists.mpr hall
    exact ⟨_, 0, listingOfFile, _, 0, hserved, hclient, hnone, hhanded⟩
  · simp [Tree.Vanishing, SysCall.Succeeded, treeOfFile, joined, joinPlan, PATH_SEP]
    rfl
  · simp [Tree.Delivers, Response.getErrno, listingOfFile]
    rfl

/-- When the entry `g` is gone, the client gets nothing of a listing with `f` and `g`, although `f`
remains. -/
theorem readdir_not_lists : ∃ trs rc response trc ret,
    (ServeDir.handle .onRun ⟨[47, 115]⟩ (some { Request.initial with
      path := some [47]
      requesttype := .readdir })).Traces trs (some (rc, response)) ∧
    (∀ ev ∈ trs, treeOfFile.Vanishing ev.1 ev.2) ∧
    trs.filterMap Tree.pass = [[[102], [103]], [[102], [103]]] ∧
    (rhizofsReaddir [47]).Traces trc ret ∧ (∀ ev ∈ trc, Tree.Delivers response ev.1 ev.2) ∧
    treeOfFile.Remains [47, 115, 47] [102] ∧
    response.errnotype ≠ .none ∧ trc.filterMap handed = [] := by
  refine ⟨_, 0, { listingOfFile with errnotype := .noent },
    [⟨.alloc .record, true⟩, ⟨.communicate { Request.initial with
        path := some [47]
        requesttype := .readdir }, (some { listingOfFile with errnotype := .noent }, ENOENT)⟩],
    -ENOENT,
    ⟨true, _, rfl, true, _, rfl, true, _, rfl, .ok (), _, rfl, ([[102], [103]], none), _, rfl,
      true, _, rfl, (), _, rfl, ([[102], [103]], none), _, rfl, true, _, rfl,
      .ok { Stat.zero with stMode := S_IFREG ||| 0o644, stUid := 5 }, _, rfl,
      true, _, rfl, true, _, rfl, true, _, rfl, true, _, rfl, true, _, rfl, true, _, rfl,
      true, _, rfl, (5 : ℕ), _, rfl, .ok 0, _, rfl, true, _, rfl, .ok [], _, rfl, true, _, rfl,
      .error ⟨ENOENT, by decide⟩, _, rfl, (), _, rfl, rfl, rfl⟩,
    ?_, rfl, ⟨true, _, rfl, (_, ENOENT), _, rfl, rfl, rfl⟩, ?_, ?_, by decide, rfl⟩
  · simp [Tree.Vanishing, SysCall.Succeeded, treeOfFile, joined, joinPlan, PATH_SEP]
    rfl
  · simp [Tree.Delivers, Response.getErrno, ENOENT]
    rfl
  · simp [Tree.Remains, Tree.entry, treeOfFile, joined, joinPlan, PATH_SEP]

end Rhizofs
