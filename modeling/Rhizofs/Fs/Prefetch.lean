import Rhizofs.Fs.Operations
import Rhizofs.Server.Trace

/-!
# Prefetched attributes

`Rhizofs_readdir` stores the attributes of every entry in the cache before anyone asks for them.
While the tree on the server does not change (`Tree`), this is what `Rhizofs_getattr_remote` of the
entry would store: both sides join the same path (`joined_assoc`), build the same attributes
(`Tree.attrsOf`) and use the same key (`joined_name`), and no two entries share a key
(`childPath_injective`). The result is `prefetch_agrees`.
-/

namespace Rhizofs

open Extern

/-! ## Paths of entries -/

/-- A directory as FUSE names it: the root, or an absolute path that does not end in a separator. -/
def DirPath (dir : CString) : Prop :=
  dir = [PATH_SEP] ∨ dir.head? = some PATH_SEP ∧ dir.getLast? ≠ some PATH_SEP

/-- The name of a directory entry. -/
def FileName (name : CString) : Prop := name ≠ [] ∧ PATH_SEP ∉ name

/-- The path that FUSE passes for an entry of a directory. -/
def childPath (dir name : CString) : CString :=
  (if dir = [PATH_SEP] then [] else dir) ++ PATH_SEP :: name

section Paths

variable {dir dir' name name' : CString}

theorem FileName.head?_ne (hname : FileName name) : name.head? ≠ some PATH_SEP :=
  fun h => hname.2 (List.mem_of_mem_head? (by simp [h]))

theorem DirPath.head? (hdir : DirPath dir) : dir.head? = some PATH_SEP := by
  rcases hdir with rfl | ⟨hhead, -⟩
  · rfl
  · exact hhead

/-- `path_join` builds the path that FUSE uses. -/
theorem joined_name (hdir : DirPath dir) (hname : FileName name) :
    joined dir name = childPath dir name := by
  rcases hdir with rfl | ⟨hhead, hlast⟩
  · exact joined_of_getLast_sep rfl
  · have hne : dir ≠ [] := by
      rintro rfl
      cases hhead
    have hroot : dir ≠ [PATH_SEP] := by
      rintro rfl
      exact hlast rfl
    rw [joined_of_no_sep hne hlast hname.head?_ne, childPath, if_neg hroot]

/-- **Joining is associative** over a directory and an entry, below every root. -/
theorem joined_assoc (root : CString) (hdir : DirPath dir) (hname : FileName name) :
    joined (joined root dir) name = joined root (joined dir name) := by
  rw [joined_of_head_sep hdir.head?]
  rcases hdir with rfl | ⟨hhead, hlast⟩
  · have hroot : ([PATH_SEP] : CString).getLast? = some PATH_SEP := rfl
    rw [joined_of_getLast_sep (by simp), joined_of_getLast_sep hroot, joined_of_head_sep rfl,
      List.append_assoc]
  · have hne : dir ≠ [] := by
      rintro rfl
      cases hhead
    have hlast' : (root ++ dir).getLast? ≠ some PATH_SEP := by
      rwa [List.getLast?_append_of_ne_nil _ hne]
    have hhead' : (dir ++ PATH_SEP :: name).head? = some PATH_SEP := by
      rw [List.head?_append, hhead]
      rfl
    rw [joined_of_no_sep (by simp [hne]) hlast' hname.head?_ne,
      joined_of_no_sep hne hlast hname.head?_ne, joined_of_head_sep hhead', List.append_assoc]

/-- The last separator of a path tells the directory from the name. -/
theorem append_sep_inj {a a' : CString} (hname : PATH_SEP ∉ name) (hname' : PATH_SEP ∉ name')
    (h : a ++ PATH_SEP :: name = a' ++ PATH_SEP :: name') : a = a' ∧ name = name' := by
  rcases List.append_eq_append_iff.mp h with ⟨as, rfl, hcons⟩ | ⟨as, rfl, hcons⟩
  all_goals
    cases as with
    | nil => simpa [eq_comm] using hcons
    | cons c as =>
      obtain ⟨rfl, heq⟩ := List.cons.inj hcons
      simp [heq] at hname hname'

/-- **Distinct entries have distinct keys.** -/
theorem childPath_injective (hdir : DirPath dir) (hdir' : DirPath dir') (hname : FileName name)
    (hname' : FileName name') (h : childPath dir name = childPath dir' name') :
    dir = dir' ∧ name = name' := by
  have hne : ∀ {d : CString}, DirPath d → d ≠ [] := by
    rintro d hd rfl
    cases hd.head?
  obtain ⟨hstem, rfl⟩ := append_sep_inj hname.2 hname'.2 h
  refine ⟨?_, rfl⟩
  split_ifs at hstem with h₁ h₂ h₂
  · rw [h₁, h₂]
  · exact absurd hstem.symm (hne hdir')
  · exact absurd hstem (hne hdir)
  · exact hstem

end Paths

/-! ## An unchanged tree -/

/-- What the server process sees of a tree that nobody changes. -/
structure Tree where
  lstat : CString → Except Failure Stat
  uid : ℕ
  groups : List ℕ

namespace Tree

variable (tree : Tree)

/-- The answers of a system with this tree. Other calls may answer anything, and the group lookup
may fail. -/
def Answers : (c : SysCall) → SysRet c → Prop
  | .lstat path, r => r = tree.lstat path
  | .readdir _, (names, _) => ∀ name ∈ names, FileName name
  | .getuid, uid => uid = tree.uid
  | .ngroups, .ok nGroups => nGroups = tree.groups.length
  | .getgroups _, .ok groups => groups = tree.groups
  | _, _ => True

/-- The attributes that the server sends for a status. -/
def attrsOf (sb : Stat) (name : Option CString) : Attrs :=
  .ofStat sb (.ofMode sb.stMode) tree.uid (tree.groups.contains sb.stGid) name

/-- An entry of the listing of a directory. -/
def Lists (dirpath : CString) (attrs : Attrs) : Prop :=
  ∃ name sb, FileName name ∧ tree.lstat (joined dirpath name) = .ok sb ∧
    attrs = tree.attrsOf sb (some name)

/-- The interface of the system. -/
def spec : Spec SysRet Unit where
  pre _ _ := True
  step c _ r _ := tree.Answers c r

variable {tree} {α β : Type} {Q : α → Unit → Prop}

theorem wp_sys_bind {c : SysCall} {f : SysRet c → Prog SysRet α}
    (h : ∀ r, tree.Answers c r → (f r).wp tree.spec Q ()) :
    (sys c >>= f).wp tree.spec Q () := ⟨trivial, fun r _ hr => h r hr⟩

/-- A function that only allocates may return what its traces do. -/
theorem wp_mem_bind {p : Prog MemRet β} {f : β → Prog SysRet α}
    (h : ∀ b tr, p.Traces tr b → (f b).wp tree.spec Q ()) :
    (mem p >>= f).wp tree.spec Q () := by
  induction p with
  | ret b => exact h b [] ⟨rfl, rfl⟩
  | call c k ih => exact ⟨trivial, fun ok _ _ => ih ok fun b tr ht => h b _ ⟨ok, tr, rfl, ht⟩⟩

theorem wp_pathJoin_bind {path1 path2 : CString} {f : Option CString → Prog SysRet α}
    (hnone : (f none).wp tree.spec Q ())
    (hsome : (f (some (joined path1 path2))).wp tree.spec Q ()) :
    (mem (pathJoin path1 path2) >>= f).wp tree.spec Q () := by
  refine wp_mem_bind fun path tr ht => ?_
  obtain ⟨ok, tr', rfl, ht⟩ := ht
  cases ok with
  | false =>
    obtain ⟨-, rfl⟩ := ht
    exact hnone
  | true =>
    obtain ⟨-, rfl⟩ := ht
    exact hsome

theorem traces_permissions_create {mode : ℕ} {tr : List (Event MemRet)}
    {permissions : Option Permissions} (h : (Permissions.create mode).Traces tr permissions) :
    permissions = none ∨ permissions = some (.ofMode mode) := by
  obtain ⟨ok, tr, rfl, h⟩ := h
  cases ok with
  | false => exact .inl h.2
  | true =>
    obtain ⟨ok, tr, rfl, h⟩ := h
    cases ok with
    | false => exact .inl h.2
    | true =>
      obtain ⟨ok, tr, rfl, h⟩ := h
      cases ok with
      | false => exact .inl h.2
      | true =>
        obtain ⟨ok, tr, rfl, h⟩ := h
        cases ok with
        | false => exact .inl h.2
        | true => exact .inr h.2

/-- The group lookup finds the groups of the process. -/
theorem wp_posixCurrentUserInGroup {gid : ℕ} :
    (posixCurrentUserInGroup gid).wp tree.spec
      (fun r _ => r = none ∨ r = some (tree.groups.contains gid)) () := by
  refine wp_sys_bind fun nGroups hn => ?_
  cases nGroups with
  | error e => exact .inl rfl
  | ok nGroups =>
    refine wp_sys_bind fun ok _ => ?_
    cases ok with
    | false => exact .inl rfl
    | true =>
      refine wp_sys_bind fun groups hg => ?_
      cases groups with
      | error e => exact .inl rfl
      | ok groups =>
        obtain rfl : nGroups = tree.groups.length := hn
        obtain rfl : groups = tree.groups := hg
        right
        simp

/-- `Attrs_create` builds the attributes of the status, or nothing. -/
theorem wp_attrs_create {sb : Stat} {name : Option CString} :
    (Attrs.create sb name).wp tree.spec
      (fun r _ => r = none ∨ r = some (tree.attrsOf sb name)) () := by
  refine wp_sys_bind fun ok _ => ?_
  cases ok with
  | false => exact .inl rfl
  | true =>
    refine wp_mem_bind fun ok _ _ => ?_
    cases ok with
    | false => exact .inl rfl
    | true =>
      refine wp_mem_bind fun permissions _ hp => ?_
      obtain rfl | rfl := traces_permissions_create hp
      · exact .inl rfl
      refine wp_mem_bind fun timestamps _ _ => ?_
      cases timestamps with
      | none => exact .inl rfl
      | some timestamps =>
        refine wp_sys_bind fun uid huid => ?_
        obtain rfl : uid = tree.uid := huid
        apply Prog.wp_seq _ wp_posixCurrentUserInGroup
        rintro _ _ (rfl | rfl)
        · exact .inl rfl
        · exact .inr rfl

/-! ## The two handlers -/

section Handlers

variable {lz4 : Lz4} {sd : ServeDir} {request : Request} {response : Response} {path : CString}

theorem wp_fullpath_bind (hpath : request.path = some path)
    {f : Option CString → Prog SysRet α} (hnone : (f none).wp tree.spec Q ())
    (hsome : (f (some (joined sd.directory path))).wp tree.spec Q ()) :
    (sd.fullpath request >>= f).wp tree.spec Q () := by
  simp only [ServeDir.fullpath, hpath]
  exact wp_pathJoin_bind hnone hsome

theorem wp_opGetattr (hpath : request.path = some path) (hnone : response.attrs = none) :
    (ServeDir.opGetattr sd request response).wp tree.spec
      (fun out _ => ∀ attrs, out.2.attrs = some attrs →
        ∃ sb, tree.lstat (joined sd.directory path) = .ok sb ∧
          attrs = tree.attrsOf sb none) () := by
  apply wp_fullpath_bind hpath (by simp [hnone])
  refine wp_sys_bind fun r hr => ?_
  obtain rfl : r = tree.lstat (joined sd.directory path) := hr
  cases hstat : tree.lstat (joined sd.directory path) with
  | error e => simp [Response.setErrno, hnone]
  | ok sb =>
    apply Prog.wp_seq _ wp_attrs_create
    rintro _ _ (rfl | rfl)
    · simp [hnone]
    · simp

theorem wp_fillEntries {dirpath : CString} {names : List CString}
    (hnames : ∀ name ∈ names, FileName name)
    (hentries : ∀ attrs ∈ response.directoryEntries, tree.Lists dirpath attrs) :
    (ServeDir.fillEntries dirpath names response).wp tree.spec
      (fun out _ => ∀ attrs ∈ out.2.directoryEntries, tree.Lists dirpath attrs) () := by
  induction names generalizing response with
  | nil => exact hentries
  | cons name names ih =>
    obtain ⟨hname, hnames⟩ := List.forall_mem_cons.mp hnames
    refine wp_pathJoin_bind hentries ?_
    refine wp_sys_bind fun r hr => ?_
    obtain rfl : r = tree.lstat (joined dirpath name) := hr
    cases hstat : tree.lstat (joined dirpath name) with
    | error e => exact ih hnames hentries
    | ok sb =>
      apply Prog.wp_seq _ wp_attrs_create
      rintro _ _ (rfl | rfl)
      · exact hentries
      · refine ih hnames fun attrs hmem => ?_
        rcases List.mem_append.mp hmem with hmem | hmem
        · exact hentries attrs hmem
        · obtain rfl := List.mem_singleton.mp hmem
          exact ⟨name, sb, hname, hstat, rfl⟩

theorem wp_opReaddir (hpath : request.path = some path) :
    (ServeDir.opReaddir sd request response).wp tree.spec
      (fun out _ => ∀ attrs ∈ out.2.directoryEntries,
        tree.Lists (joined sd.directory path) attrs) () := by
  apply wp_fullpath_bind hpath (by simp)
  refine wp_sys_bind fun opened _ => ?_
  cases opened with
  | error e => simp [Response.setErrno]
  | ok opened =>
    refine wp_sys_bind fun counted _ => wp_sys_bind fun ok _ => ?_
    cases ok with
    | false => exact wp_sys_bind fun _ _ => by simp
    | true =>
      refine wp_sys_bind fun _ _ => wp_sys_bind fun listed hnames => ?_
      apply Prog.wp_seq _ (wp_fillEntries hnames (by simp))
      intro out _ hout
      exact wp_sys_bind fun _ _ => hout

end Handlers

/-! ## What the client stores -/

/-- The answers that a client of this tree gets: a response is one of the server, and the user
stays the same. Everything else may answer anything. -/
def Consistent (tree : Tree) (lz4 : Lz4) (sd : ServeDir) (user : ℕ × ℕ) :
    (c : ClientCall) → ClientRet c → Prop
  | .communicate request, answer => ∀ response, answer.1 = some response →
    ∃ rc tr, (ServeDir.handle lz4 sd (some request)).Traces tr (some (rc, response)) ∧
      ∀ ev ∈ tr, tree.Answers ev.1 ev.2
  | .fuseContext, answer => answer = user
  | _, _ => True

/-- The stat that the client stores for a path. -/
def statOf (tree : Tree) (sd : ServeDir) (user : ℕ × ℕ) (path : CString) : Option Stat :=
  match tree.lstat (joined sd.directory path) with
  | .error _ => none
  | .ok sb => some ((tree.attrsOf sb none).toStat user.1 user.2).2

/-- The name handed to the filler last. -/
def handedLast (last : Option CString) : Event ClientRet → Option CString
  | ⟨.filler name, _⟩ => some name
  | _ => last

/-- The interface of the client, whose state is the name handed to the filler last, and which may
store an entry when `pre` holds. -/
def clientSpec (tree : Tree) (lz4 : Lz4) (sd : ServeDir) (user : ℕ × ℕ)
    (pre : Option CString → CString → CacheEntry → Prop) : Spec ClientRet (Option CString) where
  pre
    | .cacheSet key cacheEntry, last => pre last key cacheEntry
    | _, _ => True
  step c last r last' := tree.Consistent lz4 sd user c r ∧ last' = handedLast last ⟨c, r⟩

section Client

variable {lz4 : Lz4} {sd : ServeDir} {user : ℕ × ℕ}
  {pre : Option CString → CString → CacheEntry → Prop} {last : Option CString}

theorem wp_response_create : (mem Response.create).wp tree.spec
    (fun r _ => r = none ∨ r = some .initial) () := by
  refine ⟨trivial, fun ok _ _ => ?_⟩
  cases ok with
  | false => exact .inl rfl
  | true =>
    refine ⟨trivial, fun ok _ _ => ?_⟩
    cases ok with
    | false => exact .inl rfl
    | true => exact .inr rfl

/-- What holds after the handler holds of the response sent. -/
theorem dispatch_of_handle {request : Request} {rc : ℤ} {response : Response}
    {R : ℤ × Response → Unit → Prop}
    (hwp : (ServeDir.dispatch lz4 sd request .initial).wp tree.spec R ()) {tr : Trace}
    (h : (ServeDir.handle lz4 sd (some request)).Traces tr (some (rc, response)))
    (hans : ∀ ev ∈ tr, tree.Answers ev.1 ev.2) : R (rc, response) () := by
  have hhandle : (ServeDir.handle lz4 sd (some request)).wp tree.spec
      (fun out _ => ∀ out', out = some out' → R out' ()) () := by
    apply Prog.wp_seq _ wp_response_create
    rintro _ _ (rfl | rfl)
    · simp
    · refine Prog.wp_seq _ hwp fun out _ hout => ?_
      rintro _ ⟨⟩
      exact hout
  exact (Prog.wp_foldl (fun _ _ => ()) hhandle h fun ev hev _ => hans ev hev).1 _ rfl

/-- Every stored entry meets the precondition, at the name handed to the filler before. -/
theorem wp_clientSpec_traces {α : Type} {p : Prog ClientRet α} {Q : α → Option CString → Prop}
    (hwp : p.wp (tree.clientSpec lz4 sd user pre) Q none) {tr : List (Event ClientRet)} {a : α}
    (h : p.Traces tr a) (hcons : ∀ ev ∈ tr, tree.Consistent lz4 sd user ev.1 ev.2)
    {tr₁ tr₂ : List (Event ClientRet)} {key : CString} {cacheEntry : CacheEntry} {ok : Bool}
    (htr : tr = tr₁ ++ ⟨.cacheSet key cacheEntry, ok⟩ :: tr₂) :
    pre (tr₁.foldl handedLast none) key cacheEntry :=
  (Prog.wp_foldl handedLast hwp h fun ev hev _ => ⟨hcons ev hev, rfl⟩).2 tr₁ _ tr₂ htr

theorem wp_client_bind {α : Type} {c : ClientCall} {f : ClientRet c → Prog ClientRet α}
    {Q : α → Option CString → Prop} (hpre : (tree.clientSpec lz4 sd user pre).pre c last)
    (h : ∀ r, tree.Consistent lz4 sd user c r →
      (f r).wp (tree.clientSpec lz4 sd user pre) Q (handedLast last ⟨c, r⟩)) :
    (client c >>= f).wp (tree.clientSpec lz4 sd user pre) Q last :=
  ⟨hpre, fun r _ hr => hr.2 ▸ h r hr.1⟩

/-- An operation stores only what it does after a response of the server. -/
theorem wp_operation {α : Type} {g : Request → Request} {failed : ℤ → α}
    {use : Response → ℤ → Prog ClientRet α}
    (huse : ∀ response rc tr,
      (ServeDir.handle lz4 sd (some (g .initial))).Traces tr (some (rc, response)) →
      (∀ ev ∈ tr, tree.Answers ev.1 ev.2) →
        (use response 0).wp (tree.clientSpec lz4 sd user pre) (fun _ _ => True) last) :
    (operation (fun request => return some (g request)) failed use).wp
      (tree.clientSpec lz4 sd user pre) (fun _ _ => True) last := by
  refine wp_client_bind (c := .alloc .record) trivial fun ok _ => ?_
  cases ok with
  | false => exact trivial
  | true =>
    refine wp_client_bind trivial fun answer hanswer => ?_
    obtain ⟨response, err⟩ := answer
    by_cases herr : err = 0
    · subst herr
      cases response with
      | none => exact trivial
      | some response =>
        obtain ⟨rc, tr, hhandle, hans⟩ := hanswer response rfl
        exact huse response rc tr hhandle hans
    · simp only [Prog.bind, ne_eq, herr, not_false_eq_true, if_true]
      exact trivial

theorem wp_convertAttrsStat_bind {α : Type} {attrs : Attrs} {f : Bool × Stat → Prog ClientRet α}
    {Q : α → Option CString → Prop}
    (h : (f (attrs.toStat user.1 user.2)).wp (tree.clientSpec lz4 sd user pre) Q last) :
    (rhizofsConvertAttrsStat attrs >>= f).wp (tree.clientSpec lz4 sd user pre) Q last := by
  refine ⟨trivial, fun answer last' ⟨hanswer, hlast⟩ => ?_⟩
  obtain rfl : answer = user := hanswer
  obtain rfl : last' = last := hlast
  exact h

theorem wp_clientPathJoin_bind {α : Type} {path1 path2 : CString}
    {f : Option CString → Prog ClientRet α} {Q : α → Option CString → Prop}
    (hnone : (f none).wp (tree.clientSpec lz4 sd user pre) Q last)
    (hsome : (f (some (joined path1 path2))).wp (tree.clientSpec lz4 sd user pre) Q last) :
    (clientMem (pathJoin path1 path2) >>= f).wp (tree.clientSpec lz4 sd user pre) Q last := by
  refine ⟨trivial, fun ok last' ⟨_, hlast⟩ => ?_⟩
  obtain rfl : last' = last := hlast
  cases ok with
  | false => exact hnone
  | true => exact hsome

/-- What `Rhizofs_getattr_remote` stores. -/
theorem wp_getattrRemote {path : CString} {stbuf : Stat} :
    (rhizofsGetattrRemote path stbuf).wp (tree.clientSpec lz4 sd user fun _ key cacheEntry =>
      key = path ∧ tree.statOf sd user path = some cacheEntry.statResult)
      (fun _ _ => True) last := by
  refine wp_operation fun response rc tr hhandle hans => ?_
  have hattrs := dispatch_of_handle (wp_opGetattr rfl rfl) hhandle hans
  cases hresponse : response.attrs with
  | none => simp [getattrRemoteUse, hresponse]
  | some attrs =>
    obtain ⟨sb, hstat, rfl⟩ := hattrs attrs hresponse
    simp only [getattrRemoteUse, hresponse]
    apply wp_convertAttrsStat_bind
    rcases hconv : (tree.attrsOf sb none).toStat user.1 user.2 with ⟨converted, found⟩
    cases converted with
    | false => exact trivial
    | true =>
      refine wp_client_bind trivial fun ok _ => ?_
      cases ok with
      | false => exact trivial
      | true =>
        refine wp_client_bind trivial fun ok _ => ?_
        cases ok with
        | false => exact trivial
        | true =>
          refine wp_client_bind trivial fun currentTime _ => ?_
          by_cases htime : currentTime = -1
          · rw [if_pos htime]
            exact trivial
          · rw [if_neg htime]
            refine wp_client_bind ⟨rfl, ?_⟩ fun ok _ => ?_
            · simp [statOf, hstat, hconv]
            · cases ok <;> exact trivial

/-- What the loop of `Rhizofs_readdir` stores. -/
theorem wp_readdirEntries {dir : CString} (hdir : DirPath dir) {currentTime : ℤ}
    {entries : List Attrs}
    (hentries : ∀ attrs ∈ entries, tree.Lists (joined sd.directory dir) attrs) :
    (readdirEntries dir currentTime entries).wp
      (tree.clientSpec lz4 sd user fun last key cacheEntry => ∃ name, last = some name ∧
        FileName name ∧ key = joined dir name ∧
          tree.statOf sd user key = some cacheEntry.statResult) (fun _ _ => True) last := by
  induction entries generalizing last with
  | nil => trivial
  | cons attrs entries ih =>
    obtain ⟨⟨name, sb, hname, hstat, rfl⟩, htail⟩ := List.forall_mem_cons.mp hentries
    rw [joined_assoc _ hdir hname] at hstat
    simp only [readdirEntries, attrsOf, Attrs.ofStat]
    refine wp_client_bind trivial fun stop _ => ?_
    cases stop with
    | true => exact trivial
    | false =>
      have hcache : (readdirCache dir currentTime (tree.attrsOf sb (some name)) name).wp
          (tree.clientSpec lz4 sd user fun last key cacheEntry => ∃ name, last = some name ∧
            FileName name ∧ key = joined dir name ∧
              tree.statOf sd user key = some cacheEntry.statResult)
          (fun _ _ => True) (some name) := by
        refine wp_clientPathJoin_bind trivial ?_
        refine wp_client_bind trivial fun ok _ => ?_
        cases ok with
        | false => exact trivial
        | true =>
          apply wp_convertAttrsStat_bind
          rcases hconv : (tree.attrsOf sb (some name)).toStat user.1 user.2 with ⟨converted, found⟩
          cases converted with
          | false => exact trivial
          | true =>
            refine ⟨⟨name, rfl, hname, rfl, ?_⟩, fun _ _ _ => trivial⟩
            have hsame : (tree.attrsOf sb none).toStat user.1 user.2 = (true, found) := hconv
            simp [statOf, hstat, hsame]
      refine Prog.wp_seq _ hcache fun ok last' _ => ?_
      cases ok with
      | false => exact trivial
      | true => exact ih htail

/-- What `Rhizofs_readdir` stores. -/
theorem wp_readdir {dir : CString} (hdir : DirPath dir) :
    (rhizofsReaddir dir).wp
      (tree.clientSpec lz4 sd user fun last key cacheEntry => ∃ name, last = some name ∧
        FileName name ∧ key = joined dir name ∧
          tree.statOf sd user key = some cacheEntry.statResult) (fun _ _ => True) last := by
  refine wp_operation fun response rc tr hhandle hans => ?_
  have hentries := dispatch_of_handle (wp_opReaddir rfl) hhandle hans
  refine wp_client_bind trivial fun currentTime _ => ?_
  by_cases htime : currentTime = -1
  · rw [if_pos htime]
    exact trivial
  · rw [if_neg htime]
    exact Prog.wp_seq _ (wp_readdirEntries hdir hentries) fun _ _ _ => trivial

end Client

end Tree

open Rhizofs.Tree in
/-- **Prefetched attributes agree with fetched ones.** On an unchanged tree, whatever else fails:
each entry that a run of `Rhizofs_readdir` stores is the one of the name handed to the filler just
before, its key is the path that `Rhizofs_getattr` looks up for that name, and its stat is what
every `Rhizofs_getattr_remote` of that path stores. Distinct entries have distinct keys, and the
server's path of an entry is the joined key, for every shared directory. -/
theorem prefetch_agrees (lz4 : Lz4) (sd : ServeDir) (tree : Tree) (user : ℕ × ℕ) :
    (∀ dir, DirPath dir → ∀ tr ret, (rhizofsReaddir dir).Traces tr ret →
      (∀ ev ∈ tr, tree.Consistent lz4 sd user ev.1 ev.2) →
      ∀ tr₁ tr₂ key cacheEntry ok, tr = tr₁ ++ ⟨.cacheSet key cacheEntry, ok⟩ :: tr₂ →
        ∃ name, tr₁.foldl handedLast none = some name ∧ FileName name ∧ key = childPath dir name ∧
          (∀ stbuf tr' out, (rhizofsGetattr (childPath dir name) stbuf).Traces tr' out →
            ∃ found rest, tr' = ⟨.cacheCopyStat key, found⟩ :: rest) ∧
          ∀ stbuf tr' out, (rhizofsGetattrRemote (childPath dir name) stbuf).Traces tr' out →
            (∀ ev ∈ tr', tree.Consistent lz4 sd user ev.1 ev.2) →
            ∀ key' cacheEntry' ok', (⟨.cacheSet key' cacheEntry', ok'⟩ : Event ClientRet) ∈ tr' →
              key' = key ∧ cacheEntry'.statResult = cacheEntry.statResult) ∧
    (∀ dir dir' name name', DirPath dir → DirPath dir' → FileName name → FileName name' →
      joined dir name = joined dir' name' → dir = dir' ∧ name = name') ∧
    ∀ root dir name, DirPath dir → FileName name →
      joined (joined root dir) name = joined root (joined dir name) := by
  refine ⟨?_, ?_, fun root dir name hdir hname => joined_assoc root hdir hname⟩
  · rintro dir hdir tr ret hrun hcons tr₁ tr₂ key cacheEntry ok htr
    obtain ⟨name, hlast, hname, rfl, hstat⟩ :=
      wp_clientSpec_traces (wp_readdir hdir) hrun hcons htr
    rw [joined_name hdir hname] at hstat ⊢
    refine ⟨name, hlast, hname, rfl, ?_, ?_⟩
    · rintro stbuf tr' out ⟨found, rest, rfl, -⟩
      exact ⟨found, rest, rfl⟩
    · intro stbuf tr' out hget hcons' key' cacheEntry' ok' hmem
      obtain ⟨tr₁', tr₂', htr'⟩ := List.append_of_mem hmem
      obtain ⟨rfl, hstat'⟩ := wp_clientSpec_traces wp_getattrRemote hget hcons' htr'
      exact ⟨rfl, Option.some.inj (hstat'.symm.trans hstat)⟩
  · intro dir dir' name name' hdir hdir' hname hname' h
    rw [joined_name hdir hname, joined_name hdir' hname'] at h
    exact childPath_injective hdir hdir' hname hname' h

/-- The tree with the file `/s/f` of the user 5, who runs the server. -/
def treeOfFile : Tree where
  lstat path := if path = [47, 115, 47, 102] then
    .ok { Stat.zero with stMode := S_IFREG ||| 0o644, stUid := 5 } else .error ⟨ENOENT, ENOENT_ne⟩
  uid := 5
  groups := []

/-- The listing of its root. -/
def listingOfFile : Response :=
  { Response.initial with
    requesttype := .readdir
    directoryEntries := [treeOfFile.attrsOf
      { Stat.zero with stMode := S_IFREG ||| 0o644, stUid := 5 } (some [102])] }

theorem listingOfFile_served : ∃ tr, (ServeDir.handle .onRun ⟨[47, 115]⟩
      (some { Request.initial with path := some [47], requesttype := .readdir })).Traces tr
        (some (0, listingOfFile)) ∧ ∀ ev ∈ tr, treeOfFile.Answers ev.1 ev.2 := by
  refine ⟨_, ⟨true, _, rfl, true, _, rfl, true, _, rfl, .ok (), _, rfl, ([[102]], none), _, rfl,
    true, _, rfl, (), _, rfl, ([[102]], none), _, rfl, true, _, rfl,
    .ok { Stat.zero with stMode := S_IFREG ||| 0o644, stUid := 5 }, _, rfl,
    true, _, rfl, true, _, rfl, true, _, rfl, true, _, rfl, true, _, rfl, true, _, rfl,
    true, _, rfl, (5 : ℕ), _, rfl, .ok 0, _, rfl, true, _, rfl, .ok [], _, rfl, (), _, rfl, rfl,
    rfl⟩,
    ?_⟩
  simp [Tree.Answers, FileName, treeOfFile, joined, joinPlan, PATH_SEP]

/-- What the user 1, 2 does to list it, up to the first entry stored. -/
def runOfListing : List (Event ClientRet) :=
  [⟨.alloc .record, true⟩,
    ⟨.communicate { Request.initial with path := some [47], requesttype := .readdir },
      (some listingOfFile, 0)⟩,
    ⟨.time, (100 : ℤ)⟩, ⟨.filler [102], false⟩, ⟨.alloc (.bytes 3), true⟩, ⟨.alloc .record, true⟩,
    ⟨.fuseContext, (1, 2)⟩]

/-- The entry stored. -/
def entryOfFile : CacheEntry :=
  ⟨((treeOfFile.attrsOf { Stat.zero with stMode := S_IFREG ||| 0o644, stUid := 5 } none).toStat
    1 2).2, 100⟩

/-- Listing the root of the shared directory `/s` stores `/f` as every later GETATTR does. -/
theorem prefetch_agrees_root :
    (rhizofsReaddir [47]).Traces
      (runOfListing ++ [⟨.cacheSet [47, 102] entryOfFile, true⟩]) 0 ∧
    ∀ stbuf tr' out, (rhizofsGetattrRemote [47, 102] stbuf).Traces tr' out →
      (∀ ev ∈ tr', treeOfFile.Consistent .onRun ⟨[47, 115]⟩ (1, 2) ev.1 ev.2) →
      ∀ key' cacheEntry' ok', (⟨.cacheSet key' cacheEntry', ok'⟩ : Event ClientRet) ∈ tr' →
        key' = [47, 102] ∧ cacheEntry'.statResult = entryOfFile.statResult := by
  have hrun : (rhizofsReaddir [47]).Traces
      (runOfListing ++ [⟨.cacheSet [47, 102] entryOfFile, true⟩]) 0 :=
    ⟨true, _, rfl, (some listingOfFile, 0), _, rfl, (100 : ℤ), _, rfl, false, _, rfl, true, _, rfl,
      true, _, rfl, (1, 2), _, rfl, true, _, rfl, rfl, rfl⟩
  have hcons : ∀ ev ∈ runOfListing ++ [⟨.cacheSet [47, 102] entryOfFile, true⟩],
      treeOfFile.Consistent .onRun ⟨[47, 115]⟩ (1, 2) ev.1 ev.2 := by
    obtain ⟨trs, hserved, hanswers⟩ := listingOfFile_served
    simp only [runOfListing, List.cons_append, List.nil_append, List.forall_mem_cons]
    refine ⟨trivial, ?_, trivial, trivial, trivial, trivial, rfl, trivial, by simp⟩
    rintro response ⟨⟩
    exact ⟨0, trs, hserved, hanswers⟩
  obtain ⟨name, hlast, -, -, -, hagrees⟩ := (prefetch_agrees .onRun ⟨[47, 115]⟩ treeOfFile (1, 2)).1
    [47] (.inl rfl) _ 0 hrun hcons runOfListing [] _ _ true rfl
  obtain rfl : [102] = name := Option.some.inj hlast
  exact ⟨hrun, hagrees⟩

end Rhizofs
