import Rhizofs.Fs.Coherence
import Rhizofs.Fs.Prefetch

/-!
# Several users of one cache

The stat that the client caches is built for the process that caused the fetch, and every other
process reads it as it is. `History` is a history of `Rhizofs_readdir` and `Rhizofs_getattr` by any
users on an unchanged tree, which remembers for every path the user for whom its entry was built.
`users_agree_iff` says for which users a cached entry is the one they would fetch themselves.
-/

namespace Rhizofs

open Extern

/-- A cache, and for every path the user and group for whom its entry was stored last. -/
structure Shared where
  cache : AttrCache
  filledBy : CString → ℕ × ℕ

namespace Tree

variable (tree : Tree) (lz4 : Lz4) (sd : ServeDir)

/-- The calls of an operation by a user. Every use of the cache reads the clock, which fails only
in a lookup. -/
def userStep (user : ℕ × ℕ) : (c : ClientCall) → Shared → ClientRet c → Shared → Prop
  | .cacheCopyStat path, w, found, w' => ∃ now, found = (w.cache.copyStat now path).1 ∧
    w' = { w with cache := (w.cache.copyStat now path).2 }
  | .cacheSet path cacheEntry, w, ok, w' => ∃ now, now ≠ -1 ∧
    (w.cache.set now path cacheEntry).Runs (fun _ _ _ _ => True) () (ok, w'.cache) () ∧
      w'.filledBy = Function.update w.filledBy path user
  | .cacheRemove path, w, _, w' => w' = { w with cache := w.cache.remove path }
  | c, w, r, w' => tree.Consistent lz4 sd user c r ∧ w' = w

/-- A history of a new cache on this tree: any calls of `Rhizofs_getattr` and `Rhizofs_readdir` by
any users, whatever fails. -/
inductive History : Shared → Prop
  | init (maxSize maxAgeSec : ℕ) (nobody : CString → ℕ × ℕ) :
      History ⟨.init maxSize maxAgeSec, nobody⟩
  | getattr {w w' : Shared} {path : CString} {stbuf : Stat} {out : ℤ × Stat} (user : ℕ × ℕ)
      (history : History w)
      (run : (rhizofsGetattr path stbuf).Runs (tree.userStep lz4 sd user) w out w') : History w'
  | readdir {w w' : Shared} {dir : CString} {ret : ℤ} (user : ℕ × ℕ) (history : History w)
      (path : DirPath dir)
      (run : (rhizofsReaddir dir).Runs (tree.userStep lz4 sd user) w ret w') : History w'

/-- Every entry is the stat that the client builds for the user who stored it. -/
structure Filled (w : Shared) : Prop where
  wf : w.cache.Wf
  content : ∀ path cacheEntry, w.cache.content path = some cacheEntry →
    tree.statOf sd (w.filledBy path) path = some cacheEntry.statResult

section History

variable {tree lz4 sd} {user : ℕ × ℕ} {w w' : Shared}

theorem Filled.copyStat (h : tree.Filled sd w) (now : ℤ) (path : CString) :
    tree.Filled sd { w with cache := (w.cache.copyStat now path).2 } where
  wf := AttrCache.wf_get h.wf now path
  content := by
    intro path' cacheEntry hc
    dsimp only [AttrCache.copyStat] at hc
    rw [AttrCache.content_get h.wf] at hc
    split_ifs at hc with hpath
    · rw [AttrCache.get_eq, Option.filter_eq_some_iff] at hc
      exact hpath ▸ h.content path cacheEntry hc.1
    · exact h.content path' cacheEntry hc

theorem Filled.remove (h : tree.Filled sd w) (path : CString) :
    tree.Filled sd { w with cache := w.cache.remove path } where
  wf := AttrCache.wf_remove h.wf path
  content := by
    intro path' cacheEntry hc
    rw [AttrCache.content_remove h.wf] at hc
    split_ifs at hc with hpath
    exact h.content path' cacheEntry hc

theorem Filled.set (h : tree.Filled sd w) {now : ℤ} (hnow : now ≠ -1) {path : CString}
    {cacheEntry : CacheEntry} {ok : Bool} {cache' : AttrCache}
    (hstat : tree.statOf sd user path = some cacheEntry.statResult)
    (hrun : (w.cache.set now path cacheEntry).Runs (fun _ _ _ _ => True) () (ok, cache') ()) :
    tree.Filled sd ⟨cache', Function.update w.filledBy path user⟩ where
  wf := AttrCache.wf_set h.wf hnow hrun
  content := by
    intro path' found hc
    rcases AttrCache.content_set h.wf hnow hrun hc with ⟨rfl, rfl⟩ | ⟨hpath, hold⟩
    · simpa using hstat
    · simpa [hpath] using h.content path' found hold

/-- An operation that stores only what its user would get keeps the invariant. -/
theorem Filled.run {pre : Option CString → CString → CacheEntry → Prop}
    (hpre : ∀ last path cacheEntry, pre last path cacheEntry →
      tree.statOf sd user path = some cacheEntry.statResult)
    {α : Type} {p : Prog ClientRet α} {Q : α → Option CString → Prop} {last : Option CString}
    (hwp : p.wp (tree.clientSpec lz4 sd user pre) Q last) {a : α} (h : tree.Filled sd w)
    (hrun : p.Runs (tree.userStep lz4 sd user) w a w') : tree.Filled sd w' := by
  induction p generalizing w last with
  | ret b =>
    obtain ⟨-, rfl⟩ := hrun
    exact h
  | call c k ih =>
    obtain ⟨r, w₁, hstep, hk⟩ := hrun
    obtain ⟨hc, hnext⟩ := hwp
    -- the answer is one that the proof of `p` allows
    have hcons : tree.Consistent lz4 sd user c r → (k r).wp (tree.clientSpec lz4 sd user pre) Q
        (handedLast last ⟨c, r⟩) := fun hr => hnext r _ ⟨hr, rfl⟩
    cases c with
    | cacheCopyStat path =>
      obtain ⟨now, -, rfl⟩ := hstep
      exact ih r (hcons trivial) (h.copyStat now path) hk
    | cacheSet path cacheEntry =>
      obtain ⟨now, hnow, hset, hfilled⟩ := hstep
      obtain ⟨cache₁, filledBy₁⟩ := w₁
      obtain rfl : filledBy₁ = Function.update w.filledBy path user := hfilled
      exact ih r (hcons trivial) (h.set hnow (hpre _ _ _ hc) hset) hk
    | cacheRemove path =>
      obtain rfl := hstep
      exact ih r (hcons trivial) (h.remove path) hk
    | alloc | communicate | time | gettimeofday | fuseContext | filler =>
      obtain ⟨hr, rfl⟩ := hstep
      exact ih r (hcons hr) h hk

/-- In every history each entry is the stat that its user would get. -/
theorem History.filled (h : tree.History lz4 sd w) : tree.Filled sd w := by
  induction h with
  | init maxSize maxAgeSec nobody =>
    refine ⟨AttrCache.wf_init maxSize maxAgeSec, fun path cacheEntry hc => ?_⟩
    obtain ⟨node, hmem, -, -⟩ := (AttrCache.content_eq_some_iff (AttrCache.wf_init _ _)).mp hc
    cases hmem
  | @getattr w w' path stbuf out user history run ih =>
    have hwp : (rhizofsGetattr path stbuf).wp (tree.clientSpec lz4 sd user fun _ key cacheEntry =>
        key = path ∧ tree.statOf sd user path = some cacheEntry.statResult)
        (fun _ _ => True) none := by
      refine wp_client_bind trivial fun found _ => ?_
      cases found with
      | none => exact wp_getattrRemote
      | some found => trivial
    refine ih.run ?_ hwp run
    rintro _ _ _ ⟨rfl, hstat⟩
    exact hstat
  | readdir user history path run ih =>
    refine ih.run ?_ (show Prog.wp _ _ _ none from wp_readdir path) run
    rintro _ _ _ ⟨name, -, -, -, hstat⟩
    exact hstat

/-! ## Hit and fetch -/

/-- The conversion for two users gives the same stat when it does so for their identities. -/
theorem toStat_eq_iff (attrs : Attrs) (hcreation : attrs.timestamps.creationSec.isSome)
    (u v : ℕ × ℕ) : (attrs.toStat u.1 u.2).2 = (attrs.toStat v.1 v.2).2 ↔
      (attrs.isOwner → u.1 = v.1) ∧ (attrs.isInGroup → u.2 = v.2) := by
  have hconv : attrs.copyToStat.1 = true := by rw [Attrs.copyToStat_fst, hcreation]
  rcases hstat : attrs.copyToStat with ⟨ok, stbuf⟩
  obtain rfl : ok = true := by simpa [hstat] using hconv
  cases howner : attrs.isOwner <;> cases hgroup : attrs.isInGroup <;>
    simp [Attrs.toStat, hstat, howner, hgroup]

end History

/-- The answers of a system with this tree in which nothing else fails. -/
def answer : (c : SysCall) → SysRet c
  | .lstat path => tree.lstat path
  | .getuid => tree.uid
  | .ngroups => .ok tree.groups.length
  | .getgroups _ => .ok tree.groups
  | c => (oneFile [] c []).1

/-- The tree mounted by a client, in which a user makes calls at a time. -/
def mount (user : ℕ × ℕ) (now : ℤ) : Mount Unit where
  lz4 := lz4
  sd := sd
  os c _ := (tree.answer c, ())
  now := now
  timeofday := ⟨now, 0⟩
  uid := user.1
  gid := user.2

variable {tree lz4 sd} {user : ℕ × ℕ} {now : ℤ} {path : CString}

theorem osAll_mount (c : SysCall) :
    (tree.mount lz4 sd user now).osAll c () = (tree.answer c, ()) := by
  cases c <;> rfl

theorem exec_attrs_create (sb : Stat) :
    (Attrs.create sb none).exec (tree.mount lz4 sd user now).osAll () =
      (some (tree.attrsOf sb none), ()) := by
  simp [Attrs.create, dupName, Permissions.create, PermissionSet.create, TimeSet.create, alloc,
    posixCurrentUserInGroup, osAll_mount, answer, oneFile, attrsOf, Prog.perform]

/-- A user who fetches the path gets the stat that the client would store. -/
theorem remoteStat_mount {stat : Stat} (hstat : tree.statOf sd user path = some stat)
    (stbuf : Stat) : (tree.mount lz4 sd user now).remoteStat () path stbuf = (0, stat) := by
  unfold statOf at hstat
  cases hlstat : tree.lstat (joined sd.directory path) with
  | error e => simp [hlstat] at hstat
  | ok sb =>
    have hserve : (tree.mount lz4 sd user now).serve
        { Request.initial with path := some path, requesttype := .getattr } () =
          ({ Response.initial with
            requesttype := .getattr
            attrs := some (tree.attrsOf sb none) }, ()) := by
      have hdir : (tree.mount lz4 sd user now).sd = sd := rfl
      simp [Mount.serve, ServeDir.dispatch, ServeDir.opGetattr, ServeDir.fullpath, pathJoin, alloc,
        Prog.perform, osAll_mount, answer, oneFile, hdir, hlstat, exec_attrs_create]
    obtain rfl : ((tree.attrsOf sb none).toStat user.1 user.2).2 = stat := by
      simpa [hlstat] using hstat
    rw [Mount.remoteStat, hserve]
    rfl

/-- A cached entry agrees with what a user would fetch when it was built for the same identity. -/
theorem Filled.hit_iff {w : Shared} (h : tree.Filled sd w) {found : Stat}
    (hfound : (w.cache.copyStat now path).1 = some found) :
    (∀ stbuf, (tree.mount lz4 sd user now).remoteStat () path stbuf = (0, found)) ↔
      ∀ sb, tree.lstat (joined sd.directory path) = .ok sb →
        (sb.stUid = tree.uid → (w.filledBy path).1 = user.1) ∧
          (sb.stGid ∈ tree.groups → (w.filledBy path).2 = user.2) := by
  simp only [AttrCache.copyStat, AttrCache.get_eq, Option.map_eq_some_iff,
    Option.filter_eq_some_iff] at hfound
  obtain ⟨cacheEntry, ⟨hcontent, -⟩, rfl⟩ := hfound
  have hstored := h.content path cacheEntry hcontent
  unfold statOf at hstored
  cases hlstat : tree.lstat (joined sd.directory path) with
  | error e => simp [hlstat] at hstored
  | ok sb =>
    have hfetch : tree.statOf sd user path =
        some ((tree.attrsOf sb none).toStat user.1 user.2).2 := by
      simp [statOf, hlstat]
    obtain hentry : ((tree.attrsOf sb none).toStat (w.filledBy path).1 (w.filledBy path).2).2 =
        cacheEntry.statResult := by simpa [hlstat] using hstored
    have howner : (tree.attrsOf sb none).isOwner ↔ sb.stUid = tree.uid := by
      simp only [attrsOf, Attrs.ofStat, beq_iff_eq]
      exact eq_comm
    have hgroup : (tree.attrsOf sb none).isInGroup ↔ sb.stGid ∈ tree.groups := by
      simp [attrsOf, Attrs.ofStat]
    have hiff := toStat_eq_iff (tree.attrsOf sb none) rfl (w.filledBy path) user
    rw [howner, hgroup, hentry] at hiff
    simp only [remoteStat_mount hfetch, Prod.mk.injEq, true_and, Except.ok.injEq, forall_eq',
      ← hiff]
    exact ⟨fun h => (h .zero).symm, fun h _ => h.symm⟩

end Tree

/-- **When a cache hit is transparent to the calling user**: after every history of
`Rhizofs_getattr` and `Rhizofs_readdir` by any users on an unchanged tree, a user gets for a path
what he would fetch himself, if and only if the path has no unexpired entry, or its entry was built
for the same user where the file is owned by the user of the server, and for the same group where
its group is one of the server's. -/
theorem users_agree_iff (tree : Tree) (lz4 : Lz4) (sd : ServeDir) (w : Shared)
    (history : tree.History lz4 sd w) (user : ℕ × ℕ) (now : ℤ) (path : CString) :
    (tree.mount lz4 sd user now).Agrees ⟨w.cache, ()⟩ path ↔
      ((w.cache.copyStat now path).1.isSome →
        ∀ sb, tree.lstat (joined sd.directory path) = .ok sb →
          (sb.stUid = tree.uid → (w.filledBy path).1 = user.1) ∧
            (sb.stGid ∈ tree.groups → (w.filledBy path).2 = user.2)) := by
  have hnow : (tree.mount lz4 sd user now).now = now := rfl
  rw [Mount.agrees_iff, hnow]
  cases hfound : (w.cache.copyStat now path).1 with
  | none => simp
  | some found => simpa using history.filled.hit_iff hfound

/-! ## A listing by one user -/

/-- A cache in which the user 1, 2 has listed the root of `/s`. -/
def listedByOne : Shared where
  cache := (((AttrCache.init 10 60).set 100 [47, 102] entryOfFile).exec allocAll ()).1.2
  filledBy := Function.update (fun _ => (0, 0)) [47, 102] (1, 2)

theorem listedByOne_set : ((AttrCache.init 10 60).set 100 [47, 102] entryOfFile).Runs
    (fun _ _ _ _ => True) () (true, listedByOne.cache) () :=
  Prog.runs_exec allocAll (fun _ _ => trivial) _ ()

theorem listedByOne_history : treeOfFile.History .onRun ⟨[47, 115]⟩ listedByOne := by
  obtain ⟨tr, hserved, hanswers⟩ := listingOfFile_served
  have hcons : treeOfFile.Consistent .onRun ⟨[47, 115]⟩ (1, 2)
      (.communicate { Request.initial with path := some [47], requesttype := .readdir })
      (some listingOfFile, 0) := by
    rintro response ⟨⟩
    exact ⟨0, tr, hserved, hanswers⟩
  exact .readdir (1, 2) (.init 10 60 fun _ => (0, 0)) (.inl rfl)
    ⟨true, _, ⟨trivial, rfl⟩, (some listingOfFile, 0), _, ⟨hcons, rfl⟩, (100 : ℤ), _,
      ⟨trivial, rfl⟩, false, _, ⟨trivial, rfl⟩, true, _, ⟨trivial, rfl⟩, true, _, ⟨trivial, rfl⟩,
      (1, 2), _, ⟨rfl, rfl⟩, true, ⟨_, _⟩, ⟨100, by decide, listedByOne_set, rfl⟩, rfl, rfl⟩

theorem listedByOne_copyStat :
    (listedByOne.cache.copyStat 100 [47, 102]).1 = some entryOfFile.statResult := by
  have hset := AttrCache.set_spec (AttrCache.wf_init 10 60) (by decide) (by decide) listedByOne_set
  have hmax : listedByOne.cache.maxAgeSec = 60 := hset.maxAgeSec_eq
  have hself : listedByOne.cache.content [47, 102] = some entryOfFile := hset.content_self
  simp [AttrCache.copyStat, AttrCache.get_eq, hself, AttrCache.entryIsDeprecated,
    AttrCache.isTooOld, hmax, entryOfFile]

/-- The user who listed it gets for `/f` what he would fetch. -/
theorem users_agree_iff_self :
    (treeOfFile.mount .onRun ⟨[47, 115]⟩ (1, 2) 100).Agrees ⟨listedByOne.cache, ()⟩ [47, 102] :=
  (users_agree_iff treeOfFile .onRun ⟨[47, 115]⟩ listedByOne listedByOne_history (1, 2) 100
    [47, 102]).mpr fun _ _ _ => ⟨fun _ => rfl, fun _ => rfl⟩

/-- Another user gets the file as owned by the one who listed it. -/
theorem users_not_agree : ¬ ∀ (w : Shared), treeOfFile.History .onRun ⟨[47, 115]⟩ w →
    ∀ user now path, (treeOfFile.mount .onRun ⟨[47, 115]⟩ user now).Agrees ⟨w.cache, ()⟩ path := by
  intro h
  have hagrees := (Mount.agrees_iff _).mp
    (h listedByOne listedByOne_history (3, 4) 100 [47, 102]) _ listedByOne_copyStat .zero
  exact absurd (congrArg (·.2.stUid) hagrees) (by decide)

end Rhizofs
