import Rhizofs.Fs.Session

/-!
# Coherence of the attribute cache

The sole client of a server changes a file and asks for attributes afterwards. Each operation that
changes files removes at most one path from the cache (`Mutation.invalidates`): the path itself,
for `Rhizofs_rename` the old path, and for `Rhizofs_create` and `Rhizofs_open` none.
`mutation_agrees_iff` says which cached entries that leaves behind.
-/

namespace Rhizofs

open Extern

/-- The operations of the client that change files. -/
inductive Mutation
  | rmdir (path : CString)
  | unlink (path : CString)
  | create (path : CString) (mode : ℕ)
  | «open» (path : CString) (flags : ℕ)
  | write (path : CString) (buf : List UInt8) (offset : ℤ)
  | truncate (path : CString) (offset : ℤ)
  | chmod (path : CString) (mode : ℕ)
  | utimens (path : CString) (tv : Option (Timespec × Timespec))
  | rename (pathFrom pathTo : CString)

namespace Mutation

def run (lz4 : Lz4) : Mutation → Prog ClientRet ℤ
  | rmdir path => rhizofsRmdir path
  | unlink path => rhizofsUnlink path
  | create path mode => rhizofsCreate path mode
  | .open path flags => rhizofsOpen path flags
  | write path buf offset => rhizofsWrite lz4 path buf offset
  | truncate path offset => rhizofsTruncate path offset
  | chmod path mode => rhizofsChmod path mode
  | utimens path tv => rhizofsUtimens path tv
  | rename pathFrom pathTo => rhizofsRename pathFrom pathTo

/-- `path'` is `path` or below it. -/
def AtOrBelow (path path' : CString) : Prop := path' = path ∨ path ++ [PATH_SEP] <+: path'

/-- The paths that the call names, and for a rename also those below them. -/
def Named : Mutation → CString → Prop
  | rmdir path | unlink path | create path _ | .open path _ | write path _ _ | truncate path _
  | chmod path _ | utimens path _ => fun path' => path' = path
  | rename pathFrom pathTo => fun path' => AtOrBelow pathFrom path' ∨ AtOrBelow pathTo path'

/-- The path that the operation passes to `AttrCache_remove` when it succeeds. -/
def invalidates : Mutation → Option CString
  | rmdir path | unlink path | write path _ _ | truncate path _ | chmod path _ | utimens path _ =>
    some path
  | create _ _ | .open _ _ => none
  | rename pathFrom _ => some pathFrom

end Mutation

namespace Mount

variable {S : Type} {m : Mount S} {w w' : Session S}

/-! ## What a successful operation does to the session -/

/-- Calls that leave the session alone. -/
def Local : ClientCall → Prop
  | .alloc _ | .gettimeofday => True
  | _ => False

theorem step_local {c : ClientCall} {r : ClientRet c} (hc : Local c) (h : m.step c w r w') :
    w' = w := by
  cases c with
  | alloc chunk => exact h
  | gettimeofday => exact h
  | _ => exact hc.elim

theorem runs_local {α : Type} {p : Prog ClientRet α} {a : α} (hp : p.Calls Local)
    (h : p.Runs m.step w a w') : w' = w := by
  induction p generalizing w with
  | ret a => exact h.2
  | call c k ih =>
    obtain ⟨r, w₁, hs, hk⟩ := h
    obtain rfl := step_local hp.1 hs
    exact ih r (hp.2 r) hk

theorem clientMem_local {α : Type} (p : Prog MemRet α) : (clientMem p).Calls Local := by
  induction p with
  | ret a => trivial
  | call c k ih => exact And.intro trivial ih

theorem runs_opCommunicate {request : Request} {r : Option Response × ℤ}
    (h : (opCommunicate request).Runs m.step w r w') :
    ∃ response err, m.Exchange request w.server (response, err) w'.server ∧
      w'.cache = w.cache ∧ r = if err ≠ 0 then (none, err) else (response, err) := by
  obtain ⟨⟨response, err⟩, w₁, ⟨hex, hcache⟩, h⟩ := h
  by_cases herr : err = 0
  · subst herr
    obtain ⟨rfl, rfl⟩ := h
    exact ⟨response, 0, hex, hcache, rfl⟩
  · simp only [Prog.bind, ne_eq, herr, not_false_eq_true, if_true] at h
    obtain ⟨rfl, rfl⟩ := h
    exact ⟨response, err, hex, hcache, (if_pos herr).symm⟩

/-- An operation fails with a positive error, or ends successfully without having reached the
server, or it got a response without an error and uses it. -/
theorem runs_operation {α : Type} {fill : Request → Prog ClientRet (Option Request)}
    {failed : ℤ → α} {use : Response → ℤ → Prog ClientRet α} {a : α}
    (hfill : ∀ request, (fill request).Calls Local)
    (h : (operation fill failed use).Runs m.step w a w') :
    (∃ err, 0 < err ∧ a = failed err) ∨ (a = failed 0 ∧ w' = w) ∨
      ∃ response s', (use response 0).Runs m.step { w with server := s' } a w' := by
  obtain ⟨ok, _, rfl, h⟩ := h
  cases ok with
  | false => exact .inl ⟨ENOMEM, by decide, h.1⟩
  | true =>
    obtain ⟨filled, w₁, hf, h₁⟩ := (Prog.runs_bind m.step (fill .initial) _ _ _ _).mp h
    obtain rfl := runs_local (hfill _) hf
    cases filled with
    | none => exact .inl ⟨OP_STD_RETURNED_ERR, by decide, h₁.1⟩
    | some request =>
      obtain ⟨r, ⟨cache₂, server₂⟩, hc, h₂⟩ :=
        (Prog.runs_bind m.step (opCommunicate request) _ _ _ _).mp h₁
      obtain ⟨response, err, hex, hcache, rfl⟩ := runs_opCommunicate hc
      cases hcache
      by_cases herr : err = 0
      · subst herr
        cases response with
        | none =>
          obtain ⟨rfl, rfl⟩ := h₂
          cases hex with
          | lost pos => exact absurd pos (lt_irrefl 0)
          | notSent => exact .inr (.inl ⟨rfl, rfl⟩)
        | some response => exact .inr (.inr ⟨response, server₂, h₂⟩)
      · simp only [if_pos herr] at h₂
        have hpos : 0 < err := by
          refine lt_of_le_of_ne ?_ (Ne.symm herr)
          cases hex with
          | delivered => exact Errno.toLocal_nonneg _
          | lost pos => exact pos.le
          | notSent nonneg => exact nonneg
        exact .inl ⟨err, hpos, h₂.1⟩

/-- The cache after a successful operation that removes a path from it, or none. -/
def afterRemove (invalidate : Option CString) (cache : AttrCache) : AttrCache :=
  match invalidate with
  | none => cache
  | some path => cache.remove path

theorem runs_plainOperation {fill : Request → Prog ClientRet (Option Request)}
    {invalidate : Option CString} {ret : ℤ} (hfill : ∀ request, (fill request).Calls Local)
    (h : (plainOperation fill invalidate).Runs m.step w ret w') (hok : 0 ≤ ret) :
    w' = w ∨ w'.cache = afterRemove invalidate w.cache := by
  rcases runs_operation hfill h with ⟨err, hpos, rfl⟩ | ⟨-, hw⟩ | ⟨response, s', hu⟩
  · omega
  · exact .inl hw
  · cases invalidate with
    | none =>
      obtain ⟨-, rfl⟩ := hu
      exact .inr rfl
    | some path =>
      obtain ⟨_, w₁, rfl, -, rfl⟩ := hu
      exact .inr rfl

theorem fillPermissions_local (mode : ℕ) (set : Permissions → Request) :
    (fillPermissions mode set).Calls Local :=
  (clientMem_local _).bind fun permissions => by cases permissions <;> trivial

/-- **A successful operation** either did not reach the server or removed its path from the
cache. -/
theorem runs_mutation (op : Mutation) {ret : ℤ} (h : (op.run m.lz4).Runs m.step w ret w')
    (hok : 0 ≤ ret) : w' = w ∨ w'.cache = afterRemove op.invalidates w.cache := by
  cases op with
  | rmdir path => exact runs_plainOperation (fun _ => by exact trivial) h hok
  | unlink path => exact runs_plainOperation (fun _ => by exact trivial) h hok
  | create path mode => exact runs_plainOperation (fun _ => fillPermissions_local _ _) h hok
  | «open» path flags =>
    refine runs_plainOperation (fun _ => (clientMem_local _).bind fun openflags => ?_) h hok
    cases openflags <;> trivial
  | write path buf offset =>
    have hfill := runs_operation (fun _ => (clientMem_local _).bind fun _ => by exact trivial) h
    rcases hfill with ⟨err, hpos, rfl⟩ | ⟨-, hw⟩ | ⟨response, s', hu⟩
    · omega
    · exact .inl hw
    · obtain ⟨_, w₁, rfl, hu⟩ := hu
      right
      cases hsize : response.size with
      | none =>
        simp only [Prog.bind, hsize] at hu
        obtain ⟨-, rfl⟩ := hu
        rfl
      | some size =>
        simp only [Prog.bind, hsize] at hu
        obtain ⟨-, rfl⟩ := hu
        rfl
  | truncate path offset => exact runs_plainOperation (fun _ => by exact trivial) h hok
  | chmod path mode => exact runs_plainOperation (fun _ => fillPermissions_local _ _) h hok
  | utimens path tv =>
    refine runs_plainOperation (fun _ => (clientMem_local _).bind fun timestamps => ?_) h hok
    cases timestamps with
    | none => trivial
    | some timestamps =>
      refine Prog.Calls.bind ?_ fun _ => by exact trivial
      cases tv with
      | none => exact And.intro trivial fun _ => by exact trivial
      | some tv => trivial
  | rename pathFrom pathTo => exact runs_plainOperation (fun _ => by exact trivial) h hok

/-! ## Agreement of the cache with the server -/

/-- What `Rhizofs_getattr` returns for the path is what `Rhizofs_getattr_remote` does. -/
def Agrees (m : Mount S) (w : Session S) (path : CString) : Prop :=
  ∀ stbuf, ((rhizofsGetattr path stbuf).exec m.ideal w).1 =
    ((rhizofsGetattrRemote path stbuf).exec m.ideal w).1

/-- A cached entry that has not expired must hold what the server reports. -/
theorem agrees_iff (path : CString) : m.Agrees w path ↔
    ∀ found, (w.cache.copyStat m.now path).1 = some found →
      ∀ stbuf, m.remoteStat w.server path stbuf = (0, found) := by
  simp only [Agrees, exec_getattr, exec_getattrRemote]
  cases (w.cache.copyStat m.now path).1 with
  | none => simp
  | some found => simp [eq_comm]

theorem copyStat_remove {cache : AttrCache} (h : cache.Wf) (now : ℤ) (path path' : CString) :
    ((cache.remove path).copyStat now path').1 =
      if path' = path then none else (cache.copyStat now path').1 := by
  simp only [AttrCache.copyStat, AttrCache.get_eq, AttrCache.content_remove h,
    AttrCache.entryIsDeprecated, AttrCache.isTooOld, AttrCache.maxAgeSec_remove]
  split_ifs <;> rfl

/-- **What each operation leaves behind.** After a successful operation in a coherent state, all
paths that the call names agree with the server exactly when those that the operation does not
remove from the cache and that have an unexpired entry kept their attributes on the server. -/
theorem mutation_agrees_iff (hwf : w.cache.Wf) (hcoh : ∀ path, m.Agrees w path) (op : Mutation)
    {ret : ℤ} (hrun : (op.run m.lz4).Runs m.step w ret w') (hok : 0 ≤ ret) :
    (∀ path, op.Named path → m.Agrees w' path) ↔
      ∀ path, op.Named path → op.invalidates ≠ some path →
        (w.cache.copyStat m.now path).1.isSome →
          ∀ stbuf, m.remoteStat w'.server path stbuf = m.remoteStat w.server path stbuf := by
  rcases runs_mutation op hrun hok with rfl | hcache
  · exact iff_of_true (fun path _ => hcoh path) fun _ _ _ _ _ => rfl
  · refine forall₂_congr fun path _ => ?_
    have hold := (agrees_iff path).mp (hcoh path)
    rw [agrees_iff, hcache]
    by_cases hinv : op.invalidates = some path
    · -- the entry is gone
      simp [hinv, afterRemove, copyStat_remove hwf]
    · have hkeep : ((afterRemove op.invalidates w.cache).copyStat m.now path).1 =
          (w.cache.copyStat m.now path).1 := by
        cases hop : op.invalidates with
        | none => rfl
        | some path' =>
          rw [afterRemove, copyStat_remove hwf, if_neg]
          rintro rfl
          exact hinv hop
      rw [hkeep]
      simp only [ne_eq, hinv, not_false_eq_true, forall_true_left]
      cases hfound : (w.cache.copyStat m.now path).1 with
      | none => simp
      | some found => simp [hold found hfound]

/-! ## One cached file -/

/-- A session in which `/f` has five bytes and is cached. -/
def cachedSession : Session (List UInt8) where
  cache := (((AttrCache.init 10 60).set 100 [47, 102]
    ⟨(single.remoteStat [1, 2, 3, 4, 5] [47, 102] .zero).2, 100⟩).exec allocAll ()).1.2
  server := [1, 2, 3, 4, 5]

theorem cachedSession_stored : AttrCache.Stored (.init 10 60) 100 [47, 102]
    ⟨(single.remoteStat [1, 2, 3, 4, 5] [47, 102] .zero).2, 100⟩ true cachedSession.cache := by
  have hrun : ((AttrCache.init 10 60).set 100 [47, 102]
      ⟨(single.remoteStat [1, 2, 3, 4, 5] [47, 102] .zero).2, 100⟩).Runs (fun _ _ _ _ => True) ()
        (true, cachedSession.cache) () := Prog.runs_exec allocAll (fun _ _ => trivial) _ ()
  exact AttrCache.set_spec (AttrCache.wf_init 10 60) (by decide) (by decide) hrun

theorem cachedSession_copyStat (path : CString) :
    (cachedSession.cache.copyStat 100 path).1 = if path = [47, 102] then
      some (single.remoteStat [1, 2, 3, 4, 5] [47, 102] .zero).2 else none := by
  have hmax : cachedSession.cache.maxAgeSec = 60 := cachedSession_stored.maxAgeSec_eq
  by_cases hpath : path = [47, 102]
  · subst hpath
    simp [AttrCache.copyStat, AttrCache.get_eq, cachedSession_stored.content_self,
      AttrCache.entryIsDeprecated, AttrCache.isTooOld, hmax]
  · have hnone : cachedSession.cache.content path = none := by
      rw [cachedSession_stored.content_other path hpath]
      refine (AttrCache.content_eq_none_iff (AttrCache.wf_init 10 60)).mpr fun node hmem => ?_
      have hnodes : (AttrCache.init 10 60).hashtable.nodes = [] := rfl
      exact absurd hmem (by simp [hnodes])
    simp [AttrCache.copyStat, AttrCache.get_eq, hnone, hpath]

theorem cachedSession_agrees (path : CString) : single.Agrees cachedSession path := by
  rw [agrees_iff]
  intro found hfound
  change (cachedSession.cache.copyStat 100 path).1 = some found at hfound
  rw [cachedSession_copyStat] at hfound
  by_cases hpath : path = [47, 102]
  · rw [if_pos hpath] at hfound
    obtain rfl := Option.some.inj hfound
    subst hpath
    exact fun _ => rfl
  · rw [if_neg hpath] at hfound
    cases hfound

/-- Truncating `/f` removes it from the cache. -/
theorem mutation_agrees_iff_truncate : ∃ ret w',
    ((Mutation.truncate [47, 102] 2).run single.lz4).Runs single.step cachedSession ret w' ∧
      0 ≤ ret ∧ ∀ path, (Mutation.truncate [47, 102] 2).Named path → single.Agrees w' path := by
  have hrun := Prog.runs_exec single.ideal single.step_ideal
    ((Mutation.truncate [47, 102] 2).run single.lz4) cachedSession
  refine ⟨_, _, hrun, by decide, (mutation_agrees_iff cachedSession_stored.wf cachedSession_agrees
    (.truncate [47, 102] 2) hrun (by decide)).mpr ?_⟩
  rintro path rfl hinv
  exact absurd rfl hinv

/-- Creating the cached file `/f` again empties it, and its old size stays in the cache. -/
theorem create_not_agrees :
    ¬ ∀ (op : Mutation) (w w' : Session (List UInt8)) (ret : ℤ), w.cache.Wf →
      (∀ path, single.Agrees w path) → (op.run single.lz4).Runs single.step w ret w' → 0 ≤ ret →
        ∀ path, op.Named path → single.Agrees w' path := by
  intro h
  have hrun := Prog.runs_exec single.ideal single.step_ideal
    ((Mutation.create [47, 102] 0o644).run single.lz4) cachedSession
  have hagrees := h (.create [47, 102] 0o644) cachedSession _ _ cachedSession_stored.wf
    cachedSession_agrees hrun (by decide) [47, 102] rfl
  have hstat := (agrees_iff _).mp hagrees _ ((cachedSession_copyStat _).trans (if_pos rfl)) .zero
  exact absurd (congrArg (·.2.stSize) hstat) (by decide)

end Mount

end Rhizofs
