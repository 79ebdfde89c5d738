import Rhizofs.Foundations.Interleaving
import Rhizofs.Fs.Coherence

/-!
# Reading what another thread has written

The FUSE threads of one client run their operations at once. The server executes a request at one
instant, later the reply is received, and after that the thread uses the attribute cache; the other
threads run in between (`StepCall`). The world remembers for every entry of the cache at which
instant the server read it, and for every path at which instant the last change was executed whose
thread has since removed the path from the cache, or has returned.

* `read_your_writes`: as long as no thread stores a reply that is older than a change whose thread
  has already removed the path, no `Rhizofs_getattr` returns attributes older than a change that had
  returned when it began.
* `not_read_your_writes`: a thread that stores such a reply leaves it in the cache.
-/

namespace Rhizofs.ReadYourWrites

open Extern

/-! ## Operations -/

/-- The path whose attributes a successful operation changes or whose entry it takes away. -/
def changedPath : Mutation → Option CString
  | .rmdir path | .unlink path | .write path _ _ | .truncate path _ | .chmod path _
  | .utimens path _ => some path
  | .create _ _ | .open _ _ | .rename _ _ => none

/-- The FUSE operations. -/
inductive FuseOp
  | getattr (path : CString) (stbuf : Stat)
  | readdir (path : CString)
  | mutation (op : Mutation)
  | mkdir (path : CString) (mode : ℕ)
  | mknod (path : CString) (mode : ℕ)
  | access (path : CString) (mask : ℕ)
  | link (pathFrom pathTo : CString)
  | symlink (pathTo pathFrom : CString)
  | read (path : CString) (buf : List UInt8) (offset : ℤ)
  | readlink (path : CString) (linkTarget : List UInt8)
  | statfs (path : CString) (svfs : StatVfs)
  | chown

namespace FuseOp

/-- The program of an operation: its return value and, for `Rhizofs_getattr`, the buffer. -/
def run (lz4 : Lz4) : FuseOp → Prog ClientRet (ℤ × Option Stat)
  | getattr path stbuf => do
    let (ret, stbuf) ← rhizofsGetattr path stbuf
    return (ret, some stbuf)
  | readdir path => do return (← rhizofsReaddir path, none)
  | mutation op => do return (← op.run lz4, none)
  | mkdir path mode => do return (← rhizofsMkdir path mode, none)
  | mknod path mode => do return (← rhizofsMknod path mode, none)
  | access path mask => do return (← rhizofsAccess path mask, none)
  | link pathFrom pathTo => do return (← rhizofsLink pathFrom pathTo, none)
  | symlink pathTo pathFrom => do return (← rhizofsSymlink pathTo pathFrom, none)
  | read path buf offset => do return ((← rhizofsRead lz4 path buf offset).1, none)
  | readlink path linkTarget => do return ((← rhizofsReadlink path linkTarget).1, none)
  | statfs path svfs => do return ((← rhizofsStatfs path svfs).1, none)
  | chown => do return (← rhizofsChown, none)

/-- The path whose attributes the operation returns. -/
def reads : FuseOp → Option CString
  | getattr path _ => some path
  | _ => none

/-- The path that the operation changes. -/
def changes : FuseOp → Option CString
  | mutation op => changedPath op
  | _ => none

end FuseOp

/-- The steps of a thread: the calls of its operation, where an exchange with the server is two. -/
inductive StepCall
  | client (c : ClientCall)
  /-- The server executes the request. -/
  | execute (request : Request)
  /-- The reply is received. -/
  | receive

/-- The answers. -/
abbrev StepRet : StepCall → Type
  | .client c => ClientRet c
  | .execute _ => Option Response × ℤ
  | .receive => Unit

/-- A call of an operation in steps. -/
def steps : (c : ClientCall) → Prog StepRet (ClientRet c)
  | .communicate request => do
    let answer ← Prog.perform (.execute request : StepCall)
    Prog.perform (.receive : StepCall)
    return answer
  | c => Prog.perform (.client c : StepCall)

/-! ## Threads -/

/-- Where a thread is in its operation. -/
structure Progress where
  reads : Option CString
  changes : Option CString
  /-- The last change of the path it reads that had returned when it began. -/
  began : ℕ
  /-- When the server executed its request. -/
  executed : Option ℕ
  /-- When the server read the attributes that it has got. -/
  source : Option ℕ
  /-- It has removed the path that it changes from the cache since its request was executed. -/
  cleared : Bool

/-- The client: its cache and its threads. Instants are counted by the requests executed. -/
structure World (Tid : Type) where
  cache : AttrCache
  clock : ℕ
  /-- When the server read the entry last stored for a path. -/
  origin : CString → ℕ
  /-- The last change of a path whose thread has removed it from the cache. -/
  removed : CString → ℕ
  /-- The last change of a path that has returned success. -/
  returned : CString → ℕ
  thread : Tid → Progress

namespace Progress

def start (op : FuseOp) (began : ℕ) : Progress :=
  { reads := op.reads
    changes := op.changes
    began := began
    executed := none
    source := none
    cleared := false }

def afterExecute (p : Progress) (instant : ℕ) : Progress :=
  { p with
    executed := some instant
    source := some instant
    cleared := false }

def afterRemove (p : Progress) (path : CString) : Progress :=
  if p.changes = some path then { p with cleared := true } else p

end Progress

namespace World

variable {Tid : Type} [DecidableEq Tid]

def init (maxSize maxAgeSec : ℕ) : World Tid :=
  { cache := .init maxSize maxAgeSec
    clock := 0
    origin := fun _ => 0
    removed := fun _ => 0
    returned := fun _ => 0
    thread := fun _ => .start .chown 0 }

/-- The thread `t` is at `p`. -/
def setThread (w : World Tid) (t : Tid) (p : Progress) : World Tid :=
  { w with thread := Function.update w.thread t p }

/-- The server executes the request of the thread `t`. -/
def execute (w : World Tid) (t : Tid) : World Tid :=
  { w with clock := w.clock + 1 }.setThread t ((w.thread t).afterExecute (w.clock + 1))

/-- What `Rhizofs_communicate` may answer, with any responses of the server. An exchange that fails
may have reached the server; a request that was not packed has not, and then even the error may be
0. -/
inductive Exchange (t : Tid) (w : World Tid) : Option Response × ℤ → World Tid → Prop
  | delivered (response : Response) :
      Exchange t w (some response, response.getErrno) (w.execute t)
  | lost {err : ℤ} (pos : 0 < err) : Exchange t w (none, err) (w.execute t)
  | notSent {err : ℤ} (nonneg : 0 ≤ err) : Exchange t w (none, err) w

/-- The calls of the operation of the thread `t`. Each operation of the cache is one step and reads
the clock, which may fail, for itself. -/
def clientAct (t : Tid) : (c : ClientCall) → World Tid → ClientRet c → World Tid → Prop
  | .communicate _, _, _, _ => False
  | .cacheCopyStat path, w, found, w' => ∃ now, found = (w.cache.copyStat now path).1 ∧
    w' = { w with cache := (w.cache.copyStat now path).2 }.setThread t
      (if found.isSome then { w.thread t with source := some (w.origin path) } else w.thread t)
  | .cacheSet path cacheEntry, w, ok, w' => ∃ (now : ℤ) (cache : AttrCache),
    (w.cache.set now path cacheEntry).Runs (fun _ _ _ _ => True) () (ok, cache) () ∧
      w' =
        { w with
          cache := cache
          origin := if w.cache.hashtable.maxcount = 0 then w.origin
            else Function.update w.origin path ((w.thread t).executed.getD 0) }
  | .cacheRemove path, w, _, w' =>
    w' =
      { w with
        cache := w.cache.remove path
        removed := if (w.thread t).changes = some path then Function.update w.removed path
          (max (w.removed path) ((w.thread t).executed.getD 0)) else w.removed }.setThread t
        ((w.thread t).afterRemove path)
  | .alloc _, w, _, w' | .time, w, _, w' | .gettimeofday, w, _, w' | .fuseContext, w, _, w'
  | .filler _, w, _, w' => w' = w

/-- The steps of the thread `t`. -/
def act (t : Tid) : (c : StepCall) → World Tid → StepRet c → World Tid → Prop
  | .client c, w, r, w' => clientAct t c w r w'
  | .execute _, w, answer, w' => Exchange t w answer w'
  | .receive, w, _, w' => w' = w

/-- The thread `t` begins an operation. -/
def start (w : World Tid) (t : Tid) (op : FuseOp) : World Tid :=
  w.setThread t (.start op ((op.reads.map w.returned).getD 0))

/-- The thread `t` returns `ret`. -/
def finish (w : World Tid) (t : Tid) (op : FuseOp) (ret : ℤ) : World Tid :=
  match op.changes with
  | none => w
  | some path =>
    if 0 ≤ ret then
      { w with
        returned := Function.update w.returned path
          (max (w.returned path) ((w.thread t).executed.getD 0)) }
    else w

end World

/-- Any number of FUSE threads. -/
def threads (Tid : Type) [DecidableEq Tid] (lz4 : Lz4) :
    Concurrent Tid FuseOp StepRet (ℤ × Option Stat) (World Tid) where
  body op := (op.run lz4).translate steps
  start t op w := w.start t op
  act := World.act
  finish t op out w := w.finish t op out.1
  env _ _ := False

/-- The step does not store a reply that is older than a change of the path whose thread has removed
it from the cache. -/
def NotOutdated {Tid : Type} (t : Tid) (c : StepCall) (w : World Tid) : Prop :=
  match c with
  | .client (.cacheSet path _) => w.cache.hashtable.maxcount ≠ 0 →
    w.removed path ≤ (w.thread t).executed.getD 0
  | _ => True

/-! ## One thread -/

/-- What a call of an operation does to the progress of its thread. -/
def clientSpec : Spec ClientRet Progress where
  pre
    | .cacheCopyStat path, p => p.reads = some path
    | _, _ => True
  step
    | .communicate _, p, answer, p' => 0 ≤ answer.2 ∧ (p' = p ∧ answer.1 = none ∨
      (answer.1 = none → 0 < answer.2) ∧ ∃ instant, p' = p.afterExecute instant)
    | .cacheCopyStat _, p, _, p' => ∃ source, p' = { p with source := source }
    | .cacheRemove path, p, _, p' => p' = p.afterRemove path
    | _, p, _, p' => p' = p

/-- The same for the steps. -/
def spec : Spec StepRet Progress where
  pre
    | .client c, p => clientSpec.pre c p
    | _, _ => True
  step
    | .client c, p, r, p' => clientSpec.step c p r p'
    | .execute request, p, answer, p' => clientSpec.step (.communicate request) p answer p'
    | .receive, p, _, p' => p' = p

/-- A successful operation has removed the path it changes, if the server executed the request. -/
def Cleared (op : FuseOp) (out : ℤ × Option Stat) (p : Progress) : Prop :=
  ∀ path, op.changes = some path → 0 ≤ out.1 →
    p.executed = none ∨ p.changes = some path ∧ p.cleared = true

/-- Calls other than the lookup in the cache. -/
def NoLookup (c : ClientCall) : Prop := ∀ path, c ≠ .cacheCopyStat path

section Thread

variable {α : Type} {fill : Request → Prog ClientRet (Option Request)} {failed : ℤ → α}
  {use : Response → ℤ → Prog ClientRet α} {p : Progress}

theorem wp_steps (c : ClientCall) (p : Progress) (hpre : clientSpec.pre c p) :
    (steps c).wp spec (fun r p' => clientSpec.step c p r p') p := by
  cases c with
  | communicate request =>
    refine ⟨trivial, fun answer p₁ hanswer => ⟨trivial, ?_⟩⟩
    rintro _ _ rfl
    exact hanswer
  | _ => exact ⟨hpre, fun _ _ h => h⟩

theorem Calls.noLookup_of_local {p : Prog ClientRet α} (h : p.Calls Mount.Local) :
    p.Calls NoLookup :=
  h.mono fun c hc path he => by
    subst he
    exact hc

theorem wp_local {p : Prog ClientRet α} {Q : α → Progress → Prop} {l : Progress}
    (h : p.Calls Mount.Local) (hQ : ∀ a, Q a l) : p.wp clientSpec Q l := by
  refine h.wp_keep (I := fun l' => l' = l) ?_ ?_ ?_ rfl
  · intro c _ hc _
    cases c with
    | cacheCopyStat path => exact hc.elim
    | _ => trivial
  · intro c l₁ r l₂ hc hl₁ hs
    cases c <;> first | exact hs.trans hl₁ | exact hc.elim
  · rintro a _ rfl
    exact hQ a

/-- The exits of an operation: a positive error; a request that was not sent; a response. -/
theorem wp_operation {Q : α → Progress → Prop} (hfill : ∀ request, (fill request).Calls Mount.Local)
    (hfailed : ∀ err p', 0 < err → Q (failed err) p') (hnotSent : Q (failed 0) p)
    (huse : ∀ response instant, (use response 0).wp clientSpec Q (p.afterExecute instant)) :
    (operation fill failed use).wp clientSpec Q p := by
  refine ⟨trivial, fun ok p₀ hp₀ => ?_⟩
  obtain rfl : p₀ = p := hp₀
  cases ok with
  | false => exact hfailed _ _ (by decide)
  | true =>
    refine Prog.wp_seq (R := fun _ p' => p' = p₀) (p := fill .initial) _
      (wp_local (hfill .initial) fun _ => rfl) ?_
    intro filled p₁ hp₁
    subst p₁
    cases filled with
    | none => exact hfailed _ _ (by decide)
    | some request =>
      refine ⟨trivial, ?_⟩
      rintro ⟨response, err⟩ p₁ ⟨hnonneg, hanswer⟩
      dsimp only at hnonneg hanswer
      by_cases herr : err = 0
      · subst herr
        cases response with
        | none =>
          rcases hanswer with ⟨rfl, -⟩ | ⟨hpos, -⟩
          · exact hnotSent
          · exact absurd (hpos rfl) (lt_irrefl 0)
        | some response =>
          rcases hanswer with ⟨-, hnone⟩ | ⟨-, instant, rfl⟩
          · cases hnone
          · exact huse response instant
      · simp only [Prog.bind, ne_eq, herr, not_false_eq_true, if_true]
        exact hfailed err p₁ (lt_of_le_of_ne hnonneg (Ne.symm herr))

/-- An operation that never looks a path up, and changes none. -/
theorem calls_operation (hfill : ∀ request, (fill request).Calls Mount.Local)
    (huse : ∀ response err, (use response err).Calls NoLookup) :
    (operation fill failed use).Calls NoLookup := by
  refine ⟨fun path he => (by cases he), fun ok => ?_⟩
  cases ok with
  | false => trivial
  | true =>
    apply Prog.Calls.bind (p := fill .initial) (Calls.noLookup_of_local (hfill .initial))
    intro filled
    cases filled with
    | none => trivial
    | some request =>
      refine ⟨fun path he => (by cases he), ?_⟩
      rintro ⟨response, err⟩
      by_cases herr : err = 0
      · subst herr
        cases response with
        | none => trivial
        | some response => exact huse response 0
      · simp only [Prog.bind, ne_eq, herr, not_false_eq_true, if_true]
        trivial

theorem calls_plainOperation {invalidate : Option CString}
    (hfill : ∀ request, (fill request).Calls Mount.Local) :
    (plainOperation fill invalidate).Calls NoLookup :=
  calls_operation hfill fun response err => by
    cases invalidate with
    | none => trivial
    | some path => exact And.intro (fun path he => by cases he) fun _ => by exact trivial

/-- Such an operation has nothing to clear. -/
theorem wp_of_noLookup {op : FuseOp} {p : Prog ClientRet (ℤ × Option Stat)} {l : Progress}
    (hp : p.Calls NoLookup) (hop : op.changes = none) : p.wp clientSpec (Cleared op) l := by
  refine hp.wp_keep (I := fun _ => True) ?_ (fun _ _ _ _ _ _ _ => trivial) ?_ trivial
  · intro c l hc _
    cases c with
    | cacheCopyStat path => exact absurd rfl (hc path)
    | _ => trivial
  · intro out l _ path hpath
    rw [hop] at hpath
    cases hpath

theorem cleared_of_failed {op : FuseOp} {err : ℤ} (hpos : 0 < err) :
    Cleared op (-err, none) p := by
  intro path _ hok
  dsimp only at hok
  omega

/-- Removing the path that it changes clears it. -/
theorem cleared_afterRemove {op : FuseOp} {path : CString} (hop : op.changes = some path)
    (hp : p.changes = some path) (instant : ℕ) (out : ℤ × Option Stat) :
    Cleared op out ((p.afterExecute instant).afterRemove path) := by
  intro path' hpath' _
  obtain rfl : path = path' := Option.some.inj (hop.symm.trans hpath')
  right
  simp [Progress.afterRemove, Progress.afterExecute, hp]

/-- An operation that removes the path it changes. -/
theorem wp_plainOperation {op : FuseOp} {path : CString} (hop : op.changes = some path)
    (hp : p.changes = some path) (hnone : p.executed = none)
    (hfill : ∀ request, (fill request).Calls Mount.Local) :
    (plainOperation fill (some path) >>= fun ret => .ret (ret, none)).wp clientSpec (Cleared op)
      p := by
  refine (Prog.wp_bind _ _ _ _ _).mpr (wp_operation hfill ?_ ?_ ?_)
  · exact fun _ _ hpos => cleared_of_failed hpos
  · exact fun _ _ _ => .inl hnone
  · intro response instant
    refine ⟨trivial, ?_⟩
    rintro _ _ rfl
    exact cleared_afterRemove hop hp instant _

theorem fillSome_local {request : Request} :
    (Prog.ret (some request) : Prog ClientRet (Option Request)).Calls Mount.Local := trivial

theorem utimensFill_local (tv : Option (Timespec × Timespec)) (set : TimeSet → Request) :
    (do
      let some timestamps ← clientMem TimeSet.create | return none
      let timestamps ← utimensTimes timestamps tv
      return some (set timestamps) : Prog ClientRet (Option Request)).Calls Mount.Local := by
  refine (Mount.clientMem_local _).bind fun timestamps => ?_
  cases timestamps with
  | none => trivial
  | some timestamps =>
    refine Prog.Calls.bind ?_ fun _ => by exact trivial
    cases tv with
    | none => exact And.intro trivial fun _ => by exact trivial
    | some tv => trivial

theorem writeFill_local (lz4 : Lz4) (request : Request) (buf : List UInt8) :
    (do
      let (ok, request) ← clientMem (Request.setData lz4 request buf)
      return if ok then some request else none :
        Prog ClientRet (Option Request)).Calls Mount.Local :=
  (Mount.clientMem_local _).bind fun _ => by exact trivial

/-- `Rhizofs_write` removes its path in every case in which it got a response. -/
theorem wp_write (lz4 : Lz4) {op : FuseOp} {path : CString} (buf : List UInt8) (offset : ℤ)
    (hop : op.changes = some path) (hp : p.changes = some path) (hnone : p.executed = none) :
    (rhizofsWrite lz4 path buf offset >>= fun ret => .ret (ret, none)).wp clientSpec (Cleared op)
      p := by
  refine (Prog.wp_bind _ _ _ _ _).mpr
    (wp_operation (fun _ => writeFill_local lz4 _ buf) ?_ ?_ ?_)
  · exact fun _ _ hpos => cleared_of_failed hpos
  · exact fun _ _ _ => .inl hnone
  · intro response instant
    refine ⟨trivial, ?_⟩
    rintro _ _ rfl
    cases hsize : response.size with
    | none =>
      simp only [Prog.bind]
      exact cleared_afterRemove hop hp instant _
    | some size =>
      simp only [Prog.bind]
      exact cleared_afterRemove hop hp instant _

theorem convertAttrsStat_noLookup (attrs : Attrs) :
    (rhizofsConvertAttrsStat attrs).Calls NoLookup :=
  ⟨fun path he => (by cases he), fun _ => trivial⟩

theorem readdirCache_noLookup (path : CString) (currentTime : ℤ) (attrs : Attrs) (name : CString) :
    (readdirCache path currentTime attrs name).Calls NoLookup := by
  apply (Calls.noLookup_of_local (Mount.clientMem_local (pathJoin path name))).bind
  intro pathEntry
  cases pathEntry with
  | none => trivial
  | some pathEntry =>
    refine ⟨fun path he => (by cases he), fun ok => ?_⟩
    cases ok with
    | false => trivial
    | true =>
      apply (convertAttrsStat_noLookup attrs).bind
      rintro ⟨ok, statResult⟩
      cases ok with
      | false => trivial
      | true => exact ⟨fun path he => (by cases he), fun _ => trivial⟩

theorem readdirEntries_noLookup (path : CString) (currentTime : ℤ) (entries : List Attrs) :
    (readdirEntries path currentTime entries).Calls NoLookup := by
  induction entries with
  | nil => trivial
  | cons attrs entries ih =>
    unfold readdirEntries
    cases attrs.name with
    | none => trivial
    | some name =>
      refine ⟨fun path he => (by cases he), fun stop => ?_⟩
      cases stop with
      | true => trivial
      | false =>
        refine (readdirCache_noLookup path currentTime attrs name).bind fun ok => ?_
        cases ok with
        | false => trivial
        | true => exact ih

theorem getattrRemote_noLookup (path : CString) (stbuf : Stat) :
    (rhizofsGetattrRemote path stbuf).Calls NoLookup := by
  refine calls_operation (fun _ => fillSome_local) fun response err => ?_
  unfold getattrRemoteUse
  cases response.attrs with
  | none => trivial
  | some attrs =>
    apply (convertAttrsStat_noLookup attrs).bind
    rintro ⟨ok, stat⟩
    cases ok with
    | false => trivial
    | true =>
      refine ⟨fun path he => (by cases he), fun ok => ?_⟩
      cases ok with
      | false => trivial
      | true =>
        refine ⟨fun path he => (by cases he), fun ok => ?_⟩
        cases ok with
        | false => trivial
        | true =>
          refine ⟨fun path he => (by cases he), fun currentTime => ?_⟩
          by_cases htime : currentTime = -1
          · subst htime
            trivial
          · simp only [Prog.bind, htime, if_false]
            refine ⟨fun path he => (by cases he), fun ok => ?_⟩
            cases ok <;> trivial

/-- The operations that neither read attributes nor change any. -/
theorem run_noLookup (lz4 : Lz4) {op : FuseOp} (hreads : op.reads = none)
    (hchanges : op.changes = none) : (op.run lz4).Calls NoLookup := by
  have hret : ∀ {β : Type} (p : Prog ClientRet β) (f : β → ℤ × Option Stat), p.Calls NoLookup →
      (p >>= fun b => .ret (f b)).Calls NoLookup := fun p f hp => hp.bind fun _ => trivial
  cases op with
  | getattr path stbuf => cases hreads
  | readdir path =>
    refine hret (rhizofsReaddir path) _ (calls_operation (fun _ => fillSome_local) ?_)
    intro response err
    refine ⟨fun path he => (by cases he), fun currentTime => ?_⟩
    by_cases htime : currentTime = -1
    · subst htime
      trivial
    · simp only [Prog.bind, htime, if_false]
      exact (readdirEntries_noLookup path currentTime _).bind fun _ => trivial
  | mutation op =>
    cases op with
    | create path mode =>
      exact hret (rhizofsCreate path mode) _
        (calls_plainOperation fun _ => Mount.fillPermissions_local _ _)
    | «open» path flags =>
      refine hret (rhizofsOpen path flags) _ (calls_plainOperation fun _ => ?_)
      exact (Mount.clientMem_local _).bind fun openflags => by cases openflags <;> trivial
    | rename pathFrom pathTo =>
      exact hret (rhizofsRename pathFrom pathTo) _ (calls_plainOperation fun _ => fillSome_local)
    | _ => cases hchanges
  | mkdir path mode =>
    exact hret (rhizofsMkdir path mode) _
      (calls_plainOperation fun _ => Mount.fillPermissions_local _ _)
  | mknod path mode =>
    apply hret (rhizofsMknod path mode) _
    unfold rhizofsMknod
    split_ifs
    · trivial
    · exact calls_plainOperation fun _ => Mount.fillPermissions_local _ _
  | access path mask =>
    exact hret (rhizofsAccess path mask) _
      (calls_plainOperation fun _ => Mount.fillPermissions_local _ _)
  | link pathFrom pathTo =>
    exact hret (rhizofsLink pathFrom pathTo) _ (calls_plainOperation fun _ => fillSome_local)
  | symlink pathTo pathFrom =>
    exact hret (rhizofsSymlink pathTo pathFrom) _ (calls_plainOperation fun _ => fillSome_local)
  | read path buf offset =>
    refine hret (rhizofsRead lz4 path buf offset) _ (calls_operation (fun _ => fillSome_local) ?_)
    intro response err
    cases response.datablock with
    | none => trivial
    | some datablock =>
      dsimp only
      split_ifs
      · trivial
      · exact Calls.noLookup_of_local (Mount.clientMem_local _)
  | readlink path linkTarget =>
    refine hret (rhizofsReadlink path linkTarget) _ (calls_operation (fun _ => fillSome_local) ?_)
    intro response err
    cases response.linkTarget <;> trivial
  | statfs path svfs =>
    refine hret (rhizofsStatfs path svfs) _ (calls_operation (fun _ => fillSome_local) ?_)
    intro response err
    cases response.statfs <;> trivial
  | chown => trivial

/-- **Each operation** looks up only the path it reads, and clears the path it changes. -/
theorem wp_run (lz4 : Lz4) (op : FuseOp) (began : ℕ) :
    (op.run lz4).wp clientSpec (Cleared op) (.start op began) := by
  cases op with
  | getattr path stbuf =>
    refine ⟨rfl, fun found p' _ => ?_⟩
    cases found with
    | none =>
      refine wp_of_noLookup ?_ rfl
      exact (getattrRemote_noLookup path stbuf).bind fun _ => by exact trivial
    | some found => exact fun path hpath => by cases hpath
  | mutation op =>
    cases op with
    | rmdir path => exact wp_plainOperation rfl rfl rfl fun _ => fillSome_local
    | unlink path => exact wp_plainOperation rfl rfl rfl fun _ => fillSome_local
    | write path buf offset => exact wp_write lz4 buf offset rfl rfl rfl
    | truncate path offset => exact wp_plainOperation rfl rfl rfl fun _ => fillSome_local
    | chmod path mode =>
      exact wp_plainOperation rfl rfl rfl fun _ => Mount.fillPermissions_local _ _
    | utimens path tv =>
      exact wp_plainOperation rfl rfl rfl fun request => utimensFill_local tv _
    | _ => exact wp_of_noLookup (run_noLookup lz4 rfl rfl) rfl
  | _ => exact wp_of_noLookup (run_noLookup lz4 rfl rfl) rfl

end Thread

/-! ## All threads -/

variable {Tid : Type} [DecidableEq Tid]

/-- What holds of one thread: the attributes that it has got are not older than the changes that had
returned when it began, and what it has cleared counts as removed. -/
structure ThreadInv (w : World Tid) (p : Progress) : Prop where
  executed_le : p.executed.getD 0 ≤ w.clock
  began_le : ∀ path, p.reads = some path → p.began ≤ w.returned path
  began_le_clock : p.began ≤ w.clock
  began_le_source : ∀ instant, p.source = some instant → p.began ≤ instant
  cleared : ∀ path, p.cleared = true → p.changes = some path →
    p.executed.getD 0 ≤ w.removed path

/-- What holds of the world: every entry of the cache is as new as the last change whose thread has
removed the path. -/
structure Inv (w : World Tid) : Prop where
  table : w.cache.hashtable.Wf hashfuncDjb2
  fresh : ∀ node ∈ w.cache.hashtable.nodes, w.removed node.key ≤ w.origin node.key
  returned_le : ∀ path, w.returned path ≤ w.removed path
  removed_le : ∀ path, w.removed path ≤ w.clock
  thread : ∀ t, ThreadInv w (w.thread t)

section Inv

variable {w w' : World Tid} {t : Tid} {p : Progress}

@[simp] theorem thread_setThread_self (w : World Tid) (t : Tid) (p : Progress) :
    (w.setThread t p).thread t = p := Function.update_self ..

theorem thread_setThread_of_ne (w : World Tid) {t t' : Tid} (p : Progress) (h : t' ≠ t) :
    (w.setThread t p).thread t' = w.thread t' := Function.update_of_ne h ..

omit [DecidableEq Tid] in
theorem ThreadInv.mono (h : ThreadInv w p) (hclock : w.clock ≤ w'.clock)
    (hreturned : ∀ path, w.returned path ≤ w'.returned path)
    (hremoved : ∀ path, w.removed path ≤ w'.removed path) : ThreadInv w' p where
  executed_le := h.executed_le.trans hclock
  began_le := fun path hpath => (h.began_le path hpath).trans (hreturned path)
  began_le_clock := h.began_le_clock.trans hclock
  began_le_source := h.began_le_source
  cleared := fun path hc hp => (h.cleared path hc hp).trans (hremoved path)

omit [DecidableEq Tid] in
theorem inv_init (maxSize maxAgeSec : ℕ) : Inv (.init maxSize maxAgeSec : World Tid) where
  table := (AttrCache.wf_init maxSize maxAgeSec).hashtable
  fresh := fun _ _ => le_rfl
  returned_le := fun _ => le_rfl
  removed_le := fun _ => le_rfl
  thread := fun t =>
    { executed_le := le_rfl
      began_le := fun _ _ => le_rfl
      began_le_clock := le_rfl
      began_le_source := fun _ h => by cases h
      cleared := fun _ h => by cases h }

/-- A step of the thread `t`. -/
theorem Inv.setThread (h : Inv w) (hp : ThreadInv w p) : Inv (w.setThread t p) where
  table := h.table
  fresh := h.fresh
  returned_le := h.returned_le
  removed_le := h.removed_le
  thread := by
    intro t'
    have hmono : ∀ p', ThreadInv w p' → ThreadInv (w.setThread t p) p' := fun p' hp' =>
      hp'.mono le_rfl (fun _ => le_rfl) fun _ => le_rfl
    by_cases ht : t' = t
    · subst ht
      rw [thread_setThread_self]
      exact hmono p hp
    · rw [thread_setThread_of_ne w p ht]
      exact hmono _ (h.thread t')

omit [DecidableEq Tid] in
/-- Taking nodes out of the table. -/
theorem Inv.withCache (h : Inv w) {cache : AttrCache} (hwf : cache.hashtable.Wf hashfuncDjb2)
    (hsub : ∀ node ∈ cache.hashtable.nodes, node ∈ w.cache.hashtable.nodes) :
    Inv { w with cache := cache } where
  table := hwf
  fresh := fun node hmem => h.fresh node (hsub node hmem)
  returned_le := h.returned_le
  removed_le := h.removed_le
  thread := fun t => (h.thread t).mono le_rfl (fun _ => le_rfl) fun _ => le_rfl

theorem Inv.execute (h : Inv w) (t : Tid) : Inv (w.execute t) := by
  have hclock : Inv { w with clock := w.clock + 1 } :=
    { table := h.table
      fresh := h.fresh
      returned_le := h.returned_le
      removed_le := fun path => (h.removed_le path).trans (Nat.le_succ _)
      thread := fun t' => (h.thread t').mono (Nat.le_succ _) (fun _ => le_rfl) fun _ => le_rfl }
  apply hclock.setThread
  have ht := h.thread t
  exact
    { executed_le := le_rfl
      began_le := ht.began_le
      began_le_clock := ht.began_le_clock.trans (Nat.le_succ _)
      began_le_source := by
        rintro instant ⟨⟩
        exact ht.began_le_clock.trans (Nat.le_succ _)
      cleared := fun _ hc => by cases hc }

/-- A hit in the cache is not older than the changes that had returned when the thread began. -/
theorem Inv.copyStat (h : Inv w) (t : Tid) {path : CString}
    (hreads : (w.thread t).reads = some path) (now : ℤ) :
    Inv ({ w with cache := (w.cache.copyStat now path).2 }.setThread t
      (if (w.cache.copyStat now path).1.isSome then
        { w.thread t with source := some (w.origin path) } else w.thread t)) := by
  obtain ⟨removed, hs⟩ := AttrCache.copyStat_shrunk h.table now path
  have ht := h.thread t
  refine (h.withCache hs.wf fun node hmem => hs.subset hmem).setThread ?_
  split_ifs with hfound
  · obtain ⟨node, hmem, hkey⟩ := AttrCache.mem_of_copyStat h.table hfound
    refine ⟨ht.executed_le, ht.began_le, ht.began_le_clock, ?_, ht.cleared⟩
    rintro instant ⟨⟩
    calc (w.thread t).began ≤ w.returned path := ht.began_le path hreads
      _ ≤ w.removed path := h.returned_le path
      _ ≤ w.origin path := hkey ▸ h.fresh node hmem
  · exact ht.mono le_rfl (fun _ => le_rfl) fun _ => le_rfl

omit [DecidableEq Tid] in
/-- Storing a reply that is not outdated. -/
theorem Inv.set (h : Inv w) (t : Tid) {path : CString} {cacheEntry : CacheEntry} {now : ℤ}
    {ok : Bool} {cache : AttrCache}
    (hnew : w.cache.hashtable.maxcount ≠ 0 → w.removed path ≤ (w.thread t).executed.getD 0)
    (hrun : (w.cache.set now path cacheEntry).Runs (fun _ _ _ _ => True) () (ok, cache) ()) :
    Inv { w with
      cache := cache
      origin := if w.cache.hashtable.maxcount = 0 then w.origin
        else Function.update w.origin path ((w.thread t).executed.getD 0) } := by
  obtain ⟨hwf, hnodes⟩ := AttrCache.mem_of_set h.table hrun
  refine ⟨hwf, fun node hmem => ?_, h.returned_le, h.removed_le, fun t' =>
    (h.thread t').mono le_rfl (fun _ => le_rfl) fun _ => le_rfl⟩
  dsimp only at hmem ⊢
  split_ifs at hnodes ⊢ with hzero
  · subst hnodes
    exact h.fresh node hmem
  · by_cases hkey : node.key = path
    · rw [hkey, Function.update_self]
      exact hnew hzero
    · rw [Function.update_of_ne hkey]
      exact h.fresh node ((hnodes node hmem).resolve_left hkey).1

/-- Removing a path makes room for its last change: no entry of the path is left. -/
theorem Inv.remove (h : Inv w) (t : Tid) (path : CString) :
    Inv ({ w with
      cache := w.cache.remove path
      removed := if (w.thread t).changes = some path then Function.update w.removed path
        (max (w.removed path) ((w.thread t).executed.getD 0)) else w.removed }.setThread t
        ((w.thread t).afterRemove path)) := by
  obtain ⟨removed, hs⟩ := AttrCache.remove_shrunk h.table path
  have ht := h.thread t
  by_cases hchanges : (w.thread t).changes = some path
  · have hle : w.removed ≤ Function.update w.removed path
        (max (w.removed path) ((w.thread t).executed.getD 0)) :=
      le_update_self_iff.mpr (le_max_left ..)
    have hclock : Function.update w.removed path
        (max (w.removed path) ((w.thread t).executed.getD 0)) ≤ fun _ => w.clock :=
      update_le_iff.mpr
        ⟨max_le (h.removed_le path) ht.executed_le, fun path' _ => h.removed_le path'⟩
    rw [if_pos hchanges, Progress.afterRemove, if_pos hchanges]
    refine Inv.setThread ⟨hs.wf, fun node hmem => ?_, fun path' => ?_, hclock, fun t' =>
      (h.thread t').mono le_rfl (fun _ => le_rfl) hle⟩ ?_
    · obtain ⟨hold, hkey⟩ := (AttrCache.mem_nodes_remove h.table).mp hmem
      dsimp only
      rw [Function.update_of_ne hkey]
      exact h.fresh node hold
    · exact (h.returned_le path').trans (hle path')
    · refine ⟨ht.executed_le, ht.began_le, ht.began_le_clock, ht.began_le_source, ?_⟩
      intro path' _ hpath'
      obtain rfl : path = path' := Option.some.inj (hchanges.symm.trans hpath')
      simp
  · rw [if_neg hchanges, Progress.afterRemove, if_neg hchanges]
    apply (h.withCache hs.wf hs.subset).setThread
    exact ht.mono le_rfl (fun _ => le_rfl) fun _ => le_rfl

theorem Inv.start (h : Inv w) (t : Tid) (op : FuseOp) : Inv (w.start t op) := by
  have hle : ∀ path, w.returned path ≤ w.clock :=
    fun path => (h.returned_le path).trans (h.removed_le path)
  refine h.setThread ⟨Nat.zero_le _, fun path hpath => ?_, ?_, fun _ h => (by cases h),
    fun _ h => by cases h⟩
  · have hreads : op.reads = some path := hpath
    simp [Progress.start, hreads]
  · cases hreads : op.reads with
    | none => exact Nat.zero_le _
    | some path => exact hle path

omit [DecidableEq Tid] in
/-- A successful change has been removed from the cache before it returns. -/
theorem Inv.finish (h : Inv w) (t : Tid) {op : FuseOp} {out : ℤ × Option Stat}
    (hcleared : Cleared op out (w.thread t)) : Inv (w.finish t op out.1) := by
  unfold World.finish
  cases hchanges : op.changes with
  | none => exact h
  | some path =>
    dsimp only
    split_ifs with hok
    · have hremoved : (w.thread t).executed.getD 0 ≤ w.removed path := by
        rcases hcleared path hchanges hok with hnone | ⟨hpath, htrue⟩
        · simp [hnone]
        · exact (h.thread t).cleared path htrue hpath
      have hle : w.returned ≤ Function.update w.returned path
          (max (w.returned path) ((w.thread t).executed.getD 0)) :=
        le_update_self_iff.mpr (le_max_left ..)
      have hreturned : Function.update w.returned path
          (max (w.returned path) ((w.thread t).executed.getD 0)) ≤ w.removed :=
        update_le_iff.mpr ⟨max_le (h.returned_le path) hremoved, fun path' _ => h.returned_le path'⟩
      exact ⟨h.table, h.fresh, hreturned, h.removed_le, fun t' =>
        (h.thread t').mono le_rfl hle fun _ => le_rfl⟩
    · exact h

/-- The server reports no negative error. -/
theorem Exchange.spec (request : Request) {answer : Option Response × ℤ}
    (h : World.Exchange t w answer w') :
    clientSpec.step (.communicate request) (w.thread t) answer (w'.thread t) := by
  cases h with
  | delivered response =>
    refine ⟨Errno.toLocal_nonneg _, .inr ⟨fun hnone => (by cases hnone), w.clock + 1, ?_⟩⟩
    exact thread_setThread_self ..
  | lost pos => exact ⟨pos.le, .inr ⟨fun _ => pos, w.clock + 1, thread_setThread_self ..⟩⟩
  | notSent nonneg => exact ⟨nonneg, .inl ⟨rfl, rfl⟩⟩

/-- A step keeps the invariant, does to its thread what the specification says, and leaves the other
threads alone. -/
theorem Inv.act (h : Inv w) {c : StepCall} {r : StepRet c} (hpre : spec.pre c (w.thread t))
    (hnew : NotOutdated t c w) (hact : World.act t c w r w') :
    Inv w' ∧ spec.step c (w.thread t) r (w'.thread t) ∧
      ∀ t', t' ≠ t → w'.thread t' = w.thread t' := by
  cases c with
  | receive =>
    obtain rfl : w' = w := hact
    exact ⟨h, rfl, fun _ _ => rfl⟩
  | execute request =>
    refine ⟨?_, Exchange.spec request hact, fun t' ht => ?_⟩
    · cases hact with
      | delivered response => exact h.execute t
      | lost pos => exact h.execute t
      | notSent nonneg => exact h
    · cases hact with
      | delivered response => exact thread_setThread_of_ne _ _ ht
      | lost pos => exact thread_setThread_of_ne _ _ ht
      | notSent nonneg => rfl
  | client c =>
    cases c with
    | communicate request => exact hact.elim
    | cacheCopyStat path =>
      obtain ⟨now, rfl, rfl⟩ := hact
      refine ⟨h.copyStat t hpre now, ?_, fun t' ht => thread_setThread_of_ne _ _ ht⟩
      change ∃ source, _ = _
      rw [thread_setThread_self]
      split_ifs
      · exact ⟨_, rfl⟩
      · exact ⟨(w.thread t).source, rfl⟩
    | cacheSet path cacheEntry =>
      obtain ⟨now, cache, hrun, rfl⟩ := hact
      exact ⟨h.set t hnew hrun, rfl, fun _ _ => rfl⟩
    | cacheRemove path =>
      obtain rfl := hact
      exact ⟨h.remove t path, thread_setThread_self .., fun t' ht =>
        thread_setThread_of_ne _ _ ht⟩
    | alloc | time | gettimeofday | fuseContext | filler =>
      obtain rfl : w' = w := hact
      exact ⟨h, rfl, fun _ _ => rfl⟩

/-- The threads are verified one at a time. -/
def verification (Tid : Type) [DecidableEq Tid] (lz4 : Lz4) :
    Concurrent.Verification ((threads Tid lz4).restrict NotOutdated) Progress Inv
      (fun t w => w.thread t) where
  spec := spec
  idle _ := True
  post := Cleared
  start t op w h _ :=
    ⟨h.start t op, by
      rw [show ((threads Tid lz4).restrict NotOutdated).start t op w = w.start t op from rfl,
        World.start, thread_setThread_self]
      exact Prog.wp_translate steps (fun c p hpre => wp_steps c p hpre) (wp_run lz4 op _),
      fun t' ht => thread_setThread_of_ne _ _ ht⟩
  act t c w r w' h hpre hact := h.act hpre hact.1 hact.2
  finish t op out w h hpost :=
    ⟨h.finish t hpost, trivial, fun t' _ => by
      change (w.finish t op out.1).thread t' = w.thread t'
      unfold World.finish
      split
      · rfl
      · split_ifs <;> rfl⟩
  env w w' _ hchange := hchange.elim

/-- **Reading what was written** in a run in which no thread stores a reply that is older than a
change whose thread has already removed the path: the attributes that an operation has got are not
older than the changes of the path that had returned when it began, and nor is any entry of the
cache older than a change that has returned. -/
theorem read_your_writes {lz4 : Lz4} {maxSize maxAgeSec : ℕ}
    {config : Concurrent.Config Tid FuseOp StepRet (ℤ × Option Stat) (World Tid)}
    (h : Concurrent.Reachable ((threads Tid lz4).restrict NotOutdated) (.init maxSize maxAgeSec)
      config) :
    (∀ t path stbuf out, config.threads t = some (.getattr path stbuf, .ret out) →
      ∀ instant, (config.world.thread t).source = some instant →
        (config.world.thread t).began ≤ instant) ∧
    ∀ node ∈ config.world.cache.hashtable.nodes,
      config.world.returned node.key ≤ config.world.origin node.key := by
  have hinv := (h.verified (V := verification Tid lz4) (inv_init maxSize maxAgeSec)
    fun _ => trivial).inv
  refine ⟨fun t _ _ _ _ => (hinv.thread t).began_le_source, fun node hmem => ?_⟩
  exact (hinv.returned_le node.key).trans (hinv.fresh node hmem)

end Inv

/-! ## A file that is truncated -/

/-- The attributes of an empty file. -/
def someAttrs : Attrs :=
  .ofStat Stat.zero (.ofMode 0) 1 false none

/-- The reply to a GETATTR request. -/
def someReply : Response := { Response.initial with attrs := some someAttrs }

/-- The entry that the user 1 stores for this reply at time 10. -/
def someEntry : CacheEntry := ⟨(someAttrs.toStat 1 1).2, 10⟩

/-- The steps of a thread in a restricted run. -/
abbrev allowed (t : Tid) (c : StepCall) (w : World Tid) (r : StepRet c) (w' : World Tid) : Prop :=
  NotOutdated t c w ∧ World.act t c w r w'

/-- A thread that misses in the cache comes to the point where it stores the reply. -/
theorem advance_getattr (lz4 : Lz4) (w : World Tid) (t : Tid) (path : CString)
    (hmiss : (w.cache.copyStat 10 path).1 = none) :
    ∃ k : Bool → Prog StepRet (ℤ × Option Stat),
      (∀ ok, k ok = .ret (0, some someEntry.statResult)) ∧
      Concurrent.Advance (allowed t) (fun _ _ => False)
        (.call (.client (.cacheSet path someEntry)) k)
        (({ w with cache := (w.cache.copyStat 10 path).2 }.setThread t (w.thread t)).execute t)
        (((FuseOp.getattr path Stat.zero).run lz4).translate steps) w := by
  refine ⟨?k, ?hk, .act none ⟨trivial, 10, hmiss.symm, rfl⟩ ?_⟩
  rotate_left 2
  · refine .act true ⟨trivial, rfl⟩ ?_
    refine .act (some someReply, 0) ⟨trivial, .delivered someReply⟩ ?_
    refine .act () ⟨trivial, rfl⟩ ?_
    refine .act (1, 1) ⟨trivial, rfl⟩ ?_
    refine .act true ⟨trivial, rfl⟩ ?_
    refine .act true ⟨trivial, rfl⟩ ?_
    refine .act (10 : ℤ) ⟨trivial, rfl⟩ ?_
    exact .done
  · intro ok
    cases ok <;> rfl

/-- A thread that finds the path in the cache returns. -/
theorem advance_hit (lz4 : Lz4) (w : World Tid) (t : Tid) (path : CString) {found : Stat}
    (hhit : (w.cache.copyStat 10 path).1 = some found) :
    Concurrent.Advance (World.act t) (fun _ _ => False) (.ret (0, some found))
      ({ w with cache := (w.cache.copyStat 10 path).2 }.setThread t
        { w.thread t with source := some (w.origin path) })
      (((FuseOp.getattr path Stat.zero).run lz4).translate steps) w :=
  .act (some found) ⟨10, hhit.symm, rfl⟩ .done

/-- A thread stores its reply, which is not outdated. -/
theorem advance_set {w : World Tid} {t : Tid} {path : CString} {cacheEntry : CacheEntry}
    {k : Bool → Prog StepRet (ℤ × Option Stat)} {ok : Bool} {cache : AttrCache}
    (hnew : w.removed path ≤ (w.thread t).executed.getD 0)
    (hset : (w.cache.set 10 path cacheEntry).Runs (fun _ _ _ _ => True) () (ok, cache) ()) :
    Concurrent.Advance (allowed t) (fun _ _ => False) (k ok)
      { w with
        cache := cache
        origin := if w.cache.hashtable.maxcount = 0 then w.origin
          else Function.update w.origin path ((w.thread t).executed.getD 0) }
      (.call (.client (.cacheSet path cacheEntry)) k) w :=
  .act ok ⟨fun _ => hnew, 10, cache, hset, rfl⟩ .done

/-- A thread truncates a file. -/
theorem advance_truncate (lz4 : Lz4) (w : World Tid) (t : Tid) (path : CString)
    (hchanges : (w.thread t).changes = some path) :
    Concurrent.Advance (allowed t) (fun _ _ => False) (.ret (0, none))
      ({ w.execute t with
        cache := w.cache.remove path
        removed := Function.update w.removed path (max (w.removed path) (w.clock + 1)) }.setThread t
          { (w.thread t).afterExecute (w.clock + 1) with cleared := true })
      (((FuseOp.mutation (.truncate path 0)).run lz4).translate steps) w := by
  refine .act true ⟨trivial, rfl⟩ ?_
  refine .act (some .initial, 0) ⟨trivial, .delivered .initial⟩ ?_
  refine .act () ⟨trivial, rfl⟩ ?_
  refine .act () ⟨trivial, ?_⟩ .done
  simp [World.act, World.clientAct, World.execute, World.setThread, Progress.afterExecute,
    Progress.afterRemove, hchanges]

/-- The path `/f`. -/
def pathF : CString := [47, 102]

/-- A truncation of `/f` has returned. -/
theorem reachable_truncated :
    ∃ config : Concurrent.Config Bool FuseOp StepRet (ℤ × Option Stat) (World Bool),
      Concurrent.Reachable ((threads Bool .onRun).restrict NotOutdated) (.init 10 60) config ∧
        config.threads = (fun _ => none) ∧
        config.world.cache = (AttrCache.init 10 60).remove pathF ∧
        config.world.clock = 1 ∧ config.world.removed pathF = 1 ∧
        config.world.returned pathF = 1 := by
  have h₀ : Concurrent.Reachable ((threads Bool .onRun).restrict NotOutdated) (.init 10 60)
      ⟨.init 10 60, fun _ => none⟩ := .init
  have h₁ := h₀.runs (t := false) (.mutation (.truncate pathF 0)) rfl
    (advance_truncate .onRun _ false pathF rfl)
  refine ⟨_, h₁, rfl, ?_, ?_, ?_, ?_⟩ <;>
    simp [World.setThread, World.execute, World.start, World.finish, threads, Concurrent.restrict,
      World.init, FuseOp.changes, changedPath, Progress.afterExecute]

/-- After a truncation of `/f` that has returned, a thread reads the attributes again. -/
theorem read_your_writes_truncate :
    ∃ config : Concurrent.Config Bool FuseOp StepRet (ℤ × Option Stat) (World Bool),
      config.threads false = some (.getattr pathF Stat.zero, .ret (0, some someEntry.statResult)) ∧
        (config.world.thread false).began = 1 ∧ (config.world.thread false).source = some 2 ∧
          (config.world.thread false).began ≤ 2 := by
  obtain ⟨⟨w, pool⟩, h₀, hidle, hcache, hclock, hremoved, hreturned⟩ := reachable_truncated
  dsimp only at hidle hcache hclock hremoved hreturned
  have h₁ := h₀.step (.start false (.getattr pathF Stat.zero) (congrFun hidle false))
  have hmiss : ((w.start false (.getattr pathF Stat.zero)).cache.copyStat 10 pathF).1 = none := by
    change (w.cache.copyStat 10 pathF).1 = none
    rw [hcache]
    rfl
  obtain ⟨k, hk, hadv⟩ := advance_getattr .onRun _ false pathF hmiss
  have h₂ := h₁.advance (t := false) rfl hadv
  have hset : ((w.cache.copyStat 10 pathF).2.set 10 pathF someEntry).Runs (fun _ _ _ _ => True) ()
      _ _ := Prog.runs_exec allocAll (fun _ _ => trivial) _ ()
  have h₃ := h₂.advance (t := false) rfl (advance_set (by
    simp [World.execute, Progress.afterExecute, World.setThread, World.start, hclock, hremoved])
    hset)
  rw [hk] at h₃
  have hle := (read_your_writes h₃).1 false pathF Stat.zero _ rfl 2 (by
    simp [World.execute, Progress.afterExecute, World.setThread, World.start, hclock])
  refine ⟨_, rfl, ?_, ?_, hle⟩
  · simp [World.execute, Progress.afterExecute, World.setThread, World.start, Progress.start,
      FuseOp.reads, hreturned]
  · simp [World.execute, Progress.afterExecute, World.setThread, World.start, hclock]

/-- A new cache from which `/f` was looked up and removed stores its attributes. -/
theorem runs_set_empty : ∃ cache : AttrCache,
    ((((AttrCache.init 10 60).copyStat 10 pathF).2.remove pathF).set 10 pathF someEntry).Runs
      (fun _ _ _ _ => True) () (true, cache) () ∧
    (cache.copyStat 10 pathF).1 = some someEntry.statResult :=
  ⟨_, Prog.runs_exec allocAll (fun _ _ => trivial) _ (), rfl⟩

/-- A thread is about to store its reply, and another has truncated `/f` since and is about to
return. -/
theorem reachable_outdated : ∃ (config : Concurrent.Config Bool FuseOp StepRet (ℤ × Option Stat)
      (World Bool)) (k : Bool → Prog StepRet (ℤ × Option Stat)),
    Concurrent.Reachable ((threads Bool .onRun).restrict NotOutdated) (.init 10 60) config ∧
      config.threads false = some (.getattr pathF Stat.zero,
        .call (.client (.cacheSet pathF someEntry)) k) ∧
      (∀ ok, k ok = .ret (0, some someEntry.statResult)) ∧
      config.threads true = some (.mutation (.truncate pathF 0), .ret (0, none)) ∧
      config.world.cache = ((AttrCache.init 10 60).copyStat 10 pathF).2.remove pathF ∧
      (config.world.thread false).executed = some 1 ∧
      (config.world.thread true).executed = some 2 := by
  have h₀ : Concurrent.Reachable ((threads Bool .onRun).restrict NotOutdated) (.init 10 60)
      ⟨.init 10 60, fun _ => none⟩ := .init
  have h₁ := h₀.step (.start false (.getattr pathF Stat.zero) rfl)
  obtain ⟨k, hk, hadv⟩ := advance_getattr .onRun
    ((World.init 10 60 : World Bool).start false (.getattr pathF Stat.zero)) false pathF rfl
  have h₂ := h₁.advance (t := false) rfl hadv
  have h₃ := h₂.step (.start true (.mutation (.truncate pathF 0)) rfl)
  have h₄ := h₃.advance (t := true) rfl (advance_truncate .onRun _ true pathF rfl)
  refine ⟨_, k, h₄, rfl, hk, rfl, ?_, ?_, ?_⟩
  · simp [World.setThread, World.execute, World.start, threads, Concurrent.restrict, World.init]
  · rfl
  · rfl

/-- A thread whose reply was read before another thread truncated `/f` stores it afterwards, and the
next `Rhizofs_getattr` returns it. -/
theorem not_read_your_writes :
    ¬ ∀ config : Concurrent.Config Bool FuseOp StepRet (ℤ × Option Stat) (World Bool),
      Concurrent.Reachable (threads Bool .onRun) (.init 10 60) config →
        ∀ t path stbuf out, config.threads t = some (.getattr path stbuf, .ret out) →
          ∀ instant, (config.world.thread t).source = some instant →
            (config.world.thread t).began ≤ instant := by
  intro hall
  obtain ⟨⟨w, pool⟩, k, h₀, hfirst, hk, hsecond, hcache, hread, hwritten⟩ := reachable_outdated
  obtain ⟨cache, hset, hhit⟩ := runs_set_empty
  dsimp only at hfirst hsecond hcache hread hwritten
  rw [← hcache] at hset
  have hmax : w.cache.hashtable.maxcount ≠ 0 := by
    rw [hcache]
    decide
  -- the other thread returns
  have hreturned : w.finish true (.mutation (.truncate pathF 0)) 0 = { w with
      returned := Function.update w.returned pathF (max (w.returned pathF) 2) } := by
    simp [World.finish, FuseOp.changes, changedPath, hwritten]
  have h₁ := h₀.of_restrict.step (.finish true hsecond)
  change Concurrent.Reachable _ _ ⟨w.finish true (.mutation (.truncate pathF 0)) 0,
    Function.update pool true none⟩ at h₁
  rw [hreturned] at h₁
  -- the outdated reply is stored
  have hrunning : Function.update pool true none false = some (.getattr pathF Stat.zero,
      .call (.client (.cacheSet pathF someEntry)) k) :=
    (Function.update_of_ne Bool.false_ne_true _ _).trans hfirst
  have h₂ := h₁.step (.act false (r := true) hrunning ⟨10, cache, hset, rfl⟩)
  rw [hk true] at h₂
  have h₃ := h₂.step (.finish false rfl)
  -- and found by the next operation
  have h₄ := h₃.step (.start false (.getattr pathF Stat.zero) rfl)
  have h₅ := h₄.advance (t := false) rfl (advance_hit .onRun _ false pathF hhit)
  have hle := hall _ h₅ false pathF Stat.zero _ rfl 1
  simp [World.setThread, World.start, World.finish, Progress.start, threads, hmax, FuseOp.changes,
    FuseOp.reads, hread] at hle

end Rhizofs.ReadYourWrites
