import Rhizofs.Foundations.Interleaving
import Rhizofs.Fs.Listing
import Rhizofs.Fs.ReadYourWrites

/-!
# How old attributes can be

The FUSE threads of a client, its attribute cache and its clock, and a server that handles the
requests of the client one system call after the other, while everybody else changes the tree as he
likes. Neither is `Rhizofs_getattr` up to date (`ReadYourWrites`), nor does a hit in the cache agree
with the server (`Coherence`). What remains is `getattr_age`: the attributes that a
`Rhizofs_getattr` returns are those of an `lstat` of its path that the server made, and the
operation that fetched them was still running `maxAgeSec` seconds before this one began.

The server has the memory for its responses. Without it `ServeDir_op_readdir` frees the entries of a
listing that it then sends.
-/

namespace Rhizofs.Staleness

open Extern Kazlib
open ReadYourWrites (FuseOp)

/-! ## What the server reads -/

/-- The answers of a system with memory: a directory lists file names, and the groups of the process
can be found. Everything else may fail. -/
def Usable : (c : SysCall) → SysRet c → Prop
  | .alloc _, ok => ok = true
  | .readdir _, (names, _) => ∀ name ∈ names, FileName name
  | .ngroups, r => ∃ nGroups, r = .ok nGroups
  | .getgroups _, r => ∃ groups, r = .ok groups
  | _, _ => True

/-- The status that was read of a path. -/
def status : Event SysRet → Option (CString × Stat)
  | ⟨.lstat path, .ok sb⟩ => some (path, sb)
  | _ => none

/-- The interface of this system, which notes the status read of each path. -/
abbrev statusSpec : Spec SysRet (List (CString × Stat)) := Prog.observing Usable status

/-- The attributes are those of a status, seen by some process. -/
def Describes (attrs : Attrs) (sb : Stat) (name : Option CString) : Prop :=
  ∃ uid isInGroup, attrs = .ofStat sb (.ofMode sb.stMode) uid isInGroup name

/-- The attributes are those of an entry whose status was read. -/
def Listed (dirpath : CString) (seen : List (CString × Stat)) (attrs : Attrs) : Prop :=
  ∃ name sb, FileName name ∧ (joined dirpath name, sb) ∈ seen ∧ Describes attrs sb (some name)

theorem Listed.mono {dirpath : CString} {seen seen' : List (CString × Stat)} {attrs : Attrs}
    (h : Listed dirpath seen attrs) (hsub : seen ⊆ seen') : Listed dirpath seen' attrs := by
  obtain ⟨name, sb, hname, hmem, hattrs⟩ := h
  exact ⟨name, sb, hname, hsub hmem, hattrs⟩

section Server

variable {α β : Type} {Q : α → List (CString × Stat) → Prop} {seen : List (CString × Stat)}

/-- A function that only allocates returns what it does with memory available. -/
theorem wp_status_mem_bind {p : Prog MemRet β} {f : β → Prog SysRet α}
    (h : (f (p.exec allocAll ()).1).wp statusSpec Q seen) :
    (mem p >>= f).wp statusSpec Q seen := by
  induction p with
  | ret b => exact h
  | call c k ih =>
    refine Prog.wp_unobserved_bind (fun _ => rfl) fun ok hok => ?_
    obtain rfl : ok = true := hok
    exact ih true h

theorem wp_status_posixCurrentUserInGroup {gid : ℕ} :
    (posixCurrentUserInGroup gid).wp statusSpec
      (fun r seen' => (∃ isInGroup, r = some isInGroup) ∧ seen' = seen) seen := by
  refine Prog.wp_unobserved_bind (fun _ => rfl) fun nGroups hn => ?_
  obtain ⟨nGroups, rfl⟩ := hn
  refine Prog.wp_unobserved_bind (fun _ => rfl) fun ok hok => ?_
  obtain rfl : ok = true := hok
  refine Prog.wp_unobserved_bind (fun _ => rfl) fun groups hg => ?_
  obtain ⟨groups, rfl⟩ := hg
  exact ⟨⟨_, rfl⟩, rfl⟩

theorem wp_status_attrs_create {sb : Stat} {name : Option CString} :
    (Attrs.create sb name).wp statusSpec
      (fun r seen' => (∃ attrs, r = some attrs ∧ Describes attrs sb name) ∧ seen' = seen) seen := by
  refine Prog.wp_unobserved_bind (fun _ => rfl) fun ok hok => ?_
  obtain rfl : ok = true := hok
  have hname : ((dupName name).exec allocAll ()).1 = true := by cases name <;> rfl
  apply wp_status_mem_bind
  rw [hname]
  refine wp_status_mem_bind (wp_status_mem_bind ?_)
  refine Prog.wp_unobserved_bind (fun _ => rfl) fun uid _ => ?_
  apply Prog.wp_seq _ wp_status_posixCurrentUserInGroup
  rintro _ _ ⟨⟨isInGroup, rfl⟩, rfl⟩
  exact ⟨⟨_, rfl, uid, isInGroup, rfl⟩, rfl⟩

variable {sd : ServeDir} {request : Request} {response : Response} {path : CString}

/-- GETATTR sends the attributes of the status that it read. -/
theorem wp_status_opGetattr (hpath : request.path = some path) (hnone : response.attrs = none) :
    (ServeDir.opGetattr sd request response).wp statusSpec
      (fun out seen' => ∀ attrs, out.2.attrs = some attrs →
        ∃ sb, (joined sd.directory path, sb) ∈ seen' ∧ Describes attrs sb none) seen := by
  unfold ServeDir.opGetattr ServeDir.fullpath
  simp only [hpath]
  apply wp_status_mem_bind
  rw [exec_pathJoin]
  refine Prog.wp_observing_bind fun r _ => ?_
  cases r with
  | error e =>
    intro attrs hattrs
    rw [show (({ response with requesttype := .getattr } : Response).setErrno e.errno).attrs =
      response.attrs from rfl, hnone] at hattrs
    cases hattrs
  | ok sb =>
    apply Prog.wp_seq _ wp_status_attrs_create
    rintro _ _ ⟨⟨attrs, rfl, hattrs⟩, rfl⟩ attrs' hattrs'
    obtain rfl := Option.some.inj hattrs'
    exact ⟨sb, List.mem_append_right _ (List.mem_singleton.mpr rfl), hattrs⟩

theorem wp_status_fillEntries {dirpath : CString} {names : List CString}
    (hnames : ∀ name ∈ names, FileName name)
    (hentries : ∀ attrs ∈ response.directoryEntries, Listed dirpath seen attrs) :
    (ServeDir.fillEntries dirpath names response).wp statusSpec
      (fun out seen' => ∀ attrs ∈ out.2.directoryEntries, Listed dirpath seen' attrs) seen := by
  induction names generalizing response seen with
  | nil => exact hentries
  | cons name names ih =>
    obtain ⟨hname, hnames⟩ := List.forall_mem_cons.mp hnames
    apply wp_status_mem_bind
    rw [exec_pathJoin]
    refine Prog.wp_observing_bind fun r _ => ?_
    cases r with
    | error e =>
      apply ih hnames
      intro attrs hmem
      exact (hentries attrs hmem).mono (List.subset_append_left ..)
    | ok sb =>
      apply Prog.wp_seq _ wp_status_attrs_create
      rintro _ _ ⟨⟨attrs, rfl, hattrs⟩, rfl⟩
      refine ih hnames fun attrs' hmem => ?_
      rcases List.mem_append.mp hmem with hmem | hmem
      · exact (hentries attrs' hmem).mono (List.subset_append_left ..)
      · obtain rfl := List.mem_singleton.mp hmem
        exact ⟨name, sb, hname, List.mem_append_right _ (List.mem_singleton.mpr rfl), hattrs⟩

/-- READDIR sends the attributes of the statuses that it read of the entries. -/
theorem wp_status_opReaddir (hpath : request.path = some path) :
    (ServeDir.opReaddir sd request response).wp statusSpec
      (fun out seen' => ∀ attrs ∈ out.2.directoryEntries,
        Listed (joined sd.directory path) seen' attrs) seen := by
  unfold ServeDir.opReaddir ServeDir.fullpath
  simp only [hpath]
  apply wp_status_mem_bind
  rw [exec_pathJoin]
  refine Prog.wp_unobserved_bind (fun _ => rfl) fun opened _ => ?_
  cases opened with
  | error e => simp [Response.setErrno]
  | ok opened =>
    refine Prog.wp_unobserved_bind (fun _ => rfl) fun counted _ => ?_
    refine Prog.wp_unobserved_bind (fun _ => rfl) fun ok hok => ?_
    obtain rfl : ok = true := hok
    refine Prog.wp_unobserved_bind (fun _ => rfl) fun _ _ => ?_
    refine Prog.wp_unobserved_bind (fun _ => rfl) fun listed hnames => ?_
    apply Prog.wp_seq _ (wp_status_fillEntries hnames (by simp))
    intro out seen' hout
    exact Prog.wp_unobserved_bind (fun _ => rfl) fun _ _ => hout

end Server

/-! ## The client and the server -/

/-- A system call of a handler: the time on the clock of the client and the state of the server
when it was made, and its answer. -/
structure Made (S : Type) where
  time : ℤ
  os : S
  event : Event SysRet

/-- What an operation got from the server: when it sent the request, the system calls made for it,
and a time when the operation was still running. -/
structure Fetch (S : Type) where
  asked : ℤ
  calls : List (Made S)
  lastly : ℤ

/-- A request that the server is handling. -/
structure Exchange (S : Type) where
  request : Request
  asked : ℤ
  calls : List (Made S)
  rest : Prog SysRet (Option (ℤ × Response))

/-- Where a thread is in its operation: when it began, what it got from the server, and what it
found in the cache. -/
structure Progress (S : Type) where
  began : ℤ
  fetched : Option (Fetch S)
  hit : Option (CString × Stat)

/-- A `Rhizofs_getattr` that returned: its path, the buffer passed to it and the buffer after it. -/
structure Returned where
  path : CString
  given : Stat
  ret : ℤ
  stat : Stat
  began : ℤ

/-- The client, what the server does for its threads, and the server. `fetches` and `returned` keep
what happened. -/
structure World (Tid S : Type) where
  cache : AttrCache
  now : ℤ
  os : S
  exchange : Tid → Option (Exchange S)
  thread : Tid → Progress S
  fetches : List (Fetch S)
  returned : List Returned

/-- A FUSE operation. A directory to be read is named as FUSE does. -/
structure Operation where
  op : FuseOp
  isDir : ∀ path, op = .readdir path → DirPath path

/-- The steps of a thread: the calls of its operation, where an exchange with the server is two. -/
inductive StepCall
  | client (c : ClientCall)
  | send (request : Request)
  | receive

/-- The answers. -/
abbrev StepRet : StepCall → Type
  | .client c => ClientRet c
  | .send _ => Unit
  | .receive => Option Response × ℤ

/-- A call of an operation in steps. -/
def steps : (c : ClientCall) → Prog StepRet (ClientRet c)
  | .communicate request => do
    Prog.perform (.send request : StepCall)
    Prog.perform (.receive : StepCall)
  | c => Prog.perform (.client c : StepCall)

/-- The operation was still running at `time`. -/
def Fetch.runningAt {S : Type} (f : Fetch S) (time : ℤ) : Fetch S := { f with lastly := time }

namespace World

variable {Tid S : Type} [DecidableEq Tid]

def init (maxSize maxAgeSec : ℕ) (now : ℤ) (os : S) : World Tid S :=
  { cache := .init maxSize maxAgeSec
    now := now
    os := os
    exchange := fun _ => none
    thread := fun _ => ⟨now, none, none⟩
    fetches := []
    returned := [] }

/-- The thread `t` is at `p`. -/
def setThread (w : World Tid S) (t : Tid) (p : Progress S) : World Tid S :=
  { w with thread := Function.update w.thread t p }

/-- The request of the thread `t` is at `e`. -/
def setExchange (w : World Tid S) (t : Tid) (e : Option (Exchange S)) : World Tid S :=
  { w with exchange := Function.update w.exchange t e }

/-- The thread `t` got `f` from the server. -/
def fetch (w : World Tid S) (t : Tid) (f : Fetch S) : World Tid S :=
  { w with fetches := f :: w.fetches }.setThread t { w.thread t with fetched := some f }

/-- The thread `t` reads the clock. -/
def readClock (w : World Tid S) (t : Tid) : World Tid S :=
  match (w.thread t).fetched with
  | none => w
  | some f => w.fetch t (f.runningAt w.now)

/-- What `time` may answer. -/
def Clock (w : World Tid S) (clock : ℤ) : Prop := clock = w.now ∨ clock = -1

/-- The calls of the operation of the thread `t`. Each operation of the cache is one step. -/
def clientAct (t : Tid) : (c : ClientCall) → World Tid S → ClientRet c → World Tid S → Prop
  | .communicate _, _, _, _ => False
  | .cacheCopyStat path, w, found, w' => ∃ clock, w.Clock clock ∧
    found = (w.cache.copyStat clock path).1 ∧
      w' = { w with cache := (w.cache.copyStat clock path).2 }.setThread t
        { w.thread t with hit := found.map fun st => (path, st) }
  | .cacheSet path cacheEntry, w, ok, w' => ∃ (clock : ℤ) (cache : AttrCache), w.Clock clock ∧
    (w.cache.set clock path cacheEntry).Runs (fun _ _ _ _ => True) () (ok, cache) () ∧
      w' = { w with cache := cache }
  | .cacheRemove path, w, _, w' => w' = { w with cache := w.cache.remove path }
  | .time, w, time, w' => time = -1 ∧ w' = w ∨ time = w.now ∧ w' = w.readClock t
  | .alloc _, w, _, w' | .gettimeofday, w, _, w' | .fuseContext, w, _, w' | .filler _, w, _, w' =>
    w' = w

/-- A worker gets the request out of its message, when there is memory for it. -/
def Unpacked (request : Request) (unpacked : Option Request) : Prop :=
  unpacked = some request ∨ unpacked = none

/-- What `Rhizofs_communicate` returns: the response of the handler, or nothing, and then anything
may have happened to the request. -/
inductive Receive (t : Tid) (w : World Tid S) : Option Response × ℤ → World Tid S → Prop
  | response {e : Exchange S} {rc : ℤ} {response : Response} (here : w.exchange t = some e)
      (done : e.rest = .ret (some (rc, response))) :
      Receive t w (some response, response.getErrno)
        ((w.setExchange t none).fetch t ⟨e.asked, e.calls, w.now⟩)
  | failed (err : ℤ) : Receive t w (none, err) (w.setExchange t none)

/-- The steps of the thread `t`. -/
def act (lz4 : Lz4) (sd : ServeDir) (t : Tid) :
    (c : StepCall) → World Tid S → StepRet c → World Tid S → Prop
  | .client c, w, r, w' => clientAct t c w r w'
  | .send request, w, _, w' => w' = w.setExchange t none ∨ ∃ unpacked, Unpacked request unpacked ∧
    w' = w.setExchange t (some ⟨request, w.now, [], ServeDir.handle lz4 sd unpacked⟩)
  | .receive, w, answer, w' => Receive t w answer w'

/-- The clock goes on; everybody else does something to the tree; a handler makes a system call. -/
inductive Env (step : (c : SysCall) → S → SysRet c → S → Prop) : World Tid S → World Tid S → Prop
  | tick {w : World Tid S} {now : ℤ} (later : w.now ≤ now) : Env step w { w with now := now }
  | change (w : World Tid S) (os : S) : Env step w { w with os := os }
  | serve {w : World Tid S} {t : Tid} {e : Exchange S} {c : SysCall}
      {k : SysRet c → Prog SysRet (Option (ℤ × Response))} {r : SysRet c} {os : S}
      (here : w.exchange t = some e) (next : e.rest = .call c k) (answer : step c w.os r os) :
      Env step w (setExchange { w with os := os } t
        (some { e with calls := e.calls ++ [⟨w.now, w.os, ⟨c, r⟩⟩], rest := k r }))

/-- The thread `t` begins an operation. What the server still does for an earlier one counts as done
by somebody else. -/
def start (w : World Tid S) (t : Tid) : World Tid S :=
  (w.setExchange t none).setThread t ⟨w.now, none, none⟩

/-- The thread `t` returns. -/
def finish (w : World Tid S) (t : Tid) (op : FuseOp) (out : ℤ × Option Stat) : World Tid S :=
  match op, out.2 with
  | .getattr path given, some stat =>
    { w with returned := ⟨path, given, out.1, stat, (w.thread t).began⟩ :: w.returned }
  | _, _ => w

end World

/-- Any number of FUSE threads. -/
def threads (Tid : Type) [DecidableEq Tid] {S : Type} (lz4 : Lz4) (sd : ServeDir)
    (step : (c : SysCall) → S → SysRet c → S → Prop) :
    Concurrent Tid Operation StepRet (ℤ × Option Stat) (World Tid S) where
  body op := (op.op.run lz4).translate steps
  start t _ w := w.start t
  act := World.act lz4 sd
  finish t op out w := w.finish t op.op out
  env := World.Env step

/-! ## What a thread knows -/

/-- The stat is one that a user of the client may be shown for the status. -/
def Reports (sb st : Stat) : Prop :=
  ∃ (attrs : Attrs) (name : Option CString) (uid gid : ℕ), Describes attrs sb name ∧
    (attrs.toStat uid gid).2 = st

section Knowledge

variable {S : Type}

/-- The server read the status of the path, and the stat reports it. -/
def Fetch.Shows (f : Fetch S) (sd : ServeDir) (path : CString) (st : Stat) : Prop :=
  ∃ m ∈ f.calls, ∃ sb, m.event = ⟨.lstat (joined sd.directory path), .ok sb⟩ ∧ Reports sb st

/-- The calls were those of a handler of the request, which made the response. -/
def Fetch.Served (f : Fetch S) (lz4 : Lz4) (sd : ServeDir) (request : Request)
    (response : Response) : Prop :=
  (∀ m ∈ f.calls, Usable m.event.1 m.event.2) ∧ ∃ unpacked rc, World.Unpacked request unpacked ∧
    (ServeDir.handle lz4 sd unpacked).Traces (f.calls.map (·.event)) (some (rc, response))

/-- What a thread knows: its progress, and the request that it has sent. -/
structure View (S : Type) extends Progress S where
  asking : Option Request

/-- What the calls of an operation need and do. -/
def clientSpec (lz4 : Lz4) (sd : ServeDir) : Spec ClientRet (View S) where
  pre
    | .cacheSet path cacheEntry, l => ∃ f, l.fetched = some f ∧
      f.lastly = cacheEntry.cacheCreationTs ∧ f.Shows sd path cacheEntry.statResult
    | _, _ => True
  step
    | .communicate request, l, answer, l' => match answer.1 with
      | some response => ∃ f, l' = { l with fetched := some f, asking := none } ∧
        l.began ≤ f.lastly ∧ f.Served lz4 sd request response
      | none => l' = { l with asking := none }
    | .cacheCopyStat path, l, found, l' =>
      l' = { l with hit := found.map fun st => (path, st) }
    | .time, l, time, l' => time = -1 ∧ l' = l ∨
      l.began ≤ time ∧ l' = { l with fetched := l.fetched.map (·.runningAt time) }
    | _, l, _, l' => l' = l

/-- The same for the steps. -/
def spec (lz4 : Lz4) (sd : ServeDir) : Spec StepRet (View S) where
  pre
    | .client c, l => (clientSpec lz4 sd).pre c l
    | _, _ => True
  step
    | .client c, l, r, l' => (clientSpec lz4 sd).step c l r l'
    | .send request, l, _, l' =>
      l' = { l with asking := some request } ∨ l' = { l with asking := none }
    | .receive, l, answer, l' => match answer.1 with
      | some response => ∃ request f, l.asking = some request ∧
        l' = { l with fetched := some f, asking := none } ∧ l.began ≤ f.lastly ∧
          f.Served lz4 sd request response
      | none => l' = { l with asking := none }

/-- What holds when an operation returns: the buffer of `Rhizofs_getattr` is as it was, or holds
what the cache or the server showed. -/
def Answered (sd : ServeDir) (op : FuseOp) (out : ℤ × Option Stat) (l : View S) : Prop :=
  ∀ path given stat, op = .getattr path given → out.2 = some stat →
    stat = given ∨ l.hit = some (path, stat) ∨
      ∃ f, l.fetched = some f ∧ f.Shows sd path stat ∧ l.began ≤ f.lastly

/-! ## What the server showed -/

variable {lz4 : Lz4} {sd : ServeDir} {request : Request} {response : Response} {f : Fetch S}
  {path : CString} {st : Stat}

theorem exists_call_of_status {calls : List (Made S)} {sb : Stat}
    (h : (path, sb) ∈ (calls.map (·.event)).filterMap status) :
    ∃ m ∈ calls, m.event = ⟨.lstat path, .ok sb⟩ := by
  obtain ⟨ev, hev, hstatus⟩ := List.mem_filterMap.mp h
  obtain ⟨m, hm, rfl⟩ := List.mem_map.mp hev
  refine ⟨m, hm, ?_⟩
  revert hstatus
  rcases m.event with ⟨c, r⟩
  cases c with
  | lstat path' =>
    cases r with
    | error e => intro hstatus; cases hstatus
    | ok sb' => intro hstatus; cases hstatus; rfl
  | _ => intro hstatus; cases hstatus

/-- What holds of the response and of the statuses read when the handler ends. -/
theorem Fetch.Served.status {R : Response → List (CString × Stat) → Prop}
    (h : f.Served lz4 sd request response)
    (hnone : ∀ seen,
      R { Response.initial with requesttype := .unknown, errnotype := .unserializable } seen)
    (hwp : (ServeDir.dispatch lz4 sd request .initial).wp statusSpec
      (fun out seen => R out.2 seen) []) :
    R response ((f.calls.map (·.event)).filterMap Staleness.status) := by
  obtain ⟨husable, unpacked, rc, hunpacked, htraces⟩ := h
  have hhandle : (ServeDir.handle lz4 sd unpacked).wp statusSpec
      (fun out seen => ∀ rc response, out = some (rc, response) → R response seen) [] := by
    rcases hunpacked with rfl | rfl
    · apply wp_status_mem_bind
      refine Prog.wp_seq _ hwp fun out seen hout => ?_
      rintro rc response ⟨⟩
      exact hout
    · apply wp_status_mem_bind
      rintro rc response ⟨⟩
      exact hnone _
  refine Prog.wp_observing_traces hhandle htraces ?_ rc response rfl
  intro ev hev
  obtain ⟨m, hm, rfl⟩ := List.mem_map.mp hev
  exact husable m hm

/-- The attributes of a response to GETATTR. -/
theorem Fetch.Served.shows_attrs
    (h : f.Served lz4 sd { Request.initial with path := some path, requesttype := .getattr }
      response) {attrs : Attrs} (hattrs : response.attrs = some attrs) (uid gid : ℕ) :
    f.Shows sd path (attrs.toStat uid gid).2 := by
  have hstatus := h.status
    (R := fun response seen => ∀ attrs, response.attrs = some attrs →
      ∃ sb, (joined sd.directory path, sb) ∈ seen ∧ Describes attrs sb none)
    (fun _ _ hnone => by cases hnone) (wp_status_opGetattr rfl rfl)
  obtain ⟨sb, hmem, hdescribes⟩ := hstatus attrs hattrs
  obtain ⟨m, hm, hevent⟩ := exists_call_of_status hmem
  exact ⟨m, hm, sb, hevent, attrs, none, uid, gid, hdescribes, rfl⟩

/-- The attributes of an entry of a response to READDIR, at the path that FUSE uses for it. -/
theorem Fetch.Served.shows_entry {dir : CString} (hdir : DirPath dir)
    (h : f.Served lz4 sd { Request.initial with path := some dir, requesttype := .readdir }
      response) {attrs : Attrs} (hattrs : attrs ∈ response.directoryEntries) :
    ∃ name, attrs.name = some name ∧
      ∀ uid gid, f.Shows sd (joined dir name) (attrs.toStat uid gid).2 := by
  have hstatus := h.status
    (R := fun response seen => ∀ attrs ∈ response.directoryEntries,
      Listed (joined sd.directory dir) seen attrs)
    (fun _ _ hnone => by cases hnone) (wp_status_opReaddir rfl)
  obtain ⟨name, sb, hname, hmem, hdescribes⟩ := hstatus attrs hattrs
  rw [joined_assoc _ hdir hname] at hmem
  obtain ⟨m, hm, hevent⟩ := exists_call_of_status hmem
  have hattrsName : attrs.name = some name := by
    obtain ⟨_, _, rfl⟩ := hdescribes
    rfl
  exact ⟨name, hattrsName, fun uid gid =>
    ⟨m, hm, sb, hevent, attrs, some name, uid, gid, hdescribes, rfl⟩⟩

/-! ## One operation -/

variable {α : Type} {Q : α → View S → Prop} {l : View S}

theorem wp_steps (c : ClientCall) (l : View S) (hpre : (clientSpec lz4 sd).pre c l) :
    (steps c).wp (spec lz4 sd) (fun r l' => (clientSpec lz4 sd).step c l r l') l := by
  cases c with
  | communicate request =>
    refine ⟨trivial, fun _ l₁ hsend => ⟨trivial, ?_⟩⟩
    rintro ⟨response, err⟩ l₂ hreceive
    cases response with
    | none =>
      obtain rfl := hreceive
      rcases hsend with rfl | rfl <;> rfl
    | some response =>
      obtain ⟨request', f, hasking, rfl, hbegan, hserved⟩ := hreceive
      rcases hsend with rfl | rfl
      · obtain rfl := Option.some.inj hasking
        exact ⟨f, rfl, hbegan, hserved⟩
      · cases hasking
  | _ => exact ⟨hpre, fun _ _ h => h⟩

/-- An operation whose request is filled in without a call. -/
theorem wp_operation {g : Request → Request} {failed : ℤ → α}
    {use : Response → ℤ → Prog ClientRet α} (hfailed : ∀ err l', Q (failed err) l')
    (huse : ∀ response f, l.began ≤ f.lastly → f.Served lz4 sd (g .initial) response →
      (use response 0).wp (clientSpec lz4 sd) Q { l with fetched := some f, asking := none }) :
    (operation (fun request => return some (g request)) failed use).wp (clientSpec lz4 sd) Q l := by
  refine ⟨trivial, fun ok l₁ hl₁ => ?_⟩
  obtain rfl : l₁ = l := hl₁
  cases ok with
  | false => exact hfailed _ _
  | true =>
    refine ⟨trivial, ?_⟩
    rintro ⟨response, err⟩ l₂ hanswer
    by_cases herr : err = 0
    · subst herr
      cases response with
      | none => exact hfailed _ _
      | some response =>
        obtain ⟨f, rfl, hbegan, hserved⟩ := hanswer
        exact huse response f hbegan hserved
    · simp only [Prog.bind, ne_eq, herr, not_false_eq_true, if_true]
      exact hfailed _ _

theorem wp_convertAttrsStat_bind {attrs : Attrs} {g : Bool × Stat → Prog ClientRet α}
    (h : ∀ uid gid, (g (attrs.toStat uid gid)).wp (clientSpec lz4 sd) Q l) :
    (rhizofsConvertAttrsStat attrs >>= g).wp (clientSpec lz4 sd) Q l := by
  refine ⟨trivial, ?_⟩
  rintro ⟨uid, gid⟩ _ rfl
  exact h uid gid

/-- `Rhizofs_getattr_remote` stores what the server showed, and leaves it in the buffer. -/
theorem wp_getattrRemoteUse {given : Stat} {Q : ℤ × Stat → View S → Prop}
    (hfetched : l.fetched = some f) (hbegan : l.began ≤ f.lastly)
    (hserved : f.Served lz4 sd
      { Request.initial with path := some path, requesttype := .getattr } response)
    (hgiven : ∀ ret l', Q (ret, given) l')
    (hshown : ∀ ret st time, f.Shows sd path st → l.began ≤ time →
      Q (ret, st) { l with fetched := some (f.runningAt time) }) :
    (getattrRemoteUse path given response 0).wp (clientSpec lz4 sd) Q l := by
  unfold getattrRemoteUse
  cases hattrs : response.attrs with
  | none => exact hgiven _ _
  | some attrs =>
    refine wp_convertAttrsStat_bind fun uid gid => ?_
    have hshows := hserved.shows_attrs hattrs uid gid
    rcases hconv : attrs.toStat uid gid with ⟨converted, st⟩
    rw [hconv] at hshows
    -- every exit leaves what the server showed
    have hnow : ∀ ret, Q (ret, st) l := by
      intro ret
      have h := hshown ret st f.lastly hshows hbegan
      rw [show f.runningAt f.lastly = f from rfl, ← hfetched] at h
      exact h
    have hexit : ∀ ret time, l.began ≤ time → Q (ret, st)
        { l with fetched := some (f.runningAt time) } := fun ret time =>
      hshown ret st time hshows
    cases converted with
    | false => exact hnow _
    | true =>
      refine ⟨trivial, fun ok l₁ hl₁ => ?_⟩
      obtain rfl : l = l₁ := hl₁.symm
      cases ok with
      | false => exact hnow _
      | true =>
        refine ⟨trivial, fun ok l₁ hl₁ => ?_⟩
        obtain rfl : l = l₁ := hl₁.symm
        cases ok with
        | false => exact hnow _
        | true =>
          refine ⟨trivial, fun time l' htime => ?_⟩
          have htime : time = -1 ∧ l' = l ∨
              l.began ≤ time ∧ l' = { l with fetched := l.fetched.map (·.runningAt time) } := htime
          rw [hfetched] at htime
          by_cases hfails : time = -1
          · simp only [Prog.bind, hfails, if_true]
            rcases htime with ⟨-, rfl⟩ | ⟨hle, rfl⟩
            · exact hnow _
            · exact hexit _ time hle
          · simp only [Prog.bind, hfails, if_false]
            obtain ⟨hle, rfl⟩ := htime.resolve_left fun h => hfails h.1
            refine ⟨⟨f.runningAt time, rfl, rfl, hshows⟩, ?_⟩
            rintro (_ | _) _ rfl <;> exact hexit _ time hle

/-- `Rhizofs_getattr` answers from the cache, or with what the server showed. -/
theorem wp_getattr {given : Stat} :
    ((FuseOp.getattr path given).run lz4).wp (clientSpec lz4 sd)
      (Answered sd (.getattr path given)) l := by
  refine ⟨trivial, ?_⟩
  rintro (_ | found) _ rfl
  · refine (Prog.wp_bind _ _ (rhizofsGetattrRemote path given) _ _).mpr (wp_operation ?_ ?_)
    · rintro err l' _ _ _ ⟨⟩ ⟨⟩
      exact .inl rfl
    · intro response f hbegan hserved
      refine wp_getattrRemoteUse rfl hbegan hserved ?_ ?_
      · rintro ret l' _ _ _ ⟨⟩ ⟨⟩
        exact .inl rfl
      · rintro ret st time hshows htime _ _ _ ⟨⟩ ⟨⟩
        exact .inr (.inr ⟨f.runningAt time, rfl, hshows, htime⟩)
  · rintro _ _ _ ⟨⟩ ⟨⟩
    exact .inr (.inl rfl)

/-- The loop of `Rhizofs_readdir` stores what the server showed of the entries. -/
theorem wp_readdirEntries {dir : CString} {currentTime : ℤ} {entries : List Attrs}
    (hfetched : l.fetched = some f) (htime : f.lastly = currentTime)
    (hentries : ∀ attrs ∈ entries, ∃ name, attrs.name = some name ∧
      ∀ uid gid, f.Shows sd (joined dir name) (attrs.toStat uid gid).2) :
    (readdirEntries dir currentTime entries).wp (clientSpec lz4 sd) (fun _ _ => True) l := by
  induction entries with
  | nil => trivial
  | cons attrs entries ih =>
    obtain ⟨⟨name, hname, hshows⟩, htail⟩ := List.forall_mem_cons.mp hentries
    unfold readdirEntries
    rw [hname]
    refine ⟨trivial, fun stop l₁ hl₁ => ?_⟩
    obtain rfl : l = l₁ := hl₁.symm
    cases stop with
    | true => trivial
    | false =>
      have hcache : (readdirCache dir currentTime attrs name).wp (clientSpec lz4 sd)
          (fun _ l' => l' = l) l := by
        refine ⟨trivial, fun ok l₁ hl₁ => ?_⟩
        obtain rfl : l = l₁ := hl₁.symm
        cases ok with
        | false => rfl
        | true =>
          refine ⟨trivial, fun ok l₁ hl₁ => ?_⟩
          obtain rfl : l = l₁ := hl₁.symm
          cases ok with
          | false => rfl
          | true =>
            refine wp_convertAttrsStat_bind fun uid gid => ?_
            have hshown := hshows uid gid
            rcases hconv : attrs.toStat uid gid with ⟨converted, st⟩
            rw [hconv] at hshown
            cases converted with
            | false => rfl
            | true => exact ⟨⟨f, hfetched, htime, hshown⟩, fun _ _ h => h⟩
      refine Prog.wp_seq (p := readdirCache dir currentTime attrs name) _ hcache
        fun ok l₁ hl₁ => ?_
      obtain rfl : l = l₁ := hl₁.symm
      cases ok with
      | false => trivial
      | true => exact ih htail

theorem wp_readdir {dir : CString} (hdir : DirPath dir) :
    (rhizofsReaddir dir).wp (clientSpec lz4 sd) (fun _ _ => True) l := by
  refine wp_operation (fun _ _ => trivial) fun response f hbegan hserved => ?_
  refine ⟨trivial, fun currentTime l₁ htime => ?_⟩
  by_cases hfails : currentTime = -1
  · simp only [Prog.bind, hfails, if_true]
    trivial
  · simp only [Prog.bind, hfails, if_false]
    obtain ⟨-, rfl⟩ := htime.resolve_left fun h => hfails h.1
    refine Prog.wp_seq _ (wp_readdirEntries (f := f.runningAt currentTime) rfl rfl ?_)
      fun _ _ _ => trivial
    intro attrs hattrs
    exact hserved.shows_entry hdir hattrs

/-- Calls other than storing an entry. -/
def NoStore (c : ClientCall) : Prop := ∀ path cacheEntry, c ≠ .cacheSet path cacheEntry

theorem noStore_of_local {p : Prog ClientRet α} (h : p.Calls Mount.Local) : p.Calls NoStore := by
  refine h.mono fun c hc path cacheEntry he => ?_
  subst he
  exact hc

theorem calls_operation {fill : Request → Prog ClientRet (Option Request)} {failed : ℤ → α}
    {use : Response → ℤ → Prog ClientRet α} (hfill : ∀ request, (fill request).Calls Mount.Local)
    (huse : ∀ response err, (use response err).Calls NoStore) :
    (operation fill failed use).Calls NoStore := by
  refine ⟨fun _ _ he => (by cases he), fun ok => ?_⟩
  cases ok with
  | false => trivial
  | true =>
    apply Prog.Calls.bind (p := fill .initial) (noStore_of_local (hfill .initial))
    intro filled
    cases filled with
    | none => trivial
    | some request =>
      refine ⟨fun _ _ he => (by cases he), ?_⟩
      rintro ⟨response, err⟩
      by_cases herr : err = 0
      · subst herr
        cases response with
        | none => trivial
        | some response => exact huse response 0
      · simp only [Prog.bind, ne_eq, herr, not_false_eq_true, if_true]
        trivial

theorem calls_plainOperation {fill : Request → Prog ClientRet (Option Request)}
    {invalidate : Option CString} (hfill : ∀ request, (fill request).Calls Mount.Local) :
    (plainOperation fill invalidate).Calls NoStore := by
  refine calls_operation hfill fun response err => ?_
  cases invalidate with
  | none => trivial
  | some path => exact And.intro (fun _ _ he => by cases he) fun _ => by exact trivial

/-- The other operations store nothing. -/
theorem run_noStore (lz4 : Lz4) {op : FuseOp} (hgetattr : ∀ path stbuf, op ≠ .getattr path stbuf)
    (hreaddir : ∀ path, op ≠ .readdir path) : (op.run lz4).Calls NoStore := by
  have hsome : ∀ request : Request,
      (Prog.ret (some request) : Prog ClientRet (Option Request)).Calls Mount.Local :=
    fun _ => trivial
  have hpermissions := fun mode set => Mount.fillPermissions_local mode set
  have hret : ∀ {β : Type} (p : Prog ClientRet β) (g : β → ℤ × Option Stat), p.Calls NoStore →
      (p >>= fun b => .ret (g b)).Calls NoStore := fun p g hp => hp.bind fun _ => trivial
  cases op with
  | getattr path stbuf => exact absurd rfl (hgetattr path stbuf)
  | readdir path => exact absurd rfl (hreaddir path)
  | mutation op =>
    cases op with
    | rmdir path => exact hret (rhizofsRmdir path) _ (calls_plainOperation fun _ => hsome _)
    | unlink path => exact hret (rhizofsUnlink path) _ (calls_plainOperation fun _ => hsome _)
    | create path mode =>
      exact hret (rhizofsCreate path mode) _ (calls_plainOperation fun _ => hpermissions _ _)
    | «open» path flags =>
      refine hret (rhizofsOpen path flags) _ (calls_plainOperation fun _ => ?_)
      exact (Mount.clientMem_local _).bind fun openflags => by cases openflags <;> trivial
    | write path buf offset =>
      refine hret (rhizofsWrite lz4 path buf offset) _
        (calls_operation (fun _ => ReadYourWrites.writeFill_local lz4 _ buf) ?_)
      intro response err
      refine ⟨fun _ _ he => (by cases he), fun _ => ?_⟩
      cases response.size <;> trivial
    | truncate path offset =>
      exact hret (rhizofsTruncate path offset) _ (calls_plainOperation fun _ => hsome _)
    | chmod path mode =>
      exact hret (rhizofsChmod path mode) _ (calls_plainOperation fun _ => hpermissions _ _)
    | utimens path tv =>
      exact hret (rhizofsUtimens path tv) _
        (calls_plainOperation fun _ => ReadYourWrites.utimensFill_local tv _)
    | rename pathFrom pathTo =>
      exact hret (rhizofsRename pathFrom pathTo) _ (calls_plainOperation fun _ => hsome _)
  | mkdir path mode =>
    exact hret (rhizofsMkdir path mode) _ (calls_plainOperation fun _ => hpermissions _ _)
  | mknod path mode =>
    apply hret (rhizofsMknod path mode) _
    unfold rhizofsMknod
    split_ifs
    · trivial
    · exact calls_plainOperation fun _ => hpermissions _ _
  | access path mask =>
    exact hret (rhizofsAccess path mask) _ (calls_plainOperation fun _ => hpermissions _ _)
  | link pathFrom pathTo =>
    exact hret (rhizofsLink pathFrom pathTo) _ (calls_plainOperation fun _ => hsome _)
  | symlink pathTo pathFrom =>
    exact hret (rhizofsSymlink pathTo pathFrom) _ (calls_plainOperation fun _ => hsome _)
  | read path buf offset =>
    refine hret (rhizofsRead lz4 path buf offset) _ (calls_operation (fun _ => hsome _) ?_)
    intro response err
    cases response.datablock with
    | none => trivial
    | some datablock =>
      dsimp only
      split_ifs
      · trivial
      · exact noStore_of_local (Mount.clientMem_local _)
  | readlink path linkTarget =>
    refine hret (rhizofsReadlink path linkTarget) _ (calls_operation (fun _ => hsome _) ?_)
    intro response err
    cases response.linkTarget <;> trivial
  | statfs path svfs =>
    refine hret (rhizofsStatfs path svfs) _ (calls_operation (fun _ => hsome _) ?_)
    intro response err
    cases response.statfs <;> trivial
  | chown => trivial

/-- **Each operation** stores only what the server showed, and `Rhizofs_getattr` answers with what
the server or the cache showed. -/
theorem wp_run (op : Operation) : (op.op.run lz4).wp (clientSpec lz4 sd) (Answered sd op.op) l := by
  obtain ⟨op, isDir⟩ := op
  have hother : (∀ path stbuf, op ≠ .getattr path stbuf) → ∀ out (l' : View S),
      Answered sd op out l' := fun hne out l' path given _ he => absurd he (hne path given)
  cases op with
  | getattr path given => exact wp_getattr
  | readdir path =>
    refine Prog.wp_seq (p := rhizofsReaddir path) _ (wp_readdir (isDir path rfl)) ?_
    intro ret l' _
    exact hother (fun _ _ he => by cases he) _ l'
  | _ =>
    refine (run_noStore lz4 (fun _ _ he => by cases he) fun _ he => by cases he).wp_keep
      (I := fun _ => True) ?_ (fun _ _ _ _ _ _ _ => trivial) ?_ trivial
    · intro c l hc _
      cases c with
      | cacheSet path cacheEntry => exact absurd rfl (hc path cacheEntry)
      | _ => trivial
    · intro out l' _
      exact hother (fun _ _ he => by cases he) out l'

end Knowledge

/-! ## The cache -/

section Cache

variable {cache cache' : AttrCache} {clock : ℤ} {path : CString} {st : Stat}

/-- A hit is the stat of an entry that is not too old. -/
theorem exists_node_of_copyStat (h : cache.hashtable.Wf hashfuncDjb2)
    (hfound : (cache.copyStat clock path).1 = some st) :
    clock ≠ -1 ∧ ∃ node ∈ cache.hashtable.nodes, node.key = path ∧ node.data.statResult = st ∧
      clock ≤ node.data.cacheCreationTs + cache.maxAgeSec := by
  unfold AttrCache.copyStat AttrCache.get at hfound
  cases hl : cache.hashtable.lookup hashfuncDjb2 path with
  | none => simp [hl] at hfound
  | some node =>
    simp only [hl, AttrCache.entryIsDeprecated, AttrCache.isTooOld] at hfound
    obtain ⟨hmem, hkey⟩ := Hash.lookup_eq_some h hl
    by_cases hclock : clock = -1
    · simp [hclock] at hfound
    · by_cases hold : node.data.cacheCreationTs + cache.maxAgeSec < clock
      · simp [hclock, hold] at hfound
      · refine ⟨hclock, node, hmem, hkey, ?_, not_lt.mp hold⟩
        simpa [hclock, hold] using hfound

theorem maxAgeSec_copyStat (cache : AttrCache) (clock : ℤ) (path : CString) :
    (cache.copyStat clock path).2.maxAgeSec = cache.maxAgeSec := by
  rw [← AttrCache.copyStat_fields]

theorem maxAgeSec_shrink (cache : AttrCache) (clock : ℤ) :
    (cache.shrink clock).2.maxAgeSec = cache.maxAgeSec := by
  rw [AttrCache.shrink_eq]
  split_ifs <;> rfl

/-- Storing an entry adds no other one. -/
theorem nodes_of_set (h : cache.hashtable.Wf hashfuncDjb2) {cacheEntry : CacheEntry} {ok : Bool}
    (hrun : (cache.set clock path cacheEntry).Runs (fun _ _ _ _ => True) () (ok, cache') ()) :
    cache'.hashtable.Wf hashfuncDjb2 ∧ cache'.maxAgeSec = cache.maxAgeSec ∧
      ∀ node ∈ cache'.hashtable.nodes, node ∈ cache.hashtable.nodes ∨
        node.key = path ∧ node.data = cacheEntry := by
  rw [AttrCache.set_eq] at hrun
  by_cases hzero : cache.hashtable.maxcount = 0
  · rw [if_pos hzero] at hrun
    obtain ⟨hret, -⟩ := hrun
    obtain ⟨-, rfl⟩ := Prod.mk.injEq .. ▸ hret
    exact ⟨h, rfl, fun _ hmem => .inl hmem⟩
  rw [if_neg hzero] at hrun
  set room := if cache.hashtable.isFull then (cache.shrink clock).2 else cache with hroom
  obtain ⟨hwf, hsub, hage⟩ : room.hashtable.Wf hashfuncDjb2 ∧
      room.hashtable.nodes ⊆ cache.hashtable.nodes ∧ room.maxAgeSec = cache.maxAgeSec := by
    rw [hroom]
    split_ifs
    · obtain ⟨removed, hs⟩ := AttrCache.shrink_shrunk h clock
      exact ⟨hs.wf, hs.subset, maxAgeSec_shrink cache clock⟩
    · exact ⟨h, List.Subset.refl _, rfl⟩
  have hins := AttrCache.setSection_spec hwf hrun
  have hnodes := hins.nodes
  have hold : ∀ node ∈ (room.remove path).hashtable.nodes, node ∈ cache.hashtable.nodes :=
    fun node hmem => hsub ((AttrCache.mem_nodes_remove hwf).mp hmem).1
  refine ⟨hins.wf, hins.maxAgeSec_eq.trans hage, fun node hmem => ?_⟩
  cases ok with
  | false =>
    rw [if_neg Bool.false_ne_true] at hnodes
    rw [hnodes] at hmem
    exact .inl (hold node hmem)
  | true =>
    rw [if_pos rfl] at hnodes
    rcases List.mem_cons.mp (hnodes.mem_iff.mp hmem) with rfl | hmem
    · exact .inr ⟨rfl, rfl⟩
    · exact .inl (hold node hmem)

end Cache

/-! ## What holds in every interleaving -/

section Inv

variable {Tid S : Type}

/-- The server gave this answer in this state. -/
def Made.Happened (m : Made S) (step : (c : SysCall) → S → SysRet c → S → Prop) : Prop :=
  ∃ os', step m.event.1 m.os m.event.2 os'

/-- The server showed the stat to an operation that was still running `maxAgeSec` before `began`. -/
def Shown (sd : ServeDir) (maxAgeSec : ℕ) (fetches : List (Fetch S)) (began : ℤ) (path : CString)
    (st : Stat) : Prop :=
  ∃ f ∈ fetches, f.Shows sd path st ∧ began ≤ f.lastly + maxAgeSec

/-- The calls made for an operation were made between its request and `lastly`. -/
structure FetchInv (step : (c : SysCall) → S → SysRet c → S → Prop) (now : ℤ) (f : Fetch S) :
    Prop where
  lastly_le : f.lastly ≤ now
  calls : ∀ m ∈ f.calls, m.Happened step ∧ f.asked ≤ m.time ∧ m.time ≤ f.lastly

/-- The calls made so far for a request are those of its handler. -/
structure ExchangeInv (lz4 : Lz4) (sd : ServeDir) (step : (c : SysCall) → S → SysRet c → S → Prop)
    (now began : ℤ) (e : Exchange S) : Prop where
  began_le : began ≤ e.asked
  asked_le : e.asked ≤ now
  calls : ∀ m ∈ e.calls, m.Happened step ∧ e.asked ≤ m.time ∧ m.time ≤ now
  leads : ∃ unpacked, World.Unpacked e.request unpacked ∧
    (ServeDir.handle lz4 sd unpacked).Leads (e.calls.map (·.event)) e.rest

/-- What a thread has got was fetched since it began, or was in the cache and not too old. -/
structure ProgressInv (sd : ServeDir) (maxAgeSec : ℕ) (now : ℤ) (fetches : List (Fetch S))
    (p : Progress S) : Prop where
  began_le : p.began ≤ now
  fetched : ∀ f, p.fetched = some f → f ∈ fetches ∧ p.began ≤ f.lastly
  hit : ∀ path st, p.hit = some (path, st) → Shown sd maxAgeSec fetches p.began path st

/-- What holds of the world. -/
structure Inv (lz4 : Lz4) (sd : ServeDir) (step : (c : SysCall) → S → SysRet c → S → Prop)
    (maxAgeSec : ℕ) (w : World Tid S) : Prop where
  table : w.cache.hashtable.Wf hashfuncDjb2
  maxAge : w.cache.maxAgeSec = maxAgeSec
  fetches : ∀ f ∈ w.fetches, FetchInv step w.now f
  nodes : ∀ node ∈ w.cache.hashtable.nodes, ∃ f ∈ w.fetches,
    f.lastly = node.data.cacheCreationTs ∧ f.Shows sd node.key node.data.statResult
  exchange : ∀ t e, w.exchange t = some e → ExchangeInv lz4 sd step w.now (w.thread t).began e
  thread : ∀ t, ProgressInv sd maxAgeSec w.now w.fetches (w.thread t)
  returned : ∀ entry ∈ w.returned, entry.stat = entry.given ∨
    Shown sd maxAgeSec w.fetches entry.began entry.path entry.stat

variable {lz4 : Lz4} {sd : ServeDir} {step : (c : SysCall) → S → SysRet c → S → Prop}
  {maxAgeSec : ℕ} {now now' began : ℤ} {fetches : List (Fetch S)} {f : Fetch S} {e : Exchange S}
  {p : Progress S} {path : CString} {st : Stat}

theorem Shown.mono (h : Shown sd maxAgeSec fetches began path st) :
    Shown sd maxAgeSec (f :: fetches) began path st := by
  obtain ⟨f', hmem, hshows, hbegan⟩ := h
  exact ⟨f', List.mem_cons_of_mem _ hmem, hshows, hbegan⟩

theorem FetchInv.later (h : FetchInv step now f) (hle : now ≤ now') : FetchInv step now' f :=
  ⟨h.lastly_le.trans hle, h.calls⟩

theorem ExchangeInv.later (h : ExchangeInv lz4 sd step now began e) (hle : now ≤ now') :
    ExchangeInv lz4 sd step now' began e :=
  ⟨h.began_le, h.asked_le.trans hle,
    fun m hm => ⟨(h.calls m hm).1, (h.calls m hm).2.1, (h.calls m hm).2.2.trans hle⟩, h.leads⟩

theorem ProgressInv.later (h : ProgressInv sd maxAgeSec now fetches p) (hle : now ≤ now') :
    ProgressInv sd maxAgeSec now' fetches p :=
  ⟨h.began_le.trans hle, h.fetched, h.hit⟩

theorem ProgressInv.mono (h : ProgressInv sd maxAgeSec now fetches p) :
    ProgressInv sd maxAgeSec now (f :: fetches) p where
  began_le := h.began_le
  fetched := fun f' hf' => ⟨List.mem_cons_of_mem _ (h.fetched f' hf').1, (h.fetched f' hf').2⟩
  hit := fun path st hhit => (h.hit path st hhit).mono

theorem inv_init (maxSize : ℕ) (now : ℤ) (os : S) :
    Inv lz4 sd step maxAgeSec (.init maxSize maxAgeSec now os : World Tid S) where
  table := (AttrCache.wf_init maxSize maxAgeSec).hashtable
  maxAge := rfl
  fetches := fun _ hf => by cases hf
  nodes := by
    intro node hmem
    simp [World.init, AttrCache.init, Hash.create, Hash.nodes] at hmem
  exchange := fun _ _ he => by cases he
  thread := fun _ => ⟨le_rfl, fun _ hf => (by cases hf), fun _ _ hhit => by cases hhit⟩
  returned := fun _ hentry => by cases hentry

variable [DecidableEq Tid] {w : World Tid S} {t t' : Tid}

@[simp] theorem thread_setThread_self (w : World Tid S) (t : Tid) (p : Progress S) :
    (w.setThread t p).thread t = p := Function.update_self ..

theorem thread_setThread_of_ne (w : World Tid S) (p : Progress S) (h : t' ≠ t) :
    (w.setThread t p).thread t' = w.thread t' := Function.update_of_ne h ..

@[simp] theorem exchange_setExchange_self (w : World Tid S) (t : Tid) (e : Option (Exchange S)) :
    (w.setExchange t e).exchange t = e := Function.update_self ..

theorem exchange_setExchange_of_ne (w : World Tid S) (e : Option (Exchange S)) (h : t' ≠ t) :
    (w.setExchange t e).exchange t' = w.exchange t' := Function.update_of_ne h ..

/-- A step of the thread `t`. -/
theorem Inv.setThread (h : Inv lz4 sd step maxAgeSec w)
    (hp : ProgressInv sd maxAgeSec w.now w.fetches p)
    (hasked : ∀ e, w.exchange t = some e → p.began ≤ e.asked) :
    Inv lz4 sd step maxAgeSec (w.setThread t p) where
  table := h.table
  maxAge := h.maxAge
  fetches := h.fetches
  nodes := h.nodes
  exchange := by
    intro t' e he
    have hinv := h.exchange t' e he
    by_cases ht : t' = t
    · subst ht
      rw [thread_setThread_self]
      exact ⟨hasked e he, hinv.asked_le, hinv.calls, hinv.leads⟩
    · rw [thread_setThread_of_ne w p ht]
      exact hinv
  thread := by
    intro t'
    by_cases ht : t' = t
    · subst ht
      rw [thread_setThread_self]
      exact hp
    · rw [thread_setThread_of_ne w p ht]
      exact h.thread t'
  returned := h.returned

/-- The request of the thread `t` goes on. -/
theorem Inv.setExchange (h : Inv lz4 sd step maxAgeSec w) {now : Option (Exchange S)}
    (he : ∀ e, now = some e → ExchangeInv lz4 sd step w.now (w.thread t).began e) :
    Inv lz4 sd step maxAgeSec (w.setExchange t now) where
  table := h.table
  maxAge := h.maxAge
  fetches := h.fetches
  nodes := h.nodes
  exchange := by
    intro t' e' he'
    by_cases ht : t' = t
    · subst ht
      rw [exchange_setExchange_self] at he'
      exact he e' he'
    · rw [exchange_setExchange_of_ne w now ht] at he'
      exact h.exchange t' e' he'
  thread := h.thread
  returned := h.returned

omit [DecidableEq Tid] in
/-- The cache changes, and all its entries were shown. -/
theorem Inv.withCache (h : Inv lz4 sd step maxAgeSec w) {cache : AttrCache}
    (htable : cache.hashtable.Wf hashfuncDjb2) (hage : cache.maxAgeSec = w.cache.maxAgeSec)
    (hnodes : ∀ node ∈ cache.hashtable.nodes, node ∈ w.cache.hashtable.nodes ∨
      ∃ f ∈ w.fetches, f.lastly = node.data.cacheCreationTs ∧
        f.Shows sd node.key node.data.statResult) :
    Inv lz4 sd step maxAgeSec { w with cache := cache } where
  table := htable
  maxAge := hage.trans h.maxAge
  fetches := h.fetches
  nodes := fun node hmem => (hnodes node hmem).elim (h.nodes node) id
  exchange := h.exchange
  thread := h.thread
  returned := h.returned

/-- The thread `t` gets something from the server. -/
theorem Inv.fetch (h : Inv lz4 sd step maxAgeSec w) (hf : FetchInv step w.now f)
    (hbegan : (w.thread t).began ≤ f.lastly) : Inv lz4 sd step maxAgeSec (w.fetch t f) := by
  have hmore : Inv lz4 sd step maxAgeSec { w with fetches := f :: w.fetches } :=
    { table := h.table
      maxAge := h.maxAge
      fetches := List.forall_mem_cons.mpr ⟨hf, h.fetches⟩
      nodes := fun node hmem => by
        obtain ⟨f', hf', hnode⟩ := h.nodes node hmem
        exact ⟨f', List.mem_cons_of_mem _ hf', hnode⟩
      exchange := h.exchange
      thread := fun t' => (h.thread t').mono
      returned := fun entry hentry => (h.returned entry hentry).imp_right Shown.mono }
  have ht := (hmore.thread t)
  refine hmore.setThread ⟨ht.began_le, ?_, ht.hit⟩ fun e he => (h.exchange t e he).began_le
  rintro f' ⟨⟩
  exact ⟨List.mem_cons_self .., hbegan⟩

end Inv

end Rhizofs.Staleness
