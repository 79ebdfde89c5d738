import Rhizofs.Server.Trace

/-!
# When the server reports success

A run of a handler is a trace: the calls it made with the answers received. This module says
exactly which runs end with `errnotype` `none` although the handler gave up or a call of the
operation failed.

* `Refused` and `Reports` are the failures that reach the response; `Lost` collects those that do
  not: a request without a path, a failed last allocation, a failed group lookup, a failed pass
  over a directory, and for WRITE a block that does not decode or a failed `close`.
* `Verdict` splits the runs into reported, lost and done ones; `dispatch_verdict` decides it for
  every handler.
* `handle_honest_iff` is the condition under which success is reported truthfully.
-/

namespace Rhizofs

open Extern

/-- The call `op` was made and succeeded. -/
def Did (tr : Trace) (op : PathOp) : Prop := (⟨.path op, .ok ()⟩ : Event SysRet) ∈ tr

/-- A failed answer that a handler for requests of type `type` passes on to the client. -/
def Reports (type : RequestType) : Event SysRet → Prop
  | ⟨.alloc (.entries _), false⟩ => True
  | ⟨.path _, .error _⟩ => type ≠ .write
  | ⟨.opendir _, .error _⟩ => True
  | ⟨.lstat _, .error _⟩ => True
  | ⟨.readlink _ _, .error _⟩ => True
  | ⟨.statvfs _, .error _⟩ => True
  | ⟨.open _ _ _, .error _⟩ => True
  | ⟨.creat _ _, .error _⟩ => True
  | ⟨.read _ _, .error _⟩ => True
  | ⟨.pread _ _ _, .error _⟩ => True
  | ⟨.pwrite _ _ _, .error _⟩ => True
  | _ => False

/-- MKNOD is asked for something other than a regular file. -/
def Request.IrregularFile (request : Request) : Prop :=
  ∀ permissions filetype, request.permissions = some permissions →
    request.filetype = some filetype →
    isFileType (permissions.toBitmask ||| filetype.toLocal) S_IFREG = false

/-- The handler rejects the request with an error because of its fields. -/
def Refused (request : Request) : Prop :=
  match request.requesttype with
  | .access | .mkdir | .chmod | .create => request.permissions = none
  | .rename | .link | .symlink => request.pathTo = none
  | .open => request.openflags = none
  | .read => request.size = none ∨ request.offset = none
  | .write => request.size = none ∨ request.offset = none ∨ request.hasData = -1
  | .truncate => request.offset = none
  | .utimens => request.timestamps = none
  | .mknod => request.permissions = none ∨ request.filetype = none ∨ request.IrregularFile
  | .stat | .unknown | .invalid | .other _ => True
  | .ping | .readdir | .rmdir | .unlink | .getattr | .readlink | .statfs => False

/-- The data of a WRITE decodes to `data`. -/
def Request.Carries (lz4 : Lz4) (request : Request) (data : List UInt8) : Prop :=
  ∃ datablock size, request.datablock = some datablock ∧ request.size = some size ∧
    (ServeDir.writeData lz4 datablock size).exec allocAll () = (some data, ())

/-- The run reported a failure. -/
def Reported (request : Request) (tr : Trace) : Prop :=
  Refused request ∨ ∃ ev ∈ tr, Reports request.requesttype ev

/-- Something went wrong in a way the handler does not report. -/
def Lost (lz4 : Lz4) (request : Request) (tr : Trace) : Prop :=
  request.path = none ∨ lastAlloc tr = some false ∨ (∃ ev ∈ tr, Drops request.requesttype ev) ∨
    request.requesttype = .write ∧ ∀ data, ¬ request.Carries lz4 data

/-- The file-system calls the request asks for were made on the full path `path` and
succeeded. -/
def PerformedOn (lz4 : Lz4) (sd : ServeDir) (request : Request) (tr : Trace) (path : CString) :
    Prop :=
  match request.requesttype with
  | .readdir => (⟨.opendir path, .ok ()⟩ : Event SysRet) ∈ tr ∧
      (∀ dir answer, (⟨.readdir dir, answer⟩ : Event SysRet) ∈ tr → answer.2 = none) ∧
      ∃ names, (⟨.readdir path, (names, none)⟩ : Event SysRet) ∈ tr ∧ ∀ name ∈ names,
        ∃ sb, (⟨.lstat (joined path name), .ok sb⟩ : Event SysRet) ∈ tr
  | .rmdir => Did tr (.rmdir path)
  | .unlink => Did tr (.unlink path)
  | .access => ∃ permissions, request.permissions = some permissions ∧
      Did tr (.access path permissions.toBitmask)
  | .rename => ∃ pathTo, request.pathTo = some pathTo ∧
      Did tr (.rename path (joined sd.directory pathTo))
  | .link => ∃ pathTo, request.pathTo = some pathTo ∧
      Did tr (.link path (joined sd.directory pathTo))
  | .symlink => ∃ pathTo, request.pathTo = some pathTo ∧ Did tr (.symlink pathTo path)
  | .readlink => ∃ target, (⟨.readlink path (PATH_MAX - 1), .ok target⟩ : Event SysRet) ∈ tr
  | .mkdir => ∃ permissions, request.permissions = some permissions ∧
      Did tr (.mkdir path permissions.toBitmask)
  | .getattr => ∃ sb, (⟨.lstat path, .ok sb⟩ : Event SysRet) ∈ tr
  | .open => ∃ openflags fd, request.openflags = some openflags ∧
      (⟨.open path openflags.toBitmask defaultFileCreationPermissions, .ok fd⟩ : Event SysRet) ∈ tr
  | .read => ∃ size offset fd data, request.size = some size ∧ request.offset = some offset ∧
      (⟨.open path O_RDONLY 0, .ok fd⟩ : Event SysRet) ∈ tr ∧
      ((⟨.read fd (toSize size), .ok data⟩ : Event SysRet) ∈ tr ∧ offset = 0 ∨
        (⟨.pread fd (toSize size) offset, .ok data⟩ : Event SysRet) ∈ tr)
  | .write => ∃ offset fd data n, request.offset = some offset ∧ request.Carries lz4 data ∧
      (⟨.open path (O_CREAT ||| O_WRONLY) defaultFileCreationPermissions, .ok fd⟩ :
        Event SysRet) ∈ tr ∧
      (⟨.pwrite fd data offset, .ok n⟩ : Event SysRet) ∈ tr ∧
      (⟨.close fd, .ok ()⟩ : Event SysRet) ∈ tr
  | .create => ∃ permissions fd, request.permissions = some permissions ∧
      (⟨.creat path (permissions.toBitmask ||| S_IWUSR), .ok fd⟩ : Event SysRet) ∈ tr
  | .truncate => ∃ offset, request.offset = some offset ∧ Did tr (.truncate path offset)
  | .chmod => ∃ permissions, request.permissions = some permissions ∧
      Did tr (.chmod path permissions.toBitmask)
  | .utimens => ∃ timestamps, request.timestamps = some timestamps ∧ Did tr (.utimes path
      ⟨timestamps.accessSec, timestamps.accessUsec.getD 0⟩
      ⟨timestamps.modifySec, timestamps.modifyUsec.getD 0⟩)
  | .mknod => ∃ permissions filetype, request.permissions = some permissions ∧
      request.filetype = some filetype ∧
      Did tr (.mknod path (permissions.toBitmask ||| filetype.toLocal))
  | .statfs => ∃ stfs, (⟨.statvfs path, .ok stfs⟩ : Event SysRet) ∈ tr
  | .ping | .stat | .unknown | .invalid | .other _ => False

/-- The run did what the request asks for. -/
def Performed (lz4 : Lz4) (sd : ServeDir) (request : Request) (tr : Trace) : Prop :=
  ∃ path, request.path = some path ∧ PerformedOn lz4 sd request tr (joined sd.directory path)

/-! ## The verdict on a run -/

/-- How a run with return code `out.1` and response `out.2` ended: with a report, with a failure
that the response hides, or with the operation performed. -/
inductive Verdict (lz4 : Lz4) (sd : ServeDir) (request : Request) (tr : Trace)
    (out : ℤ × Response) : Prop
  | reported (hr : Reported request tr) (he : out.2.errnotype ≠ .none)
  | lost (hl : Lost lz4 request tr) (hr : ¬ Reported request tr) (he : out.2.errnotype = .none)
      (hn : ¬ (out.1 = 0 ∧ Performed lz4 sd request tr))
  | done (hl : ¬ Lost lz4 request tr) (h0 : out.1 = 0) (hp : Performed lz4 sd request tr)

section Verdict

variable {lz4 : Lz4} {sd : ServeDir} {request : Request} {response : Response} {tr : Trace}
  {out : ℤ × Response}

theorem Verdict.honest_iff (h : Verdict lz4 sd request tr out) :
    (out.2.errnotype = .none → out.1 = 0 ∧ Performed lz4 sd request tr) ↔
      (Lost lz4 request tr → Reported request tr) := by
  cases h with
  | reported hr he => exact ⟨fun _ _ => hr, fun _ h => absurd h he⟩
  | lost hl hr he hn => exact ⟨fun h => absurd (h he) hn, fun h => absurd (h hl) hr⟩
  | done hl h0 hp => exact ⟨fun _ h => absurd h hl, fun _ _ => ⟨h0, hp⟩⟩

theorem performedOn_cons_alloc {c : Chunk} {ok : Bool} {path : CString} :
    PerformedOn lz4 sd request (⟨.alloc c, ok⟩ :: tr) path ↔
      PerformedOn lz4 sd request tr path := by
  unfold PerformedOn
  split <;> simp [Did]

theorem reported_cons_alloc {c : Chunk} :
    Reported request (⟨.alloc c, true⟩ :: tr) ↔ Reported request tr := by
  cases c <;> simp [Reported, Reports]

theorem lost_cons_alloc {c : Chunk} :
    Lost lz4 request (⟨.alloc c, true⟩ :: tr) ↔ Lost lz4 request tr := by
  have hlast : (lastAlloc tr).getD true = false ↔ lastAlloc tr = some false := by
    cases lastAlloc tr <;> simp
  have hdrops : ¬ Drops request.requesttype ⟨.alloc c, true⟩ := by simp [Drops]
  simp [Lost, lastAlloc, hdrops, hlast]

/-- A successful allocation does not change the verdict. -/
theorem Verdict.cons_alloc {c : Chunk} (h : Verdict lz4 sd request tr out) :
    Verdict lz4 sd request (⟨.alloc c, true⟩ :: tr) out := by
  have hperf : Performed lz4 sd request (⟨.alloc c, true⟩ :: tr) ↔ Performed lz4 sd request tr := by
    simp only [Performed, performedOn_cons_alloc]
  cases h with
  | reported hr he => exact .reported (reported_cons_alloc.mpr hr) he
  | lost hl hr he hn =>
    exact .lost (lost_cons_alloc.mpr hl) (mt reported_cons_alloc.mp hr) he (by rwa [hperf])
  | done hl h0 hp => exact .done (mt lost_cons_alloc.mp hl) h0 (hperf.mpr hp)

/-- Without memory a handler that allocates first gives up silently. -/
theorem verdict_no_memory {c : Chunk} (hc : ∀ n, c ≠ .entries n) (href : ¬ Refused request)
    (hn : response.errnotype = .none) :
    Verdict lz4 sd request [⟨.alloc c, false⟩] (-1, response) := by
  refine .lost (.inr (.inl rfl)) ?_ hn (by simp)
  cases c <;> simp_all [Reported, Reports]

/-- `path_join` for the first or second path of a request. -/
theorem verdict_pathJoin {path : CString} {f : Option CString → ServeDir.Handler}
    (href : ¬ Refused request) (hn : response.errnotype = .none)
    (hnone : f none = .ret (-1, response))
    (h : (mem (pathJoin sd.directory path) >>= f).Traces tr out)
    (hk : ∀ tr', (f (some (joined sd.directory path))).Traces tr' out →
      Verdict lz4 sd request tr' out) : Verdict lz4 sd request tr out := by
  obtain ⟨ok, tr', rfl, h⟩ := h
  cases ok with
  | false =>
    obtain ⟨rfl, rfl⟩ : tr' = [] ∧ out = (-1, response) := by
      rw [← Prog.traces_ret, ← hnone]
      exact h
    exact verdict_no_memory (by simp) href hn
  | true => exact (hk tr' h).cons_alloc

/-- Every handler ends silently when it cannot assemble the path. -/
theorem verdict_fullpath {f : Option CString → ServeDir.Handler}
    (href : ¬ Refused request) (hn : response.errnotype = .none)
    (hnone : f none = .ret (-1, response)) (h : (sd.fullpath request >>= f).Traces tr out)
    (hk : ∀ path tr', request.path = some path →
      (f (some (joined sd.directory path))).Traces tr' out → Verdict lz4 sd request tr' out) :
    Verdict lz4 sd request tr out := by
  unfold ServeDir.fullpath at h
  split at h
  · rename_i hpath
    rw [Prog.pure_eq, Prog.ret_bind, hnone] at h
    obtain ⟨rfl, rfl⟩ := h
    exact .lost (.inl hpath) (by simpa [Reported] using href) hn (by simp)
  · rename_i path hpath
    exact verdict_pathJoin href hn hnone h fun tr' => hk path tr' hpath

theorem verdict_onPath {op : CString → PathOp} (hw : request.requesttype ≠ .write)
    (href : ¬ Refused request) (hn : response.errnotype = .none)
    (hdid : ∀ path tr, request.path = some path → Did tr (op (joined sd.directory path)) →
      Performed lz4 sd request tr)
    (h : (sd.onPath request response op).Traces tr out) : Verdict lz4 sd request tr out := by
  refine verdict_fullpath href hn rfl h fun path tr' hpath hk => ?_
  obtain ⟨answer, _, rfl, hk⟩ := hk
  cases answer with
  | ok u =>
    obtain ⟨rfl, rfl⟩ := hk
    refine .done ?_ rfl (hdid path _ hpath (by simp [Did]))
    simp [Lost, lastAlloc, Drops, hpath, hw]
  | error e =>
    obtain ⟨rfl, rfl⟩ := hk
    exact .reported (by simp [Reported, Reports, hw]) (response.setErrno_errnotype_ne e)

theorem verdict_refuse (href : Refused request) (h : (Prog.ret response.refuse).Traces tr out) :
    Verdict lz4 sd request tr out := by
  obtain ⟨rfl, rfl⟩ := h
  exact .reported (.inl href) (by simp [Response.refuse])

theorem not_reports_of_isHelper {type : RequestType} {ev : Event SysRet} (h : ev.1.IsHelper) :
    ¬ Reports type ev := by
  obtain ⟨c, r⟩ := ev
  cases c with
  | alloc c => cases c <;> simp_all [Reports, SysCall.IsHelper]
  | _ => simp_all [Reports, SysCall.IsHelper]

theorem not_reported (href : ¬ Refused request)
    (h : ∀ ev ∈ tr, ¬ Reports request.requesttype ev) : ¬ Reported request tr := by
  rintro (hr | ⟨ev, hev, hr⟩)
  · exact href hr
  · exact h ev hev hr

theorem not_lost {path : CString} (hpath : request.path = some path)
    (hlast : lastAlloc tr ≠ some false) (hdrops : ∀ ev ∈ tr, ¬ Drops request.requesttype ev)
    (hdata : request.requesttype = .write → ∃ data, request.Carries lz4 data) :
    ¬ Lost lz4 request tr := by
  rintro (hnone | hfalse | ⟨ev, hev, hd⟩ | ⟨hty, hnot⟩)
  · rw [hpath] at hnone
    cases hnone
  · exact hlast hfalse
  · exact hdrops ev hev hd
  · obtain ⟨data, hcarries⟩ := hdata hty
    exact hnot data hcarries

/-- The operation has succeeded with the calls of `pre`, a helper run `trh` decides, and the calls
of `post` clean up. -/
theorem verdict_of_helperRun (pre post : Trace) {trh : Trace} {failed : Prop}
    (hrun : HelperRun trh failed)
    (hw : request.requesttype ≠ .write) (href : ¬ Refused request) {path : CString}
    (hpath : request.path = some path)
    (hquiet : ∀ ev ∈ pre ++ post,
      ¬ Reports request.requesttype ev ∧ ¬ Drops request.requesttype ev)
    (hpre : lastAlloc pre ≠ some false) (hpost : lastAlloc post = none)
    (he : out.2.errnotype = .none) (hout : out.1 = 0 ↔ ¬ failed)
    (hperf : PerformedOn lz4 sd request (pre ++ trh ++ post) (joined sd.directory path)) :
    Verdict lz4 sd request (pre ++ trh ++ post) out := by
  have hquiet' : ∀ ev ∈ pre ++ trh ++ post, ev ∈ trh ∨
      ¬ Reports request.requesttype ev ∧ ¬ Drops request.requesttype ev := by
    intro ev hev
    simp only [List.mem_append] at hev hquiet
    rcases hev with (h | h) | h
    · exact .inr (hquiet ev (.inl h))
    · exact .inl h
    · exact .inr (hquiet ev (.inr h))
  have hr : ¬ Reported request (pre ++ trh ++ post) := by
    apply not_reported href
    intro ev hev
    rcases hquiet' ev hev with hm | hq
    · exact not_reports_of_isHelper (hrun.isHelper ev hm)
    · exact hq.1
  have hlast : lastAlloc (pre ++ trh ++ post) = some false ↔ lastAlloc trh = some false := by
    simp only [lastAlloc_append, hpost, Option.none_or]
    cases lastAlloc trh <;> simp [hpre]
  by_cases hf : failed
  · refine .lost ?_ hr he fun h => hout.mp h.1 hf
    rcases (hrun.explains request.requesttype).mp hf with h | ⟨ev, hev, h⟩
    · exact .inr (.inl (hlast.mpr h))
    · exact .inr (.inr (.inl ⟨ev, by simp [hev], h⟩))
  · have hnot := mt (hrun.explains request.requesttype).mpr hf
    refine .done ?_ (hout.mpr hf) ⟨path, hpath, hperf⟩
    apply not_lost hpath
    · exact fun h => hnot (.inl (hlast.mp h))
    · intro ev hev h
      rcases hquiet' ev hev with hm | hq
      · exact hnot (.inr ⟨ev, hm, h⟩)
      · exact hq.2 h
    · exact fun h => absurd h hw

/-! ### The handlers -/

/-- RENAME and LINK. -/
theorem verdict_onTwoPaths {op : CString → CString → PathOp} (hw : request.requesttype ≠ .write)
    (href : Refused request ↔ request.pathTo = none) (hn : response.errnotype = .none)
    (hdid : ∀ path pathTo tr, request.pathTo = some pathTo →
      Did tr (op path (joined sd.directory pathTo)) → PerformedOn lz4 sd request tr path)
    (h : (sd.onTwoPaths request response op).Traces tr out) : Verdict lz4 sd request tr out := by
  unfold ServeDir.onTwoPaths at h
  cases hto : request.pathTo with
  | none =>
    simp only [hto] at h
    exact verdict_refuse (href.mpr hto) h
  | some pathTo =>
    simp only [hto] at h
    have href' : ¬ Refused request := by simp [href, hto]
    refine verdict_pathJoin href' hn rfl h fun tr' h => ?_
    exact verdict_onPath hw href' hn
      (fun path tr hpath hd => ⟨path, hpath, hdid _ _ _ hto hd⟩) h

theorem verdict_opGetattr (hty : request.requesttype = .getattr)
    (hn : response.errnotype = .none)
    (h : (ServeDir.opGetattr sd request response).Traces tr out) :
    Verdict lz4 sd request tr out := by
  have href : ¬ Refused request := by simp [Refused, hty]
  refine verdict_fullpath href (by exact hn) rfl h fun path tr' hpath h => ?_
  replace h := traces_sys.mp h
  obtain ⟨answer, tr₁, rfl, h⟩ := h
  cases answer with
  | error e =>
    obtain ⟨rfl, rfl⟩ := h
    exact .reported (by simp [Reported, Reports]) (Response.setErrno_errnotype_ne _ e)
  | ok sb =>
    replace h := (Prog.traces_bind _ _ _ _).mp h
    obtain ⟨attrs, trh, tr₂, rfl, hattrs, h⟩ := h
    have hrun := isHelperProg_attrs_create sb none trh attrs hattrs
    obtain ⟨rfl, he, h0⟩ : tr₂ = [] ∧ out.2.errnotype = .none ∧ (out.1 = 0 ↔ ¬ attrs = none) := by
      cases attrs <;> obtain ⟨rfl, rfl⟩ := h <;> simp [hn]
    refine verdict_of_helperRun [_] [] hrun (by simp [hty]) href hpath ?_ ?_ rfl he h0 ?_
    · simp [Reports, Drops]
    · simp [lastAlloc]
    · simp [PerformedOn, hty]

theorem verdict_opStatfs (hty : request.requesttype = .statfs) (hn : response.errnotype = .none)
    (h : (ServeDir.opStatfs sd request response).Traces tr out) :
    Verdict lz4 sd request tr out := by
  have href : ¬ Refused request := by simp [Refused, hty]
  refine verdict_fullpath href (by exact hn) rfl h fun path tr' hpath h => ?_
  replace h := traces_sys.mp h
  obtain ⟨answer, tr₁, rfl, h⟩ := h
  cases answer with
  | error e =>
    obtain ⟨rfl, rfl⟩ := h
    exact .reported (by simp [Reported, Reports]) (Response.setErrno_errnotype_ne _ e)
  | ok stfs =>
    replace h := (Prog.traces_bind _ _ _ _).mp h
    obtain ⟨statfs, trh, tr₂, rfl, hstatfs, h⟩ := h
    have hrun := isHelperProg_statFs_create stfs trh statfs hstatfs
    obtain ⟨rfl, he, h0⟩ : tr₂ = [] ∧ out.2.errnotype = .none ∧ (out.1 = 0 ↔ ¬ statfs = none) := by
      cases statfs <;> obtain ⟨rfl, rfl⟩ := h <;> simp [hn]
    refine verdict_of_helperRun [_] [] hrun (by simp [hty]) href hpath ?_ ?_ rfl he h0 ?_
    · simp [Reports, Drops]
    · simp [lastAlloc]
    · simp [PerformedOn, hty]

theorem verdict_opReadlink (hty : request.requesttype = .readlink)
    (hn : response.errnotype = .none)
    (h : (ServeDir.opReadlink sd request response).Traces tr out) :
    Verdict lz4 sd request tr out := by
  have href : ¬ Refused request := by simp [Refused, hty]
  refine verdict_fullpath href (by exact hn) rfl h fun path tr' hpath h => ?_
  replace h := traces_sys.mp h
  obtain ⟨answer, tr₁, rfl, h⟩ := h
  cases answer with
  | error e =>
    obtain ⟨rfl, rfl⟩ := h
    exact .reported (by simp [Reported, Reports]) (Response.setErrno_errnotype_ne _ e)
  | ok target =>
    replace h := traces_sys.mp h
    obtain ⟨ok, tr₂, rfl, h⟩ := h
    have hrun := isHelperProg_alloc (c := .bytes (target.length + 1)) (by simp) [⟨_, ok⟩] ok
      ⟨ok, [], rfl, rfl, rfl⟩
    obtain ⟨rfl, he, h0⟩ : tr₂ = [] ∧ out.2.errnotype = .none ∧ (out.1 = 0 ↔ ¬ ok = false) := by
      cases ok <;> obtain ⟨rfl, rfl⟩ := h <;> simp [hn]
    refine verdict_of_helperRun [_] [] hrun (by simp [hty]) href hpath ?_ ?_ rfl he h0 ?_
    · simp [Reports, Drops]
    · simp [lastAlloc]
    · simp [PerformedOn, hty]

theorem verdict_opOpen (hty : request.requesttype = .open) (hn : response.errnotype = .none)
    (h : (ServeDir.opOpen sd request response).Traces tr out) :
    Verdict lz4 sd request tr out := by
  unfold ServeDir.opOpen at h
  cases hflags : request.openflags with
  | none =>
    simp only [hflags] at h
    exact verdict_refuse (by simp [Refused, hty, hflags]) h
  | some openflags =>
    simp only [hflags] at h
    have href : ¬ Refused request := by simp [Refused, hty, hflags]
    refine verdict_fullpath href (by exact hn) rfl h fun path tr' hpath h => ?_
    replace h := traces_sys.mp h
    obtain ⟨answer, tr₁, rfl, h⟩ := h
    cases answer with
    | error e =>
      obtain ⟨rfl, rfl⟩ := h
      exact .reported (by simp [Reported, Reports]) (Response.setErrno_errnotype_ne _ e)
    | ok fd =>
      obtain ⟨closed, _, rfl, rfl, rfl⟩ := h
      refine .done ?_ rfl ⟨path, hpath, by simp [PerformedOn, hty, hflags]⟩
      cases closed <;> simp [Lost, lastAlloc, Drops, hpath, hty]

theorem verdict_opCreate (hty : request.requesttype = .create) (hn : response.errnotype = .none)
    (h : (ServeDir.opCreate sd request response).Traces tr out) :
    Verdict lz4 sd request tr out := by
  unfold ServeDir.opCreate at h
  cases hperm : request.permissions with
  | none =>
    simp only [hperm] at h
    exact verdict_refuse (by simp [Refused, hty, hperm]) h
  | some permissions =>
    simp only [hperm] at h
    have href : ¬ Refused request := by simp [Refused, hty, hperm]
    refine verdict_fullpath href (by exact hn) rfl h fun path tr' hpath h => ?_
    replace h := traces_sys.mp h
    obtain ⟨answer, tr₁, rfl, h⟩ := h
    cases answer with
    | error e =>
      obtain ⟨rfl, rfl⟩ := h
      exact .reported (by simp [Reported, Reports]) (Response.setErrno_errnotype_ne _ e)
    | ok fd =>
      obtain ⟨closed, _, rfl, rfl, rfl⟩ := h
      refine .done ?_ rfl ⟨path, hpath, by simp [PerformedOn, hty, hperm]⟩
      cases closed <;> simp [Lost, lastAlloc, Drops, hpath, hty]

theorem traces_readAt {fd : ℕ} {size offset : ℤ} {answer : Except Failure (List UInt8)}
    (h : (ServeDir.readAt fd size offset).Traces tr answer) :
    tr = [⟨.read fd (toSize size), answer⟩] ∧ offset = 0 ∨
      tr = [⟨.pread fd (toSize size) offset, answer⟩] := by
  unfold ServeDir.readAt at h
  split_ifs at h with h0
  all_goals obtain ⟨r, _, rfl, rfl, rfl⟩ := h
  · exact .inl ⟨rfl, h0⟩
  · exact .inr rfl

theorem verdict_opRead (hty : request.requesttype = .read) (hn : response.errnotype = .none)
    (hdata : response.datablock = none)
    (h : (ServeDir.opRead lz4 sd request response).Traces tr out) :
    Verdict lz4 sd request tr out := by
  unfold ServeDir.opRead at h
  cases hsize : request.size with
  | none =>
    simp only [hsize] at h
    exact verdict_refuse (by simp [Refused, hty, hsize]) h
  | some size =>
  cases hoffset : request.offset with
  | none =>
    simp only [hsize, hoffset] at h
    exact verdict_refuse (by simp [Refused, hty, hoffset]) h
  | some offset =>
  simp only [hsize, hoffset] at h
  have href : ¬ Refused request := by simp [Refused, hty, hsize, hoffset]
  refine verdict_fullpath href (by exact hn) rfl h fun path tr' hpath h => ?_
  replace h := traces_sys.mp h
  obtain ⟨answer, tr₁, rfl, h⟩ := h
  cases answer with
  | error e =>
    obtain ⟨rfl, rfl⟩ := h
    exact .reported (by simp [Reported, Reports]) (Response.setErrno_errnotype_ne _ e)
  | ok fd =>
  replace h := traces_sys.mp h
  obtain ⟨ok, tr₂, rfl, h⟩ := h
  cases ok with
  | false =>
    obtain ⟨closed, _, rfl, rfl, rfl⟩ := h
    refine .lost (.inr (.inl rfl)) ?_ hn (by simp)
    simp [Reported, Reports, href]
  | true =>
  replace h := (Prog.traces_bind _ _ _ _).mp h
  obtain ⟨answer, trr, tr₃, rfl, hread, h⟩ := h
  replace hread := traces_readAt hread
  cases answer with
  | error e =>
    obtain ⟨closed, _, rfl, rfl, rfl⟩ := h
    refine .reported (.inr ?_) (Response.setErrno_errnotype_ne _ e)
    rcases hread with ⟨rfl, -⟩ | rfl <;> simp [Reports]
  | ok databuf =>
    replace h := (Prog.traces_bind _ _ _ _).mp h
    obtain ⟨⟨ok, response'⟩, trh, tr₄, rfl, hset, closed, _, rfl, rfl, rfl⟩ := h
    have hrun := isHelperProg_response_setData lz4 databuf (by exact hdata) trh _ hset
    have he : response'.errnotype = .none := (response_setData_errnotype hset).trans hn
    have h0 : (if ok = true then (0 : ℤ) else -1) = 0 ↔ ¬ ok = false := by cases ok <;> simp
    suffices hv : Verdict lz4 sd request ((⟨.open (joined sd.directory path) O_RDONLY 0, .ok fd⟩ ::
        ⟨.alloc (.bytes (toSize (toInt32 size))), true⟩ :: trr) ++ trh ++ [⟨.close fd, closed⟩])
        (if ok = true then 0 else -1, response') by simpa using hv
    refine verdict_of_helperRun _ [⟨.close fd, closed⟩] hrun (by simp [hty]) href hpath ?_ ?_ rfl
      he h0 ?_
    · rcases hread with ⟨rfl, -⟩ | rfl <;> cases closed <;> simp [Reports, Drops, hty]
    · rcases hread with ⟨rfl, -⟩ | rfl <;> simp [lastAlloc]
    · simp only [PerformedOn, hty]
      refine ⟨size, offset, fd, databuf, hsize, hoffset, by simp, ?_⟩
      rcases hread with ⟨rfl, rfl⟩ | rfl <;> simp

/-- What `ServeDir_op_write` does with its data, after the calls `trh` that decoded them. -/
theorem verdict_pwrite (hty : request.requesttype = .write) (hn : response.errnotype = .none)
    (href : ¬ Refused request) {path : CString} (hpath : request.path = some path) {offset : ℤ}
    (hoffset : request.offset = some offset) {data : List UInt8}
    (hcarries : request.Carries lz4 data) {trh : Trace}
    (hhelper : ∀ ev ∈ trh, ev.1.IsHelper ∧ ∀ type, ¬ Drops type ev)
    (hlast : lastAlloc trh ≠ some false) {fd : ℕ}
    (h : (do
      let bytesWritten ← sys (.pwrite fd data offset)
      match ← sys (.close fd) with
      | .error _ => do
        let _ ← sys (.close fd)
        return (-1, response.written bytesWritten)
      | .ok _ => do
        let now ← sys .gettimeofday
        let _ ← sys (.path (.utimes (joined sd.directory path) now now))
        return (0, response.written bytesWritten) : ServeDir.Handler).Traces tr out) :
    Verdict lz4 sd request (⟨.open (joined sd.directory path) (O_CREAT ||| O_WRONLY)
      defaultFileCreationPermissions, .ok fd⟩ :: (trh ++ tr)) out := by
  have hquiet : ∀ ev ∈ trh, ¬ Reports request.requesttype ev :=
    fun ev hev => not_reports_of_isHelper (hhelper ev hev).1
  have hdrops : ∀ ev ∈ trh, ¬ Drops request.requesttype ev :=
    fun ev hev => (hhelper ev hev).2 _
  replace h := traces_sys.mp h
  obtain ⟨answer, tr₁, rfl, h⟩ := h
  replace h := traces_sys.mp h
  obtain ⟨closed, tr₂, rfl, h⟩ := h
  cases answer with
  | error e =>
    have he : (response.written (.error e)).errnotype ≠ .none :=
      response.setErrno_errnotype_ne e
    refine .reported (.inr ⟨⟨.pwrite fd data offset, .error e⟩, by simp, trivial⟩) ?_
    cases closed with
    | error e' =>
      obtain ⟨closed', _, rfl, rfl, rfl⟩ := h
      exact he
    | ok u =>
      obtain ⟨now, _, rfl, times, _, rfl, rfl, rfl⟩ := h
      exact he
  | ok n =>
    cases closed with
    | error e =>
      obtain ⟨closed', _, rfl, rfl, rfl⟩ := h
      refine .lost (.inr (.inr (.inl ⟨⟨.close fd, .error e⟩, by simp, hty⟩))) ?_ hn (by simp)
      apply not_reported href
      simp only [List.forall_mem_cons, List.forall_mem_append]
      exact ⟨id, hquiet, by simp [Reports]⟩
    | ok u =>
      obtain ⟨now, _, rfl, times, _, rfl, rfl, rfl⟩ := h
      refine .done ?_ rfl ⟨path, hpath, ?_⟩
      · apply not_lost hpath _ _ fun _ => ⟨data, hcarries⟩
        · simpa [lastAlloc, lastAlloc_append] using hlast
        · simp only [List.forall_mem_cons, List.forall_mem_append]
          exact ⟨id, hdrops, by simp [Drops]⟩
      · simp only [PerformedOn, hty]
        exact ⟨offset, fd, data, n, hoffset, hcarries, by simp, by simp, by simp⟩

theorem verdict_opWrite (hty : request.requesttype = .write) (hn : response.errnotype = .none)
    (h : (ServeDir.opWrite lz4 sd request response).Traces tr out) :
    Verdict lz4 sd request tr out := by
  unfold ServeDir.opWrite at h
  cases hsize : request.size with
  | none =>
    simp only [hsize] at h
    exact verdict_refuse (by simp [Refused, hty, hsize]) h
  | some size =>
  cases hoffset : request.offset with
  | none =>
    simp only [hsize, hoffset] at h
    exact verdict_refuse (by simp [Refused, hty, hoffset]) h
  | some offset =>
  by_cases hhas : request.hasData = -1
  · simp only [hsize, hoffset, hhas, if_true] at h
    exact verdict_refuse (by simp [Refused, hty, hhas]) h
  cases hblock : request.datablock with
  | none => exact absurd (by simp [Request.hasData, hblock]) hhas
  | some datablock =>
  simp only [hsize, hoffset, hhas, if_false, hblock] at h
  have href : ¬ Refused request := by simp [Refused, hty, hsize, hoffset, hhas]
  have hcarries : ∀ data, request.Carries lz4 data ↔
      (ServeDir.writeData lz4 datablock size).exec allocAll () = (some data, ()) := by
    intro data
    simp [Request.Carries, hblock, hsize]
  refine verdict_fullpath href (by exact hn) rfl h fun path tr' hpath h => ?_
  replace h := traces_sys.mp h
  obtain ⟨answer, tr₁, rfl, h⟩ := h
  cases answer with
  | error e =>
    obtain ⟨rfl, rfl⟩ := h
    exact .reported (by simp [Reported, Reports]) (Response.setErrno_errnotype_ne _ e)
  | ok fd =>
  replace h := (Prog.traces_bind _ _ _ _).mp h
  obtain ⟨data, trh, tr₂, rfl, hdata, h⟩ := h
  obtain ⟨hhelper, hres⟩ := traces_writeData hdata
  cases data with
  | none =>
    -- the block does not decode, or there is no memory for it
    obtain ⟨closed, _, rfl, rfl, rfl⟩ := h
    refine .lost ?_ ?_ hn (by simp)
    · rcases hres with ⟨hlast, -⟩ | ⟨-, hexec⟩
      · right; left
        simp [lastAlloc, lastAlloc_append, hlast]
      · exact .inr (.inr (.inr ⟨hty, fun data => by simp [hcarries, hexec]⟩))
    · apply not_reported href
      simp only [List.forall_mem_cons, List.forall_mem_append]
      exact ⟨id, fun ev hev => not_reports_of_isHelper (hhelper ev hev).1, by simp [Reports]⟩
  | some data =>
    obtain ⟨hlast, hexec⟩ : lastAlloc trh ≠ some false ∧ _ := by simpa using hres
    exact verdict_pwrite hty (by exact hn) href hpath hoffset ((hcarries data).mpr hexec) hhelper
      hlast h

/-! ### Directory listings -/

/-- What a run of the second loop of READDIR over `names` does to the response. -/
structure FillRun (dirpath : CString) (names : List CString) (response : Response) (tr : Trace)
    (out : Bool × Response) : Prop where
  no_readdir : ∀ ev ∈ tr, ∀ dir, ev.1 ≠ .readdir dir
  explains : Explains .readdir tr (out.1 = false)
  failure : response.errnotype ≠ .none ∨ (∃ ev ∈ tr, Reports .readdir ev) →
    out.2.errnotype ≠ .none
  success : response.errnotype = .none → (∀ ev ∈ tr, ¬ Reports .readdir ev) →
    out.2.errnotype = .none ∧ (out.1 = true → ∀ name ∈ names,
      ∃ sb, (⟨.lstat (joined dirpath name), .ok sb⟩ : Event SysRet) ∈ tr)

theorem HelperRun.no_readdir {failed : Prop} (h : HelperRun tr failed) :
    ∀ ev ∈ tr, ∀ dir, ev.1 ≠ .readdir dir := by
  intro ev hev dir heq
  have := h.isHelper ev hev
  simp [heq, SysCall.IsHelper] at this

theorem HelperRun.not_reports {failed : Prop} (h : HelperRun tr failed) {type : RequestType} :
    ∀ ev ∈ tr, ¬ Reports type ev := fun ev hev => not_reports_of_isHelper (h.isHelper ev hev)

theorem explains_singleton {type : RequestType} {ev : Event SysRet} (ha : lastAlloc [ev] = none)
    (hd : ¬ Drops type ev) : Explains type [ev] False := by
  simp [Explains, ha, hd]

/-- A failing helper ends the loop. -/
theorem FillRun.of_helper {dirpath : CString} {names : List CString} {failed : Prop}
    (h : HelperRun tr failed) (hf : failed) :
    FillRun dirpath names response tr (false, response) where
  no_readdir := h.no_readdir
  explains := by simpa [Explains, hf] using h.explains .readdir
  failure := by
    rintro (he | ⟨ev, hev, hr⟩)
    · exact he
    · exact absurd hr (h.not_reports ev hev)
  success := fun he _ => ⟨he, by simp⟩

/-- One entry, dealt with by the calls of `pre`, before a run over the other ones. -/
theorem FillRun.cons {dirpath name : CString} {names : List CString} {response' : Response}
    {pre : Trace} {out : Bool × Response} (hdir : ∀ ev ∈ pre, ∀ dir, ev.1 ≠ .readdir dir)
    (hex : Explains .readdir pre False)
    (hpre : ((∀ ev ∈ pre, ¬ Reports .readdir ev) ∧ response'.errnotype = response.errnotype ∧
        ∃ sb, (⟨.lstat (joined dirpath name), .ok sb⟩ : Event SysRet) ∈ pre) ∨
      (∃ ev ∈ pre, Reports .readdir ev) ∧ response'.errnotype ≠ .none)
    (r : FillRun dirpath names response' tr out) :
    FillRun dirpath (name :: names) response (pre ++ tr) out where
  no_readdir := fun ev hev => (List.mem_append.mp hev).elim (hdir ev) (r.no_readdir ev)
  explains := hex.append not_false r.explains
  failure := by
    intro h
    apply r.failure
    rcases hpre with ⟨hq, heq, -⟩ | ⟨-, hne⟩
    · rw [heq]
      rcases h with h | ⟨ev, hev, hr⟩
      · exact .inl h
      · rcases List.mem_append.mp hev with hev | hev
        · exact absurd hr (hq ev hev)
        · exact .inr ⟨ev, hev, hr⟩
    · exact .inl hne
  success := by
    intro he hquiet
    rcases hpre with ⟨-, heq, sb, hsb⟩ | ⟨⟨ev, hev, hr⟩, -⟩
    · obtain ⟨he', hall⟩ := r.success (heq.trans he)
        fun ev hev => hquiet ev (List.mem_append_right _ hev)
      refine ⟨he', fun hout name' hname => ?_⟩
      rcases List.mem_cons.mp hname with rfl | hname
      · exact ⟨sb, List.mem_append_left _ hsb⟩
      · obtain ⟨sb', hsb'⟩ := hall hout name' hname
        exact ⟨sb', List.mem_append_right _ hsb'⟩
    · exact absurd hr (hquiet ev (List.mem_append_left _ hev))

theorem traces_fillEntries {dirpath : CString} {names : List CString} {out : Bool × Response}
    (h : (ServeDir.fillEntries dirpath names response).Traces tr out) :
    FillRun dirpath names response tr out := by
  induction names generalizing response tr with
  | nil =>
    obtain ⟨rfl, rfl⟩ := h
    exact ⟨by simp, by simp [Explains, lastAlloc], by simp, fun he _ => ⟨he, by simp⟩⟩
  | cons name names ih =>
    rw [ServeDir.fillEntries] at h
    replace h := (Prog.traces_bind _ _ _ _).mp h
    obtain ⟨path, tr₁, tr₂, rfl, hjoin, h⟩ := h
    have r₁ := isHelperProg_pathJoin dirpath name tr₁ path hjoin
    cases path with
    | none =>
      obtain ⟨rfl, rfl⟩ := h
      simpa using FillRun.of_helper r₁ rfl
    | some path =>
    have hpath : path = joined dirpath name := by
      obtain ⟨ok, _, rfl, hk⟩ := hjoin
      cases ok with
      | false => exact absurd hk.2 (by simp)
      | true => exact Option.some.inj hk.2
    replace h := traces_sys.mp h
    obtain ⟨answer, tr₃, rfl, h⟩ := h
    subst hpath
    have hdir₁ : ∀ ev ∈ tr₁ ++ [⟨.lstat (joined dirpath name), answer⟩], ∀ dir,
        ev.1 ≠ .readdir dir := by
      simp only [List.mem_append, List.mem_singleton]
      rintro ev (hev | rfl) dir
      · exact r₁.no_readdir ev hev dir
      · simp
    have hex₁ : Explains .readdir (tr₁ ++ [⟨.lstat (joined dirpath name), answer⟩]) False :=
      (r₁.explains _).append (by simp) (explains_singleton rfl (by simp [Drops]))
    cases answer with
    | error e =>
      have r := ih h
      have hrep : ∃ ev ∈ tr₁ ++ [⟨.lstat (joined dirpath name), .error e⟩],
          Reports .readdir ev := ⟨⟨.lstat (joined dirpath name), .error e⟩, by simp, trivial⟩
      simpa using FillRun.cons hdir₁ hex₁
        (.inr ⟨hrep, Response.setErrno_errnotype_ne response e⟩) r
    | ok sb =>
      replace h := (Prog.traces_bind _ _ _ _).mp h
      obtain ⟨attrs, tr₄, tr₅, rfl, hattrs, h⟩ := h
      have r₂ := isHelperProg_attrs_create sb (some name) tr₄ attrs hattrs
      have hq₁ : ∀ ev ∈ tr₁ ++ [⟨.lstat (joined dirpath name), .ok sb⟩],
          ¬ Reports .readdir ev := by
        simp only [List.mem_append, List.mem_singleton]
        rintro ev (hev | rfl)
        · exact r₁.not_reports ev hev
        · simp [Reports]
      cases attrs with
      | none =>
        obtain ⟨rfl, rfl⟩ := h
        have r : FillRun dirpath names response tr₄ (false, response) := .of_helper r₂ rfl
        simpa using FillRun.cons hdir₁ hex₁ (.inl ⟨hq₁, rfl, sb, by simp⟩) r
      | some attrs =>
        have r := ih h
        have hdir : ∀ ev ∈ tr₁ ++ [⟨.lstat (joined dirpath name), .ok sb⟩] ++ tr₄, ∀ dir,
            ev.1 ≠ .readdir dir :=
          fun ev hev => (List.mem_append.mp hev).elim (hdir₁ ev) (r₂.no_readdir ev)
        have hq : ∀ ev ∈ tr₁ ++ [⟨.lstat (joined dirpath name), .ok sb⟩] ++ tr₄,
            ¬ Reports .readdir ev :=
          fun ev hev => (List.mem_append.mp hev).elim (hq₁ ev) (r₂.not_reports ev)
        have hex := hex₁.append not_false (r₂.explains .readdir)
        have hsb : (⟨.lstat (joined dirpath name), .ok sb⟩ : Event SysRet) ∈
            tr₁ ++ [⟨.lstat (joined dirpath name), .ok sb⟩] ++ tr₄ := by simp
        have hcons : FillRun dirpath (name :: names) response
            (tr₁ ++ [⟨.lstat (joined dirpath name), .ok sb⟩] ++ tr₄ ++ tr₅) out :=
          .cons hdir (by simpa using hex) (.inl ⟨hq, by rfl, sb, hsb⟩) r
        simpa using hcons

/-- The calls of a READDIR that lists `dir`, with the run `trf` of the second loop. -/
def listing (dir : CString) (counted names : List CString) (err₁ err₂ : Option Failure)
    (trf : Trace) : Trace :=
  ⟨.opendir dir, .ok ()⟩ :: ⟨.readdir dir, (counted, err₁)⟩ ::
    ⟨.alloc (.entries counted.length), true⟩ :: ⟨.rewinddir dir, ()⟩ ::
    ⟨.readdir dir, (names, err₂)⟩ :: (trf ++ [⟨.closedir dir, ()⟩])

theorem reports_listing {dir : CString} {counted names : List CString}
    {err₁ err₂ : Option Failure} {trf : Trace} :
    (∃ ev ∈ listing dir counted names err₁ err₂ trf, Reports .readdir ev) ↔
      ∃ ev ∈ trf, Reports .readdir ev := by
  simp [listing, Reports]

theorem lastAlloc_listing {dir : CString} {counted names : List CString}
    {err₁ err₂ : Option Failure} {trf : Trace} :
    lastAlloc (listing dir counted names err₁ err₂ trf) = some false ↔
      lastAlloc trf = some false := by
  simp only [listing, lastAlloc, lastAlloc_append]
  cases lastAlloc trf <;> simp

/-- A listing is performed unless a pass over the directory or the second loop fails. -/
theorem verdict_listing {path : CString} {counted names : List CString}
    {err₁ err₂ : Option Failure} {trf : Trace} {out : Bool × Response}
    (hty : request.requesttype = .readdir) (hn : response.errnotype = .none)
    (hpath : request.path = some path)
    (r : FillRun (joined sd.directory path) names response trf out) :
    Verdict lz4 sd request (listing (joined sd.directory path) counted names err₁ err₂ trf)
      (if out.1 then 0 else -1, out.2) := by
  have hrep : Reported request (listing (joined sd.directory path) counted names err₁ err₂ trf) ↔
      ∃ ev ∈ trf, Reports .readdir ev := by
    simp only [Reported, Refused, hty, reports_listing, false_or]
  by_cases hr : ∃ ev ∈ trf, Reports .readdir ev
  · exact .reported (hrep.mpr hr) (r.failure (.inr hr))
  obtain ⟨he, hentries⟩ := r.success hn fun ev hmem hrep => hr ⟨ev, hmem, hrep⟩
  by_cases herr : err₁ = none ∧ err₂ = none
  · obtain ⟨rfl, rfl⟩ := herr
    have hdrops : (∃ ev ∈ listing (joined sd.directory path) counted names none none trf,
        Drops .readdir ev) ↔ ∃ ev ∈ trf, Drops .readdir ev := by
      simp [listing, Drops]
    have hlost : Lost lz4 request (listing (joined sd.directory path) counted names none none trf) ↔
        out.1 = false := by
      simp only [Lost, hpath, hty, lastAlloc_listing, hdrops, reduceCtorEq, false_and, or_false,
        false_or]
      exact r.explains.symm
    cases hout : out.1 with
    | false => exact .lost (hlost.mpr hout) (mt hrep.mp hr) he (by simp)
    | true =>
      refine .done (by simp [hlost, hout]) rfl ⟨path, hpath, ?_⟩
      simp only [PerformedOn, hty]
      refine ⟨by simp [listing], ?_, names, by simp [listing], ?_⟩
      · intro dir answer hmem
        simp only [listing, List.mem_cons, List.mem_append, List.not_mem_nil, or_false] at hmem
        rcases hmem with h | h | h | h | h | h | h
        · cases h
        · cases h; rfl
        · cases h
        · cases h
        · cases h; rfl
        · exact absurd rfl (r.no_readdir _ h dir)
        · cases h
      · intro name hname
        obtain ⟨sb, hsb⟩ := hentries hout name hname
        exact ⟨sb, by simp [listing, hsb]⟩
  · have hpass : ∃ dir answer, (⟨.readdir dir, answer⟩ : Event SysRet) ∈
        listing (joined sd.directory path) counted names err₁ err₂ trf ∧ answer.2 ≠ none := by
      by_cases h₁ : err₁ = none
      · exact ⟨joined sd.directory path, (names, err₂), by simp [listing], fun h₂ => herr ⟨h₁, h₂⟩⟩
      · exact ⟨joined sd.directory path, (counted, err₁), by simp [listing], h₁⟩
    obtain ⟨dir, ⟨pass, err⟩, hmem, hne⟩ := hpass
    obtain ⟨e, rfl⟩ := Option.ne_none_iff_exists'.mp hne
    refine .lost (.inr (.inr (.inl ⟨_, hmem, trivial⟩))) (mt hrep.mp hr) he ?_
    rintro ⟨-, path', hpath', hperf⟩
    simp only [PerformedOn, hty] at hperf
    exact absurd (hperf.2.1 dir _ hmem) (by simp)

theorem verdict_opReaddir (hty : request.requesttype = .readdir)
    (hn : response.errnotype = .none)
    (h : (ServeDir.opReaddir sd request response).Traces tr out) :
    Verdict lz4 sd request tr out := by
  have href : ¬ Refused request := by simp [Refused, hty]
  refine verdict_fullpath href (by exact hn) rfl h fun path tr' hpath h => ?_
  replace h := traces_sys.mp h
  obtain ⟨answer, tr₁, rfl, h⟩ := h
  cases answer with
  | error e =>
    obtain ⟨rfl, rfl⟩ := h
    exact .reported (by simp [Reported, Reports]) (Response.setErrno_errnotype_ne _ e)
  | ok u =>
  replace h := traces_sys.mp h
  obtain ⟨⟨counted, err₁⟩, tr₂, rfl, h⟩ := h
  replace h := traces_sys.mp h
  obtain ⟨ok, tr₃, rfl, h⟩ := h
  cases ok with
  | false =>
    obtain ⟨_, _, rfl, rfl, rfl⟩ := h
    exact .reported (by simp [Reported, Reports]) (by simp)
  | true =>
  replace h := traces_sys.mp h
  obtain ⟨_, tr₄, rfl, h⟩ := h
  replace h := traces_sys.mp h
  obtain ⟨⟨names, err₂⟩, tr₅, rfl, h⟩ := h
  replace h := (Prog.traces_bind _ _ _ _).mp h
  obtain ⟨⟨done, response'⟩, trf, tr₆, rfl, hfill, _, _, rfl, rfl, rfl⟩ := h
  exact verdict_listing hty (by exact hn) hpath (traces_fillEntries hfill)

/-- The handlers that need one optional field and then make one call on the path. -/
theorem verdict_withField {γ : Type} (type : RequestType) (field : Option γ)
    (op : γ → CString → PathOp) {handler : ServeDir.Handler} (hw : request.requesttype ≠ .write)
    (href : Refused request ↔ field = none) (hn : response.errnotype = .none)
    (hdid : ∀ x path tr, field = some x → Did tr (op x path) →
      PerformedOn lz4 sd request tr path)
    (hhandler : handler = field.elim (.ret (Response.refuse { response with requesttype := type }))
      (sd.onPath request { response with requesttype := type } <| op ·))
    (h : handler.Traces tr out) : Verdict lz4 sd request tr out := by
  cases hfield : field with
  | none =>
    rw [hhandler, hfield] at h
    exact verdict_refuse (href.mpr hfield) h
  | some x =>
    rw [hhandler, hfield] at h
    exact verdict_onPath hw (by simp [href, hfield]) (by exact hn)
      (fun path tr hpath hd => ⟨path, hpath, hdid x _ _ hfield hd⟩) h

theorem verdict_opMknod (hty : request.requesttype = .mknod) (hn : response.errnotype = .none)
    (h : (ServeDir.opMknod sd request response).Traces tr out) :
    Verdict lz4 sd request tr out := by
  unfold ServeDir.opMknod at h
  cases hperm : request.permissions with
  | none =>
    simp only [hperm] at h
    exact verdict_refuse (by simp [Refused, hty, hperm]) h
  | some permissions =>
  cases hft : request.filetype with
  | none =>
    simp only [hperm, hft] at h
    exact verdict_refuse (by simp [Refused, hty, hft]) h
  | some filetype =>
  simp only [hperm, hft] at h
  cases hreg : isFileType (permissions.toBitmask ||| filetype.toLocal) S_IFREG with
  | false =>
    simp only [hreg, Bool.false_eq_true, if_false] at h
    obtain ⟨rfl, rfl⟩ := h
    refine .reported (.inl ?_) (Response.setErrno_errnotype_ne _ ⟨EPERM, by decide⟩)
    simp [Refused, hty, Request.IrregularFile, hperm, hft, hreg]
  | true =>
    simp only [hreg, if_true] at h
    refine verdict_onPath (by simp [hty]) ?_ (by exact hn) (fun path tr hpath hd => ?_) h
    · simp [Refused, hty, Request.IrregularFile, hperm, hft, hreg]
    · exact ⟨path, hpath, by simpa [PerformedOn, hty, hperm, hft] using hd⟩

/-- The verdict on every handler but that of PING. -/
theorem dispatch_verdict (hping : request.requesttype ≠ .ping) (hn : response.errnotype = .none)
    (hdata : response.datablock = none)
    (h : (ServeDir.dispatch lz4 sd request response).Traces tr out) :
    Verdict lz4 sd request tr out := by
  unfold ServeDir.dispatch at h
  cases hty : request.requesttype <;> simp only [hty] at h
  case ping => exact absurd hty hping
  case readdir => exact verdict_opReaddir hty hn h
  case rmdir | unlink =>
    refine verdict_onPath (by simp [hty]) (by simp [Refused, hty]) (by exact hn)
      (fun path tr hpath hd => ⟨path, hpath, ?_⟩) h
    simpa [PerformedOn, hty] using hd
  case access =>
    refine verdict_withField .access request.permissions
      (fun permissions path => .access path permissions.toBitmask)
      (by simp [hty]) (by simp [Refused, hty]) hn (fun permissions path tr hf hd => ?_)
      (by unfold ServeDir.opAccess; cases request.permissions <;> rfl) h
    simpa [PerformedOn, hty, hf] using hd
  case mkdir =>
    refine verdict_withField .mkdir request.permissions
      (fun permissions path => .mkdir path permissions.toBitmask)
      (by simp [hty]) (by simp [Refused, hty]) hn (fun permissions path tr hf hd => ?_)
      (by unfold ServeDir.opMkdir; cases request.permissions <;> rfl) h
    simpa [PerformedOn, hty, hf] using hd
  case chmod =>
    refine verdict_withField .chmod request.permissions
      (fun permissions path => .chmod path permissions.toBitmask)
      (by simp [hty]) (by simp [Refused, hty]) hn (fun permissions path tr hf hd => ?_)
      (by unfold ServeDir.opChmod; cases request.permissions <;> rfl) h
    simpa [PerformedOn, hty, hf] using hd
  case truncate =>
    refine verdict_withField .truncate request.offset (fun offset path => .truncate path offset)
      (by simp [hty]) (by simp [Refused, hty]) hn (fun offset path tr hf hd => ?_)
      (by unfold ServeDir.opTruncate; cases request.offset <;> rfl) h
    simpa [PerformedOn, hty, hf] using hd
  case utimens =>
    refine verdict_withField .utimens request.timestamps
      (fun timestamps path => .utimes path
        ⟨timestamps.accessSec, timestamps.accessUsec.getD 0⟩
        ⟨timestamps.modifySec, timestamps.modifyUsec.getD 0⟩)
      (by simp [hty]) (by simp [Refused, hty]) hn (fun timestamps path tr hf hd => ?_)
      (by unfold ServeDir.opUtimens; cases request.timestamps <;> rfl) h
    simpa [PerformedOn, hty, hf] using hd
  case symlink =>
    refine verdict_withField .link request.pathTo .symlink
      (by simp [hty]) (by simp [Refused, hty]) hn (fun pathTo path tr hf hd => ?_)
      (by unfold ServeDir.opSymlink; cases request.pathTo <;> rfl) h
    simpa [PerformedOn, hty, hf] using hd
  case rename | link =>
    refine verdict_onTwoPaths (by simp [hty]) (by simp [Refused, hty]) (by exact hn) ?_ h
    rintro path pathTo tr hto hd
    simpa [PerformedOn, hty, hto] using hd
  case getattr => exact verdict_opGetattr hty hn h
  case «open» => exact verdict_opOpen hty hn h
  case read => exact verdict_opRead hty hn hdata h
  case write => exact verdict_opWrite hty hn h
  case create => exact verdict_opCreate hty hn h
  case readlink => exact verdict_opReadlink hty hn h
  case mknod => exact verdict_opMknod hty hn h
  case statfs => exact verdict_opStatfs hty hn h
  all_goals
    obtain ⟨rfl, rfl⟩ := h
    exact .reported (.inl (by simp [Refused, hty])) (by simp)

end Verdict

/-- A round of the server for a request ends with the verdict on its handler. -/
theorem handle_verdict {lz4 : Lz4} {sd : ServeDir} {request : Request} {tr : Trace}
    {out : ℤ × Response} (hping : request.requesttype ≠ .ping)
    (h : (ServeDir.handle lz4 sd (some request)).Traces tr (some out)) :
    Verdict lz4 sd request tr out := by
  rw [ServeDir.handle, Prog.traces_bind] at h
  obtain ⟨response, tr₁, tr₂, rfl, hcreate, h⟩ := h
  obtain ⟨rfl, -⟩ | ⟨rfl, rfl⟩ := traces_response_create hcreate
  · exact absurd h.2 (by simp)
  replace h := (Prog.traces_bind _ _ _ _).mp h
  obtain ⟨out', tr₃, tr₄, rfl, h, rfl, heq⟩ := h
  obtain rfl := Option.some.inj heq
  rw [List.append_nil]
  exact (dispatch_verdict hping rfl rfl h).cons_alloc.cons_alloc

/-- **When success is truthful**: in every round of the server for a request other than PING, a
response without an error means that the handler succeeded and its file-system calls were made on
the requested paths and succeeded, if and only if nothing was lost in the run or some failure was
reported. -/
theorem handle_honest_iff (lz4 : Lz4) (sd : ServeDir) (request : Request)
    (hping : request.requesttype ≠ .ping) (tr : Trace) (opRc : ℤ) (response : Response)
    (h : (ServeDir.handle lz4 sd (some request)).Traces tr (some (opRc, response))) :
    (response.errnotype = .none → opRc = 0 ∧ Performed lz4 sd request tr) ↔
      (Lost lz4 request tr → Reported request tr) :=
  (handle_verdict hping h).honest_iff

/-- The run of a successful UNLINK of `/a` in the shared directory `/s`. -/
theorem handle_honest_iff_unlink :
    (Errno.none = .none → (0 : ℤ) = 0 ∧ Performed .onRun ⟨[47, 115]⟩ (.onPath .unlink [47, 97])
        [⟨.alloc .record, true⟩, ⟨.alloc .record, true⟩, ⟨.alloc (.bytes 5), true⟩,
          ⟨.path (.unlink [47, 115, 47, 97]), .ok ()⟩]) ↔
      (Lost .onRun (.onPath .unlink [47, 97])
        [⟨.alloc .record, true⟩, ⟨.alloc .record, true⟩, ⟨.alloc (.bytes 5), true⟩,
          ⟨.path (.unlink [47, 115, 47, 97]), .ok ()⟩] →
        Reported (.onPath .unlink [47, 97])
        [⟨.alloc .record, true⟩, ⟨.alloc .record, true⟩, ⟨.alloc (.bytes 5), true⟩,
          ⟨.path (.unlink [47, 115, 47, 97]), .ok ()⟩]) :=
  handle_honest_iff .onRun ⟨[47, 115]⟩ (.onPath .unlink [47, 97]) (by simp [Request.onPath]) _ 0
    { Response.initial with requesttype := .unlink }
    ⟨true, _, rfl, true, _, rfl, true, _, rfl, .ok (), _, rfl, rfl, rfl⟩

/-- An UNLINK without a path is answered like a successful one, and no call is made. -/
theorem handle_not_honest :
    ¬ ∀ (lz4 : Lz4) (sd : ServeDir) (request : Request), request.requesttype ≠ .ping →
      ∀ (tr : Trace) (opRc : ℤ) (response : Response),
        (ServeDir.handle lz4 sd (some request)).Traces tr (some (opRc, response)) →
        response.errnotype = .none → Performed lz4 sd request tr := by
  intro h
  obtain ⟨path, hpath, -⟩ := h .onRun ⟨[47, 115]⟩
    { requesttype := .unlink, version := RHI_VERSION } (by simp)
    [⟨.alloc .record, true⟩, ⟨.alloc .record, true⟩] (-1)
    { Response.initial with requesttype := .unlink }
    ⟨true, _, rfl, true, _, rfl, rfl, rfl⟩ rfl
  cases hpath

end Rhizofs
