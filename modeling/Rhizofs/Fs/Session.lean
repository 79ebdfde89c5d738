import Rhizofs.Fs.Operations
import Rhizofs.Server.RegularFile

/-!
# A client and its server

The client operations and the request handlers put together: a mounted file system with one client
that is the only user of the served tree. The operating system of the server is a parameter
(`Mount.os`). `Mount.step` lets every allocation fail and lets the exchange with the server fail
before or after the server has executed the request; `Mount.ideal` is the run in which nothing of
this fails.
-/

namespace Rhizofs

open Extern

/-- A mounted file system. -/
structure Mount (S : Type) where
  lz4 : Lz4
  sd : ServeDir
  /-- The operating system of the server. -/
  os : (c : SysCall) → S → SysRet c × S
  /-- The clock of the client. -/
  now : ℤ
  timeofday : Timeval
  /-- The calling process. -/
  uid : ℕ
  gid : ℕ

/-- The attribute cache of the client and the state of the server. -/
structure Session (S : Type) where
  cache : AttrCache
  server : S

namespace Mount

variable {S : Type}

/-- The server's calls, where an allocation may fail. -/
def osStep (m : Mount S) : (c : SysCall) → S → SysRet c → S → Prop
  | .alloc _, s, _, s' => s' = s
  | c, s, r, s' => (r, s') = m.os c s

/-- The server's calls, where allocations succeed. -/
def osAll (m : Mount S) : (c : SysCall) → S → SysRet c × S
  | .alloc _, s => (true, s)
  | c, s => m.os c s

theorem osStep_osAll (m : Mount S) (c : SysCall) (s : S) :
    m.osStep c s (m.osAll c s).1 (m.osAll c s).2 := by
  cases c <;> rfl

/-- What `Rhizofs_communicate` may answer, and the server afterwards. An exchange that fails may
have reached the server. A request that was not packed has not, and then even the error may be
0. -/
inductive Exchange (m : Mount S) (request : Request) (s : S) : Option Response × ℤ → S → Prop
  | delivered {rc : ℤ} {response : Response} {s' : S}
      (served : (ServeDir.handle m.lz4 m.sd (some request)).Runs m.osStep s
        (some (rc, response)) s') :
      Exchange m request s (some response, response.getErrno) s'
  | lost {err : ℤ} {r : Option (ℤ × Response)} {s' : S} (pos : 0 < err)
      (served : (ServeDir.handle m.lz4 m.sd (some request)).Runs m.osStep s r s') :
      Exchange m request s (none, err) s'
  | notSent {err : ℤ} (nonneg : 0 ≤ err) : Exchange m request s (none, err) s

/-- The calls of a client operation. -/
def step (m : Mount S) : (c : ClientCall) → Session S → ClientRet c → Session S → Prop
  | .communicate request, w, answer, w' =>
    m.Exchange request w.server answer w'.server ∧ w'.cache = w.cache
  | .time, w, currentTime, w' => currentTime = m.now ∧ w' = w
  | .fuseContext, w, user, w' => user = (m.uid, m.gid) ∧ w' = w
  | .cacheCopyStat path, w, found, w' => found = (w.cache.copyStat m.now path).1 ∧
    w' = { w with cache := (w.cache.copyStat m.now path).2 }
  | .cacheSet path cacheEntry, w, ok, w' =>
    (w.cache.set m.now path cacheEntry).Runs (fun _ _ _ _ => True) () (ok, w'.cache) () ∧
      w'.server = w.server
  | .cacheRemove path, w, _, w' => w' = { w with cache := w.cache.remove path }
  | .alloc _, w, _, w' | .gettimeofday, w, _, w' | .filler _, w, _, w' => w' = w

/-- The server's response to a request when allocations succeed, and the server afterwards. -/
def serve (m : Mount S) (request : Request) (s : S) : Response × S :=
  let ((_, response), s') := (ServeDir.dispatch m.lz4 m.sd request .initial).exec m.osAll s
  (response, s')

/-- The calls of a client operation when nothing outside the server's file system fails. -/
def ideal (m : Mount S) : (c : ClientCall) → Session S → ClientRet c × Session S
  | .alloc _, w => (true, w)
  | .communicate request, w =>
    let (response, s') := m.serve request w.server
    ((some response, response.getErrno), { w with server := s' })
  | .time, w => (m.now, w)
  | .gettimeofday, w => (m.timeofday, w)
  | .fuseContext, w => ((m.uid, m.gid), w)
  | .filler _, w => (false, w)
  | .cacheCopyStat path, w =>
    ((w.cache.copyStat m.now path).1, { w with cache := (w.cache.copyStat m.now path).2 })
  | .cacheSet path cacheEntry, w =>
    let ((ok, cache), _) := (w.cache.set m.now path cacheEntry).exec allocAll ()
    (ok, { w with cache := cache })
  | .cacheRemove path, w => ((), { w with cache := w.cache.remove path })

/-- The handler that answers a request answers a message. -/
theorem exec_handle (m : Mount S) (request : Request) (s : S) :
    (ServeDir.handle m.lz4 m.sd (some request)).exec m.osAll s =
      (some ((ServeDir.dispatch m.lz4 m.sd request .initial).exec m.osAll s).1,
        ((ServeDir.dispatch m.lz4 m.sd request .initial).exec m.osAll s).2) := by
  simp [ServeDir.handle, Response.create, alloc, Prog.perform, osAll]

/-- The ideal run is one of the possible runs. -/
theorem step_ideal (m : Mount S) (c : ClientCall) (w : Session S) :
    m.step c w (m.ideal c w).1 (m.ideal c w).2 := by
  cases c with
  | communicate request =>
    have hrun := Prog.runs_exec m.osAll m.osStep_osAll
      (ServeDir.handle m.lz4 m.sd (some request)) w.server
    rw [exec_handle] at hrun
    exact ⟨.delivered hrun, rfl⟩
  | cacheSet path cacheEntry =>
    exact ⟨Prog.runs_exec allocAll (fun _ _ => trivial) _ (), rfl⟩
  | time => exact ⟨rfl, rfl⟩
  | fuseContext => exact ⟨rfl, rfl⟩
  | cacheCopyStat path => exact ⟨rfl, rfl⟩
  | cacheRemove path => rfl
  | alloc chunk => rfl
  | gettimeofday => rfl
  | filler name => rfl

/-- An operation in which nothing fails sends its request and uses the response. -/
theorem exec_operation (m : Mount S) {α : Type} {fill : Request → Prog ClientRet (Option Request)}
    {failed : ℤ → α} {use : Response → ℤ → Prog ClientRet α} {request : Request} {w : Session S}
    (hfill : (fill .initial).exec m.ideal w = (some request, w)) :
    (operation fill failed use).exec m.ideal w =
      if (m.serve request w.server).1.getErrno ≠ 0 then
        (failed (m.serve request w.server).1.getErrno,
          { w with server := (m.serve request w.server).2 })
      else (use (m.serve request w.server).1 0).exec m.ideal
        { w with server := (m.serve request w.server).2 } := by
  change (fill .initial >>= _).exec m.ideal w = _
  rw [Prog.exec_bind, hfill]
  change (opCommunicate request >>= _).exec m.ideal w = _
  rw [Prog.exec_bind]
  by_cases herr : (m.serve request w.server).1.getErrno = 0 <;> simp [opCommunicate, ideal, herr]

/-! ## Attributes as the server reports them -/

/-- The result of `Rhizofs_getattr_remote` on a response. -/
def statOfResponse (m : Mount S) (response : Response) (stbuf : Stat) : ℤ × Stat :=
  if response.getErrno ≠ 0 then (-response.getErrno, stbuf)
  else match response.attrs with
  | none => (0, stbuf)
  | some attrs => (0, (attrs.toStat m.uid m.gid).2)

/-- What `Rhizofs_getattr_remote` returns in a state of the server. -/
def remoteStat (m : Mount S) (s : S) (path : CString) (stbuf : Stat) : ℤ × Stat :=
  m.statOfResponse (m.serve { Request.initial with path := some path, requesttype := .getattr } s).1
    stbuf

theorem exec_getattrRemoteUse (m : Mount S) (path : CString) (stbuf : Stat) (response : Response)
    (w : Session S) : ((getattrRemoteUse path stbuf response 0).exec m.ideal w).1 =
      match response.attrs with
      | none => (0, stbuf)
      | some attrs => (0, (attrs.toStat m.uid m.gid).2) := by
  cases hattrs : response.attrs with
  | none => simp [getattrRemoteUse, hattrs]
  | some attrs =>
    rcases hstat : attrs.toStat m.uid m.gid with ⟨ok, stat⟩
    cases ok with
    | false => simp [getattrRemoteUse, hattrs, rhizofsConvertAttrsStat, ideal, hstat]
    | true =>
      by_cases htime : m.now = -1
      · simp [getattrRemoteUse, hattrs, rhizofsConvertAttrsStat, cacheEntryCreate, ideal, hstat,
          htime]
      · simp [getattrRemoteUse, hattrs, rhizofsConvertAttrsStat, cacheEntryCreate, ideal, hstat,
          htime]

/-- Without failures `Rhizofs_getattr_remote` returns what the server reports. -/
theorem exec_getattrRemote (m : Mount S) (path : CString) (stbuf : Stat) (w : Session S) :
    ((rhizofsGetattrRemote path stbuf).exec m.ideal w).1 = m.remoteStat w.server path stbuf := by
  rw [rhizofsGetattrRemote, exec_operation m rfl, remoteStat, statOfResponse]
  split_ifs with herr
  · rfl
  · exact exec_getattrRemoteUse m path stbuf _ _

/-- `Rhizofs_getattr` answers from the cache or asks the server. -/
theorem exec_getattr (m : Mount S) (path : CString) (stbuf : Stat) (w : Session S) :
    ((rhizofsGetattr path stbuf).exec m.ideal w).1 =
      match (w.cache.copyStat m.now path).1 with
      | some found => (0, found)
      | none => m.remoteStat w.server path stbuf := by
  simp only [rhizofsGetattr, Prog.perform_bind, Prog.exec_call, ideal]
  cases (w.cache.copyStat m.now path).1 with
  | some found => rfl
  | none => exact exec_getattrRemote m path stbuf _

/-! ## A mount with one file -/

/-- The directory `/s` shared by a system whose only file is `/s/f`, mounted by the user 1. -/
def single : Mount (List UInt8) where
  lz4 := .onRun
  sd := ⟨[47, 115]⟩
  os := oneFile [47, 115, 47, 102]
  now := 100
  timeofday := ⟨100, 0⟩
  uid := 1
  gid := 1

end Mount

end Rhizofs
