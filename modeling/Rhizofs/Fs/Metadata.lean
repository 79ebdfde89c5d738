import Rhizofs.Fs.Coherence
import Rhizofs.Fs.FileData

/-!
# Setting metadata and reading it back

`Rhizofs_chmod`, `Rhizofs_truncate` and `Rhizofs_utimens` on a file that is not a symbolic link,
each followed by `Rhizofs_getattr`. `FileStatus` is what POSIX says of the calls of the server on
that file when they succeed, at the resolution of microseconds. In runs in which every allocation,
exchange and system call succeeds, what was set is reported, whatever the cache holds before
(`set_then_get`).
-/

namespace Rhizofs

open Extern

/-- A time rounded down to microseconds. -/
def Timespec.toMicro (t : Timespec) : Timespec := ⟨t.tvSec, t.tvNsec / 1000 * 1000⟩

/-- The nanoseconds are a fraction of a second. -/
def Timespec.Valid (t : Timespec) : Prop := 0 ≤ t.tvNsec ∧ t.tvNsec < 10 ^ 9

/-- The file `path` has the status `status`, which `chmod`, `truncate` and `utimes` change where it
is not a symbolic link. The server process is the user `uid` and in the groups `groups`. -/
structure FileStatus {S : Type} (os : (c : SysCall) → S → SysRet c × S) (path : CString)
    (status : S → Stat) (uid : ℕ) (groups : List ℕ) : Prop where
  lstat : ∀ {s sb s'}, os (.lstat path) s = (.ok sb, s') → sb = status s ∧ status s' = status s
  getuid : ∀ {s r s'}, os .getuid s = (r, s') → r = uid ∧ status s' = status s
  ngroups : ∀ {s n s'}, os .ngroups s = (.ok n, s') → n = groups.length ∧ status s' = status s
  getgroups : ∀ {s n r s'}, os (.getgroups n) s = (.ok r, s') →
    r = groups ∧ status s' = status s
  chmod : ∀ {s mode s'}, ¬ isFileType (status s).stMode S_IFLNK →
    os (.path (.chmod path mode)) s = (.ok (), s') →
      (status s').stMode &&& 0o777 = mode &&& 0o777 ∧
        (status s').stMode &&& S_IFMT = (status s).stMode &&& S_IFMT
  truncate : ∀ {s length s'}, ¬ isFileType (status s).stMode S_IFLNK →
    os (.path (.truncate path length)) s = (.ok (), s') → (status s').stSize = length
  utimes : ∀ {s atime mtime s'}, ¬ isFileType (status s).stMode S_IFLNK →
    os (.path (.utimes path atime mtime)) s = (.ok (), s') →
      status s' = { status s with
        stAtim := ⟨atime.tvSec, atime.tvUsec * 1000⟩
        stMtim := ⟨mtime.tvSec, mtime.tvUsec * 1000⟩
        stCtim := (status s').stCtim }

/-! ## Times on the wire -/

theorem Timespec.Valid.div {t : Timespec} (h : t.Valid) :
    0 ≤ t.tvNsec / 1000 ∧ t.tvNsec / 1000 < 10 ^ 6 := by
  obtain ⟨h₁, h₂⟩ := h
  omega

theorem Timespec.toMicro_div (t : Timespec) : t.toMicro.tvNsec / 1000 = t.tvNsec / 1000 :=
  Int.mul_ediv_cancel _ (by decide)

theorem Timespec.Valid.toMicro {t : Timespec} (h : t.Valid) : t.toMicro.Valid := by
  obtain ⟨h₁, h₂⟩ := h.div
  exact ⟨by simp only [Timespec.toMicro]; omega, by simp only [Timespec.toMicro]; omega⟩

/-- The microseconds that the client sends. -/
theorem toInt32_tvNsec {t : Timespec} (h : t.Valid) :
    toInt32 (t.tvNsec.tdiv 1000) = t.tvNsec / 1000 := by
  obtain ⟨h₁, h₂⟩ := h
  rw [Int.tdiv_eq_ediv_of_nonneg h₁]
  exact toInt32_of_mem (by omega) (by omega)

/-- Whole microseconds survive the way back. -/
theorem usecToNsec_of_mul {usec : ℤ} (h₁ : 0 ≤ usec) (h₂ : usec < 10 ^ 6) :
    usecToNsec (some (toInt32 ((usec * 1000).tdiv 1000))) = usec * 1000 := by
  rw [Int.mul_tdiv_cancel _ (by decide), toInt32_of_mem (by omega) (by omega), usecToNsec,
    Option.getD_some, toInt32_of_mem (by omega) (by omega)]

namespace Mount

variable {S : Type} {m : Mount S} {w w' : Session S} {path : CString} {status : S → Stat} {uid : ℕ}
  {groups : List ℕ}

/-- What the client reports for a status on the server. -/
def reported (m : Mount S) (uid : ℕ) (groups : List ℕ) (sb : Stat) : Stat :=
  ((Attrs.ofStat sb (.ofMode sb.stMode) uid (groups.contains sb.stGid) none).toStat m.uid m.gid).2

theorem reported_stMode (sb : Stat) : (m.reported uid groups sb).stMode =
    (FileType.fromLocal sb.stMode).toLocal ||| (sb.stMode &&& 0o777) := by
  rw [← Permissions.toBitmask_ofMode]
  rfl

theorem reported_stAtim (sb : Stat) : (m.reported uid groups sb).stAtim =
    ⟨sb.stAtim.tvSec, usecToNsec (some (toInt32 (sb.stAtim.tvNsec.tdiv 1000)))⟩ := rfl

theorem reported_stMtim (sb : Stat) : (m.reported uid groups sb).stMtim =
    ⟨sb.stMtim.tvSec, usecToNsec (some (toInt32 (sb.stMtim.tvNsec.tdiv 1000)))⟩ := rfl

/-! ## The server -/

section Served

variable {s s' : S} {response : Response}

theorem runs_posixCurrentUserInGroup {p : CString}
    (hstatus : FileStatus m.os p status uid groups) {gid : ℕ} {r : Option Bool}
    (h : (posixCurrentUserInGroup gid).Runs (succeeds m.os) s r s') :
    r = some (groups.contains gid) ∧ status s' = status s := by
  obtain ⟨nGroups, s₁, ⟨hn, hok⟩, h⟩ := h
  cases nGroups with
  | error e => cases hok
  | ok nGroups =>
    obtain ⟨rfl, hstatus₁⟩ := hstatus.ngroups hn.symm
    replace h := runs_alloc.mp h
    obtain ⟨r', s₂, ⟨hg, hok⟩, h⟩ := h
    cases r' with
    | error e => cases hok
    | ok r' =>
      obtain ⟨rfl, hstatus₂⟩ := hstatus.getgroups hg.symm
      obtain ⟨rfl, rfl⟩ := h
      exact ⟨by simp, hstatus₂.trans hstatus₁⟩

/-- `ServeDir_op_getattr` answers with the status of the file. -/
theorem served_getattr (hstatus : FileStatus m.os (joined m.sd.directory path) status uid groups)
    (h : m.Served { Request.initial with path := some path, requesttype := .getattr } s
      response s') :
    status s' = status s ∧ response.errnotype = .none ∧ response.attrs =
      some (.ofStat (status s) (.ofMode (status s).stMode) uid
        (groups.contains (status s).stGid) none) := by
  obtain ⟨rc, hrun⟩ := h
  obtain ⟨r, s₁, ⟨hos, hok⟩, h₁⟩ := (runs_fullpath_bind rfl).mp hrun
  cases r with
  | error e => cases hok
  | ok sb =>
    obtain ⟨rfl, hstatus₁⟩ := hstatus.lstat hos.symm
    obtain ⟨attrs, s₂, hcreate, h₂⟩ := (Prog.runs_bind _ (Attrs.create _ _) _ _ _ _).mp h₁
    replace hcreate := runs_alloc.mp hcreate
    replace hcreate := runs_mem_bind.mp hcreate
    replace hcreate := runs_mem_bind.mp hcreate
    replace hcreate := runs_mem_bind.mp hcreate
    obtain ⟨uid', s₃, ⟨huid, -⟩, hgroups⟩ := hcreate
    obtain ⟨rfl, hstatus₃⟩ := hstatus.getuid huid.symm
    obtain ⟨inGroup, s₄, hin, hret⟩ :=
      (Prog.runs_bind _ (posixCurrentUserInGroup _) _ _ _ _).mp hgroups
    obtain ⟨rfl, hstatus₄⟩ := runs_posixCurrentUserInGroup hstatus hin
    obtain ⟨rfl, rfl⟩ := hret
    obtain ⟨hout, rfl⟩ := h₂
    obtain ⟨-, rfl⟩ := Prod.mk.inj hout
    exact ⟨hstatus₄.trans (hstatus₃.trans hstatus₁), rfl, rfl⟩

/-- A handler that makes one call on its path makes it successfully. -/
theorem runs_onPath {sd : ServeDir} {request : Request} {response response' : Response}
    {op : CString → PathOp} {rc : ℤ} (hpath : request.path = some path)
    (h : (sd.onPath request response op).Runs (succeeds m.os) s (rc, response') s') :
    m.os (.path (op (joined sd.directory path))) s = (.ok (), s') ∧ response' = response := by
  obtain ⟨r, s₁, ⟨hos, hok⟩, h⟩ := (runs_fullpath_bind hpath).mp h
  cases r with
  | error e => cases hok
  | ok r =>
    obtain ⟨hout, rfl⟩ := h
    exact ⟨hos.symm, (Prod.mk.inj hout).2⟩

end Served

/-! ## The client -/

/-- An operation that sends a request for one call on the path makes that call and removes the path
from the cache. -/
theorem runs_plain {fill : Request → Prog ClientRet (Option Request)} {request : Request}
    {response : Response} {op : CString → PathOp} {ret : ℤ}
    (h : (plainOperation fill (some path)).Runs m.okStep w ret w')
    (hfill : ∀ filled w₁, (fill .initial).Runs m.okStep w filled w₁ →
      filled = some request ∧ w₁ = w)
    (hdispatch : ServeDir.dispatch m.lz4 m.sd request .initial = m.sd.onPath request response op)
    (hpath : request.path = some path) (herr : response.errnotype = .none) :
    ret = 0 ∧ w'.cache = w.cache.remove path ∧
      m.os (.path (op (joined m.sd.directory path))) w.server = (.ok (), w'.server) := by
  have hcall : ∀ response' s', m.Served request w.server response' s' →
      m.os (.path (op (joined m.sd.directory path))) w.server = (.ok (), s') ∧
        response' = response := by
    rintro response' s' ⟨rc, hrun⟩
    rw [hdispatch] at hrun
    exact runs_onPath hpath hrun
  obtain ⟨response', s', hserved, hu⟩ := runs_operation_ok h request hfill
    (fun _ _ hs => (hcall _ _ hs).2 ▸ herr)
  obtain ⟨_, w₁, rfl, rfl, rfl⟩ := hu
  exact ⟨rfl, rfl, (hcall _ _ hserved).1⟩

theorem runs_fillPermissions {mode : ℕ} {set : Permissions → Request} {filled : Option Request}
    {w₁ : Session S} (h : (fillPermissions mode set).Runs m.okStep w filled w₁) :
    filled = some (set (.ofMode mode)) ∧ w₁ = w := by
  obtain ⟨permissions, w₂, hmem, hret⟩ := (Prog.runs_bind _ _ _ _ _ _).mp h
  obtain ⟨rfl, rfl⟩ := runs_clientMem.mp hmem
  exact hret

theorem runs_fillTimes {access modify : Timespec} {set : TimeSet → Request}
    {filled : Option Request} {w₁ : Session S}
    (h : (do
      let some timestamps ← clientMem TimeSet.create | return none
      let timestamps ← utimensTimes timestamps (some (access, modify))
      return some (set timestamps) : Prog ClientRet (Option Request)).Runs m.okStep w filled w₁) :
    filled = some (set
      { accessSec := access.tvSec
        modifySec := modify.tvSec
        creationSec := none
        accessUsec := some (toInt32 (access.tvNsec.tdiv 1000))
        modifyUsec := some (toInt32 (modify.tvNsec.tdiv 1000))
        creationUsec := none }) ∧ w₁ = w := by
  obtain ⟨timestamps, w₂, hmem, hret⟩ := (Prog.runs_bind _ _ _ _ _ _).mp h
  obtain ⟨rfl, rfl⟩ := runs_clientMem.mp hmem
  exact hret

theorem runs_chmod {mode : ℕ} {ret : ℤ} (h : (rhizofsChmod path mode).Runs m.okStep w ret w') :
    ret = 0 ∧ w'.cache = w.cache.remove path ∧
      m.os (.path (.chmod (joined m.sd.directory path) (mode &&& 0o777))) w.server =
        (.ok (), w'.server) := by
  rw [← Permissions.toBitmask_ofMode]
  exact runs_plain h (fun _ _ => runs_fillPermissions) rfl rfl rfl

theorem runs_truncate_path {length : ℤ} {ret : ℤ}
    (h : (rhizofsTruncate path length).Runs m.okStep w ret w') :
    ret = 0 ∧ w'.cache = w.cache.remove path ∧
      m.os (.path (.truncate (joined m.sd.directory path) length)) w.server = (.ok (), w'.server) :=
  runs_plain h (fun _ _ hf => hf) rfl rfl rfl

theorem runs_utimens {access modify : Timespec} {ret : ℤ} (haccess : access.Valid)
    (hmodify : modify.Valid)
    (h : (rhizofsUtimens path (some (access, modify))).Runs m.okStep w ret w') :
    ret = 0 ∧ w'.cache = w.cache.remove path ∧
      m.os (.path (.utimes (joined m.sd.directory path) ⟨access.tvSec, access.tvNsec / 1000⟩
        ⟨modify.tvSec, modify.tvNsec / 1000⟩)) w.server = (.ok (), w'.server) := by
  rw [← toInt32_tvNsec haccess, ← toInt32_tvNsec hmodify]
  exact runs_plain h (fun _ _ => runs_fillTimes) rfl rfl rfl

theorem runs_getattrRemoteUse {response : Response} {attrs : Attrs} {stbuf : Stat} {out : ℤ × Stat}
    (hattrs : response.attrs = some attrs) (hcreation : attrs.timestamps.creationSec.isSome)
    (hwf : w.cache.Wf) (h : (getattrRemoteUse path stbuf response 0).Runs m.okStep w out w') :
    out = (0, (attrs.toStat m.uid m.gid).2) ∧ w'.server = w.server ∧ w'.cache.Wf := by
  have hconv : (attrs.toStat m.uid m.gid).1 = true := by
    simp [Attrs.toStat, Attrs.copyToStat_fst, hcreation]
  simp only [getattrRemoteUse, hattrs] at h
  obtain ⟨user, w₁, ⟨rfl, rfl⟩, h₁⟩ := h
  rcases hstat : attrs.toStat m.uid m.gid with ⟨converted, found⟩
  obtain rfl : converted = true := by simpa [hstat] using hconv
  simp only [Prog.bind, Prog.pure_eq, hstat] at h₁
  obtain ⟨ok, _, ⟨rfl, rfl⟩, ok', _, ⟨rfl, rfl⟩, currentTime, w₂, ⟨rfl, rfl⟩, h₂⟩ := h₁
  by_cases htime : m.now = -1
  · simp only [Prog.bind, htime, if_true] at h₂
    obtain ⟨rfl, rfl⟩ := h₂
    exact ⟨rfl, rfl, hwf⟩
  · simp only [Prog.bind, if_neg htime] at h₂
    obtain ⟨stored, w₃, ⟨hset, hserver⟩, h₃⟩ := h₂
    have hout : out = (0, found) ∧ w' = w₃ := by cases stored <;> exact h₃
    obtain ⟨rfl, rfl⟩ := hout
    exact ⟨rfl, hserver, AttrCache.wf_set hwf htime hset⟩

/-- `Rhizofs_getattr` of a path that is not in the cache reports the status on the server. -/
theorem runs_getattr (hstatus : FileStatus m.os (joined m.sd.directory path) status uid groups)
    (hwf : w.cache.Wf) (hmiss : (w.cache.copyStat m.now path).1 = none) {stbuf : Stat}
    {out : ℤ × Stat} (h : (rhizofsGetattr path stbuf).Runs m.okStep w out w') :
    out = (0, m.reported uid groups (status w.server)) ∧ status w'.server = status w.server ∧
      w'.cache.Wf := by
  obtain ⟨found, w₁, ⟨rfl, rfl⟩, hremote⟩ := h
  simp only [Prog.bind, hmiss] at hremote
  have hserve : ∀ response s', m.Served _ w.server response s' → _ :=
    fun _ _ hs => served_getattr hstatus hs
  obtain ⟨response, s', hserved, hu⟩ := runs_operation_ok hremote
    { Request.initial with path := some path, requesttype := .getattr }
    (fun _ _ hf => hf) (fun response s' hs => (hserve response s' hs).2.1)
  obtain ⟨hstatus', -, hattrs⟩ := hserve response s' hserved
  obtain ⟨rfl, hserver, hwf'⟩ :=
    runs_getattrRemoteUse hattrs rfl (AttrCache.wf_get hwf m.now path) hu
  exact ⟨rfl, (congrArg status hserver).trans hstatus', hwf'⟩

/-! ## Setting, then getting -/

/-- The mount at another time. -/
def atTime (m : Mount S) (now : ℤ) : Mount S := { m with now := now }

/-- At all times `Rhizofs_getattr` of the path succeeds and reports a stat in `P`. -/
def Reports (m : Mount S) (w : Session S) (path : CString) (P : Stat → Prop) : Prop :=
  ∀ now stbuf out w', (rhizofsGetattr path stbuf).Runs (m.atTime now).okStep w out w' →
    out.1 = 0 ∧ P out.2

/-- A path that was removed from the cache is reported as it is on the server. -/
theorem reports_of_remove
    (hstatus : FileStatus m.os (joined m.sd.directory path) status uid groups) (hwf : w.cache.Wf)
    (hcache : w'.cache = w.cache.remove path) {P : Stat → Prop}
    (hP : P (m.reported uid groups (status w'.server))) : m.Reports w' path P := by
  intro now stbuf out w'' hrun
  have hmiss : (w'.cache.copyStat now path).1 = none := by
    rw [hcache, copyStat_remove hwf, if_pos rfl]
  obtain ⟨rfl, -, -⟩ := runs_getattr (m := m.atTime now) hstatus
    (hcache ▸ AttrCache.wf_remove hwf path) hmiss hrun
  exact ⟨rfl, hP⟩

theorem chmod_then_get
    (hstatus : FileStatus m.os (joined m.sd.directory path) status uid groups) (hwf : w.cache.Wf)
    (hlink : ¬ isFileType (status w.server).stMode S_IFLNK) {mode : ℕ} {ret : ℤ}
    (h : (rhizofsChmod path mode).Runs m.okStep w ret w') :
    m.Reports w' path fun found => found.stMode &&& 0o777 = mode &&& 0o777 ∧
      ∀ type ∈ fileTypes, isFileType (status w.server).stMode type →
        isFileType found.stMode type := by
  obtain ⟨-, hcache, hos⟩ := runs_chmod h
  obtain ⟨hmode, hfmt⟩ := hstatus.chmod hlink hos
  refine reports_of_remove hstatus hwf hcache ⟨?_, fun type htype hold => ?_⟩
  · rw [reported_stMode, FileType.toLocal_or_and_permissions, hmode, Nat.and_assoc, Nat.and_self]
  · have hnew : isFileType (status w'.server).stMode type := by
      rwa [isFileType, hfmt]
    rw [isFileType, reported_stMode, FileType.toLocal_or_and_ifmt,
      FileType.toLocal_fromLocal htype hnew]
    exact beq_self_eq_true type

theorem truncate_then_get
    (hstatus : FileStatus m.os (joined m.sd.directory path) status uid groups) (hwf : w.cache.Wf)
    (hlink : ¬ isFileType (status w.server).stMode S_IFLNK) {length : ℤ} {ret : ℤ}
    (h : (rhizofsTruncate path length).Runs m.okStep w ret w') :
    m.Reports w' path fun found => found.stSize = length := by
  obtain ⟨-, hcache, hos⟩ := runs_truncate_path h
  exact reports_of_remove hstatus hwf hcache (hstatus.truncate hlink hos)

/-- The times that are reported for a status with whole microseconds. -/
theorem reported_times {access modify : Timespec} (haccess : access.Valid) (hmodify : modify.Valid)
    {sb : Stat} (hatim : sb.stAtim = access.toMicro) (hmtim : sb.stMtim = modify.toMicro) :
    (m.reported uid groups sb).stAtim = access.toMicro ∧
      (m.reported uid groups sb).stMtim = modify.toMicro := by
  rw [reported_stAtim, reported_stMtim, hatim, hmtim]
  exact ⟨congrArg _ (usecToNsec_of_mul haccess.div.1 haccess.div.2),
    congrArg _ (usecToNsec_of_mul hmodify.div.1 hmodify.div.2)⟩

theorem utimens_then_get
    (hstatus : FileStatus m.os (joined m.sd.directory path) status uid groups) (hwf : w.cache.Wf)
    (hlink : ¬ isFileType (status w.server).stMode S_IFLNK) {access modify : Timespec}
    (haccess : access.Valid) (hmodify : modify.Valid) {ret : ℤ}
    (h : (rhizofsUtimens path (some (access, modify))).Runs m.okStep w ret w') :
    m.Reports w' path fun found =>
      found.stAtim = access.toMicro ∧ found.stMtim = modify.toMicro := by
  obtain ⟨-, hcache, hos⟩ := runs_utimens haccess hmodify h
  have hset := hstatus.utimes hlink hos
  refine reports_of_remove hstatus hwf hcache (reported_times haccess hmodify ?_ ?_)
  · rw [hset]
    rfl
  · rw [hset]
    rfl

/-- Setting the times that were reported changes only the time of the last change. -/
theorem utimens_again
    (hstatus : FileStatus m.os (joined m.sd.directory path) status uid groups) (hwf : w.cache.Wf)
    (hlink : ¬ isFileType (status w.server).stMode S_IFLNK) {access modify : Timespec}
    (haccess : access.Valid) (hmodify : modify.Valid) {ret : ℤ}
    (h : (rhizofsUtimens path (some (access, modify))).Runs m.okStep w ret w') {now : ℤ}
    {stbuf : Stat} {out : ℤ × Stat} {w₁ : Session S}
    (hget : (rhizofsGetattr path stbuf).Runs (m.atTime now).okStep w' out w₁) {ret' : ℤ}
    {w₂ : Session S}
    (hagain : (rhizofsUtimens path (some (out.2.stAtim, out.2.stMtim))).Runs m.okStep w₁ ret' w₂) :
    status w₂.server = { status w'.server with stCtim := (status w₂.server).stCtim } ∧
      m.Reports w₂ path fun found => found = { out.2 with stCtim := found.stCtim } := by
  obtain ⟨-, hcache, hos⟩ := runs_utimens haccess hmodify h
  have hset := hstatus.utimes hlink hos
  obtain ⟨-, hatim, hmtim⟩ :=
    utimens_then_get hstatus hwf hlink haccess hmodify h now stbuf out w₁ hget
  have hmiss : (w'.cache.copyStat now path).1 = none := by
    rw [hcache, copyStat_remove hwf, if_pos rfl]
  obtain ⟨rfl, hserver, hwf₁⟩ := runs_getattr (m := m.atTime now) hstatus
    (hcache ▸ AttrCache.wf_remove hwf path) hmiss hget
  rw [hatim, hmtim] at hagain
  obtain ⟨-, hcache₂, hos₂⟩ := runs_utimens haccess.toMicro hmodify.toMicro hagain
  rw [access.toMicro_div, modify.toMicro_div] at hos₂
  have hlink₁ : ¬ isFileType (status w₁.server).stMode S_IFLNK := by
    rw [hserver, hset]
    exact hlink
  have hsame : status w₂.server =
      { status w'.server with stCtim := (status w₂.server).stCtim } := by
    rw [hstatus.utimes hlink₁ hos₂, hserver, hset]
    rfl
  refine ⟨hsame, reports_of_remove hstatus hwf₁ hcache₂ ?_⟩
  rw [hsame]
  rfl

/-- **Set, then get.** For the only client of a server, on a file that is not a symbolic link and
whatever the cache holds before: after `Rhizofs_chmod` the permissions set are reported, with the
type the file had; after `Rhizofs_truncate` the size; after `Rhizofs_utimens` the times, rounded
down to microseconds; and setting the times reported once more changes only the time of the last
change. -/
theorem set_then_get (m : Mount S) (path : CString) (status : S → Stat) (uid : ℕ) (groups : List ℕ)
    (hstatus : FileStatus m.os (joined m.sd.directory path) status uid groups) (w : Session S)
    (hwf : w.cache.Wf) (hlink : ¬ isFileType (status w.server).stMode S_IFLNK) :
    (∀ mode ret w', (rhizofsChmod path mode).Runs m.okStep w ret w' → ret = 0 →
      m.Reports w' path fun found => found.stMode &&& 0o777 = mode &&& 0o777 ∧
        ∀ type ∈ fileTypes, isFileType (status w.server).stMode type →
          isFileType found.stMode type) ∧
    (∀ length ret w', (rhizofsTruncate path length).Runs m.okStep w ret w' → ret = 0 →
      m.Reports w' path fun found => found.stSize = length) ∧
    ∀ access modify, access.Valid → modify.Valid → ∀ ret w',
      (rhizofsUtimens path (some (access, modify))).Runs m.okStep w ret w' → ret = 0 →
        (m.Reports w' path fun found =>
          found.stAtim = access.toMicro ∧ found.stMtim = modify.toMicro) ∧
        ∀ now stbuf out w₁, (rhizofsGetattr path stbuf).Runs (m.atTime now).okStep w' out w₁ →
          ∀ ret' w₂,
            (rhizofsUtimens path (some (out.2.stAtim, out.2.stMtim))).Runs m.okStep w₁ ret' w₂ →
            ret' = 0 →
              status w₂.server = { status w'.server with stCtim := (status w₂.server).stCtim } ∧
                m.Reports w₂ path fun found => found = { out.2 with stCtim := found.stCtim } := by
  refine ⟨fun mode ret w' h _ => chmod_then_get hstatus hwf hlink h,
    fun length ret w' h _ => truncate_then_get hstatus hwf hlink h, ?_⟩
  intro access modify haccess hmodify ret w' h _
  refine ⟨utimens_then_get hstatus hwf hlink haccess hmodify h, ?_⟩
  intro now stbuf out w₁ hget ret' w₂ hagain _
  exact utimens_again hstatus hwf hlink haccess hmodify h hget hagain

/-! ## A mount with one file -/

/-- A system like `oneFile` where the status of the file is the state. -/
def oneStat (path : CString) : (c : SysCall) → Stat → SysRet c × Stat
  | .path (.chmod path' mode), sb =>
    if path' = path then (.ok (), { sb with stMode := sb.stMode &&& S_IFMT ||| mode &&& 0o7777 })
    else (.error ⟨ENOENT, ENOENT_ne⟩, sb)
  | .path (.truncate path' length), sb =>
    if path' = path then (.ok (), { sb with stSize := length })
    else (.error ⟨ENOENT, ENOENT_ne⟩, sb)
  | .path (.utimes path' atime mtime), sb =>
    if path' = path then (.ok (), { sb with
      stAtim := ⟨atime.tvSec, atime.tvUsec * 1000⟩
      stMtim := ⟨mtime.tvSec, mtime.tvUsec * 1000⟩ })
    else (.error ⟨ENOENT, ENOENT_ne⟩, sb)
  | .lstat path', sb => (if path' = path then .ok sb else .error ⟨ENOENT, ENOENT_ne⟩, sb)
  | c, sb => ((oneFile path c []).1, sb)

theorem oneStat_fileStatus (path : CString) : FileStatus (oneStat path) path id 0 [] where
  lstat := by
    intro s sb s' h
    simp only [oneStat, if_pos, Prod.mk.injEq, Except.ok.injEq] at h
    obtain ⟨rfl, rfl⟩ := h
    exact ⟨rfl, rfl⟩
  getuid := by
    rintro s r s' ⟨⟩
    exact ⟨rfl, rfl⟩
  ngroups := by
    rintro s n s' ⟨⟩
    exact ⟨rfl, rfl⟩
  getgroups := by
    rintro s n r s' ⟨⟩
    exact ⟨rfl, rfl⟩
  chmod := by
    intro s mode s' _ h
    simp only [oneStat, if_pos, Prod.mk.injEq, true_and] at h
    subst h
    simp only [id, Nat.and_or_distrib_right, Nat.and_assoc]
    exact ⟨by simp [S_IFMT], by simp [S_IFMT]⟩
  truncate := by
    intro s length s' _ h
    simp only [oneStat, if_pos, Prod.mk.injEq, true_and] at h
    subst h
    rfl
  utimes := by
    intro s atime mtime s' _ h
    simp only [oneStat, if_pos, Prod.mk.injEq, true_and] at h
    subst h
    rfl

/-- The directory `/s` with the file `f`, mounted by the user 1. -/
def singleStat : Mount Stat where
  lz4 := .onRun
  sd := ⟨[47, 115]⟩
  os := oneStat [47, 115, 47, 102]
  now := 100
  timeofday := ⟨100, 0⟩
  uid := 1
  gid := 1

/-- After `chmod 600` the file `/f` has the mode 600. -/
theorem set_then_get_chmod : ∃ w' found w₁,
    (rhizofsChmod [47, 102] 0o600).Runs singleStat.okStep
      ⟨.init 1 1, { Stat.zero with stMode := S_IFREG ||| 0o644 }⟩ 0 w' ∧
    (rhizofsGetattr [47, 102] .zero).Runs (singleStat.atTime 200).okStep w' (0, found) w₁ ∧
      found.stMode &&& 0o777 = 0o600 := by
  have hset : (rhizofsChmod [47, 102] 0o600).Runs singleStat.okStep
      ⟨.init 1 1, { Stat.zero with stMode := S_IFREG ||| 0o644 }⟩ 0
      ⟨(AttrCache.init 1 1).remove [47, 102], { Stat.zero with stMode := S_IFREG ||| 0o600 }⟩ :=
    ⟨true, _, ⟨rfl, rfl⟩, true, _, ⟨rfl, rfl⟩, true, _, ⟨rfl, rfl⟩, true, _, ⟨rfl, rfl⟩,
      true, _, ⟨rfl, rfl⟩, _, ⟨_, _⟩, ⟨0, _, ⟨true, _, ⟨rfl, rfl⟩, true, _, ⟨rfl, rfl⟩,
        true, _, ⟨rfl, rfl⟩, .ok (), _, ⟨rfl, rfl⟩, rfl, rfl⟩, rfl, rfl⟩, (), _, rfl, rfl, rfl⟩
  have hget : (rhizofsGetattr [47, 102] .zero).Runs (singleStat.atTime 200).okStep
      ⟨(AttrCache.init 1 1).remove [47, 102], { Stat.zero with stMode := S_IFREG ||| 0o600 }⟩
      (0, singleStat.reported 0 [] { Stat.zero with stMode := S_IFREG ||| 0o600 }) ⟨_, _⟩ :=
    ⟨none, _, ⟨rfl, rfl⟩, true, _, ⟨rfl, rfl⟩, _, ⟨_, _⟩, ⟨0, _, ⟨true, _, ⟨rfl, rfl⟩,
      true, _, ⟨rfl, rfl⟩, true, _, ⟨rfl, rfl⟩, .ok _, _, ⟨rfl, rfl⟩, true, _, ⟨rfl, rfl⟩,
      true, _, ⟨rfl, rfl⟩, true, _, ⟨rfl, rfl⟩, true, _, ⟨rfl, rfl⟩, true, _, ⟨rfl, rfl⟩,
      true, _, ⟨rfl, rfl⟩, 0, _, ⟨rfl, trivial⟩, .ok 0, _, ⟨rfl, rfl⟩, true, _, ⟨rfl, rfl⟩,
      .ok [], _, ⟨rfl, rfl⟩, rfl, rfl⟩, rfl, rfl⟩, (1, 1), _, ⟨rfl, rfl⟩, true, _, ⟨rfl, rfl⟩,
      true, _, ⟨rfl, rfl⟩, 200, _, ⟨rfl, rfl⟩, false, ⟨_, _⟩, ⟨⟨false, _, trivial, rfl, rfl⟩, rfl⟩,
      rfl, rfl⟩
  have hfound := (set_then_get singleStat [47, 102] id 0 [] (oneStat_fileStatus _)
    ⟨.init 1 1, { Stat.zero with stMode := S_IFREG ||| 0o644 }⟩ (AttrCache.wf_init 1 1)
    (by decide)).1 0o600 0 _ hset rfl 200 .zero _ _ hget
  exact ⟨_, _, _, hset, hget, hfound.2.1⟩

end Mount

end Rhizofs
