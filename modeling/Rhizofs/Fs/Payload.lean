import Rhizofs.Fs.Operations

/-!
# Success without the payload

What the client operations make of a response with `ERRNO_NONE`. `returned_err` is 0 from then on,
so each later jump to `error` returns 0, which FUSE takes for success. `payload_iff` says for which
responses, and in a directory listing for which failures, that happens.
-/

namespace Rhizofs

open Extern

/-- The calls of a run of a client operation. -/
abbrev ClientTrace : Type := List (Event ClientRet)

/-- The answer of an exchange with the server. -/
def exchanged : Event ClientRet → Option (Option Response × ℤ)
  | ⟨.communicate _, answer⟩ => some answer
  | _ => none

/-- The exchange of the run, which is the first, brought the response. -/
def Delivered (response : Response) (tr : ClientTrace) : Prop :=
  tr.findSome? exchanged = some (some response, response.getErrno)

/-- Calls other than the exchange. -/
def Quiet (c : ClientCall) : Prop := ∀ request, c ≠ .communicate request

theorem clientMem_quiet {α : Type} (p : Prog MemRet α) : (clientMem p).Calls Quiet := by
  induction p with
  | ret a => trivial
  | call c k ih => exact And.intro (fun request h => by cases h) ih

theorem exchanged_of_quiet {ev : Event ClientRet} (h : Quiet ev.1) : exchanged ev = none := by
  obtain ⟨c, r⟩ := ev
  cases c with
  | communicate request => exact absurd rfl (h request)
  | _ => rfl

section Operation

variable {α : Type} {fill : Request → Prog ClientRet (Option Request)} {failed : ℤ → α}
  {use : Response → ℤ → Prog ClientRet α} {tr : ClientTrace} {a : α}

theorem traces_opCommunicate {request : Request} {r : Option Response × ℤ}
    (h : (opCommunicate request).Traces tr r) :
    ∃ response err, tr = [⟨.communicate request, (response, err)⟩] ∧
      r = if err ≠ 0 then (none, err) else (response, err) := by
  obtain ⟨⟨response, err⟩, tr', rfl, h⟩ := h
  refine ⟨response, err, ?_⟩
  by_cases herr : err = 0
  · subst herr
    obtain ⟨rfl, rfl⟩ := h
    exact ⟨rfl, rfl⟩
  · simp only [Prog.bind, ne_eq, herr, not_false_eq_true, if_true] at h
    obtain ⟨rfl, rfl⟩ := h
    exact ⟨rfl, (if_pos herr).symm⟩

/-- An operation that got the response ends with what it does with it, at `returned_err` 0. -/
theorem traces_operation {response : Response} (hfill : ∀ request, (fill request).Calls Quiet)
    (hnone : response.errnotype = .none) (h : (operation fill failed use).Traces tr a)
    (hdel : Delivered response tr) :
    ∃ init request trf tru, tr = ⟨.alloc .record, true⟩ :: trf ++
        ⟨.communicate request, (some response, 0)⟩ :: tru ∧
      (fill init).Traces trf (some request) ∧ (use response 0).Traces tru a := by
  rw [Delivered, Response.getErrno_eq_zero hnone] at hdel
  obtain ⟨ok, tr, rfl, h⟩ := h
  cases ok with
  | false =>
    obtain ⟨rfl, -⟩ := h
    cases hdel
  | true =>
    obtain ⟨filled, trf, trc, rfl, hf, h₁⟩ := (Prog.traces_bind (fill _) _ _ _).mp h
    have htrf : trf.findSome? exchanged = none :=
      List.findSome?_eq_none_iff.mpr fun ev hev =>
        exchanged_of_quiet ((hfill _).of_traces hf ev hev)
    change (trf ++ trc).findSome? exchanged = some (some response, 0) at hdel
    rw [List.findSome?_append, htrf, Option.none_or] at hdel
    cases filled with
    | none =>
      obtain ⟨rfl, -⟩ := h₁
      cases hdel
    | some request =>
      obtain ⟨r, trc, tru, rfl, hc, h₂⟩ := (Prog.traces_bind (opCommunicate request) _ _ _).mp h₁
      obtain ⟨response', err, rfl, rfl⟩ := traces_opCommunicate hc
      cases hdel
      exact ⟨_, request, trf, tru, rfl, hf, h₂⟩

end Operation

/-- What success must mean: it is reported only with the payload, and an error otherwise. -/
def PayloadRule (ret : ℤ) (success payload : Prop) : Prop :=
  (success → payload) ∧ (¬ payload → ret < 0)

theorem payloadRule_of_payload {ret : ℤ} {success payload : Prop} (h : payload) :
    PayloadRule ret success payload :=
  ⟨fun _ => h, fun hn => absurd h hn⟩

/-- Where the operation returns 0, the rule holds only with the payload. -/
theorem payloadRule_zero_iff {success payload : Prop} :
    PayloadRule 0 success payload ↔ payload :=
  ⟨fun hrule => by_contra fun hn => absurd (hrule.2 hn) (lt_irrefl 0), payloadRule_of_payload⟩

theorem Attrs.toStat_fst (attrs : Attrs) (uid gid : ℕ) :
    (attrs.toStat uid gid).1 = attrs.timestamps.creationSec.isSome := by
  rw [← attrs.copyToStat_fst, toStat]
  rcases attrs.copyToStat with ⟨ok, stbuf⟩
  cases ok <;> rfl

section Ops

variable {response : Response} {tr : ClientTrace}

/-- The buffer holds the attributes of the response, converted for the calling process. -/
def FilledStat (response : Response) (tr : ClientTrace) (stbuf : Stat) : Prop :=
  ∃ attrs uid gid, response.attrs = some attrs ∧
    (⟨.fuseContext, (uid, gid)⟩ : Event ClientRet) ∈ tr ∧ attrs.toStat uid gid = (true, stbuf)

/-- Whatever fails after the conversion, the result is the same. -/
theorem getattrRemoteUse_result {path : CString} {stbuf : Stat} {attrs : Attrs}
    (hattrs : response.attrs = some attrs) {out : ℤ × Stat}
    (h : (getattrRemoteUse path stbuf response 0).Traces tr out) :
    ∃ uid gid, (⟨.fuseContext, (uid, gid)⟩ : Event ClientRet) ∈ tr ∧
      out = (0, (attrs.toStat uid gid).2) := by
  simp only [getattrRemoteUse, hattrs] at h
  obtain ⟨⟨uid, gid⟩, tr, rfl, h⟩ := h
  refine ⟨uid, gid, List.mem_cons_self .., ?_⟩
  rcases hstat : attrs.toStat uid gid with ⟨ok, converted⟩
  simp only [Prog.bind, Prog.pure_eq, hstat] at h
  cases ok with
  | false => exact h.2
  | true =>
    obtain ⟨ok, tr, rfl, h⟩ := h
    cases ok with
    | false => exact h.2
    | true =>
      obtain ⟨ok, tr, rfl, h⟩ := h
      cases ok with
      | false => exact h.2
      | true =>
        obtain ⟨currentTime, tr, rfl, h⟩ := h
        simp only [Prog.bind] at h
        split at h
        · exact h.2
        · obtain ⟨ok, tr, rfl, h⟩ := h
          cases ok with
          | false => exact h.2
          | true => exact h.2

theorem getattrRemote_rule (hnone : response.errnotype = .none) (hdel : Delivered response tr)
    {path : CString} {stbuf stbuf' : Stat} {ret : ℤ}
    (h : (rhizofsGetattrRemote path stbuf).Traces tr (ret, stbuf')) :
    PayloadRule ret (ret = 0) (FilledStat response tr stbuf') ↔
      ∃ attrs, response.attrs = some attrs ∧ attrs.timestamps.creationSec.isSome := by
  obtain ⟨init, request, trf, tru, rfl, -, h⟩ :=
    traces_operation (fun _ => by exact trivial) hnone h hdel
  cases hattrs : response.attrs with
  | none =>
    simp only [getattrRemoteUse, hattrs] at h
    obtain ⟨-, hout⟩ := h
    cases hout
    simp [payloadRule_zero_iff, FilledStat, hattrs]
  | some attrs =>
    obtain ⟨uid, gid, hmem, hout⟩ := getattrRemoteUse_result hattrs h
    cases hout
    have hok := attrs.toStat_fst uid gid
    rw [payloadRule_zero_iff]
    constructor
    · rintro ⟨attrs', uid', gid', hattrs', -, hstat⟩
      refine ⟨attrs', hattrs.symm.trans hattrs', ?_⟩
      rw [← attrs'.toStat_fst uid' gid', hstat]
    · rintro ⟨attrs', hattrs', hsome⟩
      cases hattrs'
      refine ⟨attrs, uid, gid, hattrs, ?_, Prod.ext (hok.trans hsome) rfl⟩
      simp [hmem]

/-- The result is that of decoding the data block of the response. -/
def DecodedData (lz4 : Lz4) (response : Response) (buf : List UInt8) (out : ℤ × List UInt8) :
    Prop :=
  ∃ datablock, response.datablock = some datablock ∧
    datablock.getDataNoalloc lz4 buf buf.length = .ret out ∧ 0 ≤ out.1

theorem read_rule (lz4 : Lz4) (hnone : response.errnotype = .none) (hdel : Delivered response tr)
    {path : CString} {buf : List UInt8} {offset : ℤ} {out : ℤ × List UInt8}
    (h : (rhizofsRead lz4 path buf offset).Traces tr out) :
    PayloadRule out.1 (0 ≤ out.1) (DecodedData lz4 response buf out) ↔
      response.hasData ≠ -1 ∨ ∃ datablock, response.datablock = some datablock ∧
        datablock.getDataNoalloc lz4 buf buf.length = .ret (0, buf) := by
  obtain ⟨init, request, trf, tru, rfl, -, h⟩ :=
    traces_operation (fun _ => by exact trivial) hnone h hdel
  by_cases hdata : response.hasData = -1
  · have hout : out = (0, buf) := by
      cases hblock : response.datablock with
      | none =>
        simp only [hblock] at h
        exact h.2
      | some datablock =>
        simp only [hblock, if_pos hdata] at h
        exact h.2
    subst hout
    simp [payloadRule_zero_iff, DecodedData, hdata]
  · cases hblock : response.datablock with
    | none => exact absurd (by rw [Response.hasData, hblock]) hdata
    | some datablock =>
      simp only [hblock, if_neg hdata] at h
      obtain ⟨decoded, hdecoded⟩ := DataBlock.getDataNoalloc_eq_ret lz4 datablock buf buf.length
      rw [hdecoded] at h
      obtain ⟨-, rfl⟩ := h
      refine iff_of_true ⟨fun hpos => ⟨datablock, hblock, hdecoded, hpos⟩, fun hn => ?_⟩
        (.inl hdata)
      by_contra hpos
      exact hn ⟨datablock, hblock, hdecoded, not_lt.mp hpos⟩

theorem write_rule (lz4 : Lz4) (hnone : response.errnotype = .none) (hdel : Delivered response tr)
    {path : CString} {buf : List UInt8} {offset ret : ℤ}
    (h : (rhizofsWrite lz4 path buf offset).Traces tr ret) :
    PayloadRule ret (0 ≤ ret) (response.size.isSome) ↔ response.size.isSome := by
  obtain ⟨init, request, trf, tru, rfl, -, hu⟩ := traces_operation
    (fun _ => Prog.Calls.bind (clientMem_quiet _) fun _ => by exact trivial) hnone h hdel
  obtain ⟨_, tr, rfl, hu⟩ := hu
  cases hsize : response.size with
  | none =>
    simp only [Prog.bind, hsize] at hu
    obtain ⟨-, rfl⟩ := hu
    exact payloadRule_zero_iff
  | some size => exact iff_of_true (payloadRule_of_payload rfl) rfl

theorem readlink_rule (hnone : response.errnotype = .none) (hdel : Delivered response tr)
    {path : CString} {linkTarget linkTarget' : List UInt8} {ret : ℤ}
    (h : (rhizofsReadlink path linkTarget).Traces tr (ret, linkTarget')) :
    PayloadRule ret (ret = 0) (∃ target, response.linkTarget = some target ∧
      linkTarget' = copyTerminated target linkTarget.length) ↔ response.linkTarget.isSome := by
  obtain ⟨init, request, trf, tru, rfl, -, h⟩ :=
    traces_operation (fun _ => by exact trivial) hnone h hdel
  cases htarget : response.linkTarget with
  | none =>
    simp only [htarget] at h
    obtain ⟨-, hout⟩ := h
    cases hout
    simp [payloadRule_zero_iff]
  | some target =>
    simp only [htarget] at h
    obtain ⟨-, hout⟩ := h
    cases hout
    exact iff_of_true (payloadRule_of_payload ⟨target, rfl, rfl⟩) rfl

theorem statfs_rule (hnone : response.errnotype = .none) (hdel : Delivered response tr)
    {path : CString} {svfs svfs' : StatVfs} {ret : ℤ}
    (h : (rhizofsStatfs path svfs).Traces tr (ret, svfs')) :
    PayloadRule ret (ret = 0) (∃ statfs, response.statfs = some statfs ∧
      svfs' = statfs.toStatVfs) ↔ response.statfs.isSome := by
  obtain ⟨init, request, trf, tru, rfl, -, h⟩ :=
    traces_operation (fun _ => by exact trivial) hnone h hdel
  cases hstatfs : response.statfs with
  | none =>
    simp only [hstatfs] at h
    obtain ⟨-, hout⟩ := h
    cases hout
    simp [payloadRule_zero_iff]
  | some statfs =>
    simp only [hstatfs] at h
    obtain ⟨-, hout⟩ := h
    cases hout
    exact iff_of_true (payloadRule_of_payload ⟨statfs, rfl, rfl⟩) rfl

/-! ## Directory listings -/

/-- The filler asked to stop. -/
def FillerStopped (tr : ClientTrace) : Prop :=
  ∃ name, (⟨.filler name, true⟩ : Event ClientRet) ∈ tr

/-- The name that a call hands to the filler. -/
def handed : Event ClientRet → Option CString
  | ⟨.filler name, _⟩ => some name
  | _ => none

/-- The calls of `Rhizofs_readdir` that make it jump to `error`. -/
def Failed : Event ClientRet → Prop
  | ⟨.time, currentTime⟩ => currentTime = -1
  | ⟨.alloc _, ok⟩ => ok = false
  | ⟨.cacheSet _ _, ok⟩ => ok = false
  | _ => False

/-- No call fails before `n` names were handed over. -/
def FailsOnlyAfter : ℕ → ClientTrace → Prop
  | _, [] => True
  | n, ev :: tr =>
    (Failed ev → n = 0) ∧ FailsOnlyAfter (if (handed ev).isSome then n - 1 else n) tr

/-- Every entry of the response was handed to the filler, or the filler asked to stop. -/
def Listed (response : Response) (tr : ClientTrace) : Prop :=
  FillerStopped tr ∨
    (tr.filterMap handed).map some = response.directoryEntries.map (·.name)

/-- The filler asked to stop, or nothing went wrong before the last name was handed over: each entry
has a name, each but the last a creation time, and no call failed. -/
def NothingFailed (entries : List Attrs) (tr : ClientTrace) : Prop :=
  FillerStopped tr ∨ (∀ attrs ∈ entries, attrs.name.isSome) ∧
    (∀ attrs ∈ entries.dropLast, attrs.timestamps.creationSec.isSome) ∧
    FailsOnlyAfter entries.length tr

/-- Calls that hand over no name. -/
theorem failsOnlyAfter_append {n : ℕ} {tr tr' : ClientTrace} (h : tr.filterMap handed = []) :
    FailsOnlyAfter n (tr ++ tr') ↔
      ((∃ ev ∈ tr, Failed ev) → n = 0) ∧ FailsOnlyAfter n tr' := by
  induction tr with
  | nil => simp
  | cons ev tr ih =>
    have hev : handed ev = none := by
      by_contra hne
      obtain ⟨name, hname⟩ := Option.ne_none_iff_exists'.mp hne
      simp [hname] at h
    have htr : tr.filterMap handed = [] := by simpa [hev] using h
    simp only [List.cons_append, FailsOnlyAfter, hev, List.exists_mem_cons_iff, Option.isSome_none,
      Bool.false_eq_true, if_false]
    rw [ih htr, or_imp, and_assoc]

/-- Caching an entry hands over no name, and fails only if a call does or the creation time is
missing. -/
theorem traces_readdirCache {path name : CString} {currentTime : ℤ} {attrs : Attrs} {ok : Bool}
    (h : (readdirCache path currentTime attrs name).Traces tr ok) :
    tr.filterMap handed = [] ∧
      (ok = true → attrs.timestamps.creationSec.isSome ∧ ¬ ∃ ev ∈ tr, Failed ev) ∧
      (ok = false → attrs.timestamps.creationSec.isSome → ∃ ev ∈ tr, Failed ev) := by
  unfold readdirCache at h
  obtain ⟨got, tr, rfl, h⟩ := h
  cases got with
  | false =>
    obtain ⟨rfl, rfl⟩ := h
    simp [handed, Failed]
  | true =>
    obtain ⟨got, tr, rfl, h⟩ := h
    cases got with
    | false =>
      obtain ⟨rfl, rfl⟩ := h
      simp [handed, Failed]
    | true =>
      obtain ⟨⟨uid, gid⟩, tr, rfl, h⟩ := h
      have hsome := attrs.toStat_fst uid gid
      rcases hstat : attrs.toStat uid gid with ⟨converted, statResult⟩
      simp only [hstat] at hsome
      simp only [Prog.bind, Prog.pure_eq, hstat] at h
      cases converted with
      | false =>
        obtain ⟨rfl, rfl⟩ := h
        simp [handed, ← hsome]
      | true =>
        obtain ⟨stored, tr, rfl, rfl, rfl⟩ := h
        simp [handed, Failed, ← hsome]

/-- The loop hands over all names exactly when nothing goes wrong before the last one. -/
theorem readdirEntries_listed {path : CString} {currentTime : ℤ} {entries : List Attrs} {ok : Bool}
    (h : (readdirEntries path currentTime entries).Traces tr ok) (hstop : ¬ FillerStopped tr) :
    (tr.filterMap handed).map some = entries.map (·.name) ↔
      (∀ attrs ∈ entries, attrs.name.isSome) ∧
      (∀ attrs ∈ entries.dropLast, attrs.timestamps.creationSec.isSome) ∧
      FailsOnlyAfter entries.length tr := by
  induction entries generalizing tr with
  | nil =>
    obtain ⟨rfl, -⟩ := h
    simp [FailsOnlyAfter]
  | cons attrs entries ih =>
    unfold readdirEntries at h
    cases hname : attrs.name with
    | none =>
      simp only [hname] at h
      obtain ⟨rfl, -⟩ := h
      simp [hname]
    | some name =>
      simp only [hname] at h
      obtain ⟨stop, tr, rfl, h⟩ := h
      cases stop with
      | true => exact absurd ⟨name, List.mem_cons_self ..⟩ hstop
      | false =>
        obtain ⟨cached, trc, trr, rfl, hc, hr⟩ :=
          (Prog.traces_bind (readdirCache path currentTime attrs name) _ _ _).mp h
        obtain ⟨hhanded, hcached, hfailed⟩ := traces_readdirCache hc
        have hfilter : List.filterMap handed (⟨.filler name, false⟩ :: (trc ++ trr)) =
            name :: trr.filterMap handed := by
          simp [handed, hhanded]
        have hafter : FailsOnlyAfter (attrs :: entries).length
            (⟨.filler name, false⟩ :: (trc ++ trr)) ↔
            ((∃ ev ∈ trc, Failed ev) → entries.length = 0) ∧
              FailsOnlyAfter entries.length trr := by
          rw [← failsOnlyAfter_append hhanded]
          simp [FailsOnlyAfter, Failed, handed]
        rw [hfilter, hafter]
        cases cached with
        | false =>
          -- nothing more is handed over, which is right only if there are no more entries
          obtain ⟨rfl, -⟩ := hr
          cases entries with
          | nil => simp [hname, FailsOnlyAfter]
          | cons attrs' entries =>
            apply iff_of_false (by simp)
            rintro ⟨-, hcreated, hno, -⟩
            have hsome := hcreated attrs (by simp)
            exact absurd (hno (hfailed rfl hsome)) (by simp)
        | true =>
          obtain ⟨hsome, hnot⟩ := hcached rfl
          have hstop' : ¬ FillerStopped trr := by
            rintro ⟨name', hmem⟩
            exact hstop ⟨name', by simp [hmem]⟩
          have hih := ih hr hstop'
          have hdrop : (∀ a ∈ (attrs :: entries).dropLast, a.timestamps.creationSec.isSome) ↔
              ∀ a ∈ entries.dropLast, a.timestamps.creationSec.isSome := by
            cases entries with
            | nil => simp
            | cons attrs' entries =>
              rw [List.dropLast_cons_cons, List.forall_mem_cons]
              exact and_iff_right hsome
          rw [hdrop, List.map_cons, List.map_cons, List.forall_mem_cons, hname]
          simp only [List.cons.injEq, true_and, Option.isSome_some, hnot, false_implies]
          exact hih

theorem readdir_rule (hnone : response.errnotype = .none) (hdel : Delivered response tr)
    {path : CString} {ret : ℤ} (h : (rhizofsReaddir path).Traces tr ret) :
    PayloadRule ret (ret = 0) (Listed response tr) ↔
      NothingFailed response.directoryEntries tr := by
  obtain ⟨init, request, trf, tru, rfl, hf, hu⟩ :=
    traces_operation (fun _ => by exact trivial) hnone h hdel
  obtain ⟨rfl, -⟩ := hf
  obtain ⟨currentTime, tru, rfl, hu⟩ := hu
  simp only [Prog.bind] at hu
  have hret : ret = 0 := by
    split at hu
    · exact hu.2
    · obtain ⟨ok, _, _, -, -, -, hout⟩ :=
        (Prog.traces_bind (readdirEntries path currentTime response.directoryEntries) _ _ _).mp hu
      cases ok <;> exact hout
  subst hret
  rw [payloadRule_zero_iff]
  -- the calls before the loop hand over nothing, and only the clock can fail
  have hstopped : ∀ r, FillerStopped ([⟨.alloc .record, true⟩] ++
      ⟨.communicate request, r⟩ :: ⟨.time, currentTime⟩ :: tru) ↔ FillerStopped tru := by
    intro r
    simp [FillerStopped]
  have hhanded : ∀ r, List.filterMap handed ([⟨.alloc .record, true⟩] ++
      ⟨.communicate request, r⟩ :: ⟨.time, currentTime⟩ :: tru) = tru.filterMap handed := by
    intro r
    rfl
  have hfails : ∀ n r, FailsOnlyAfter n ([⟨.alloc .record, true⟩] ++
      ⟨.communicate request, r⟩ :: ⟨.time, currentTime⟩ :: tru) ↔
      (currentTime = -1 → n = 0) ∧ FailsOnlyAfter n tru := by
    intro n r
    simp [FailsOnlyAfter, Failed, handed]
  rw [Listed, NothingFailed, hstopped, hhanded, hfails]
  by_cases hstop : FillerStopped tru
  · simp [hstop]
  · simp only [hstop, false_or]
    split at hu
    · rename_i htime
      obtain ⟨rfl, -⟩ := hu
      cases response.directoryEntries <;> simp [htime, FailsOnlyAfter]
    · rename_i htime
      obtain ⟨ok, trl, trr, rfl, hl, hr, -⟩ :=
        (Prog.traces_bind (readdirEntries path currentTime response.directoryEntries) _ _ _).mp hu
      rw [hr, List.append_nil] at hstop ⊢
      simp only [htime, false_implies, true_and]
      exact readdirEntries_listed hl hstop

/-- **When success means the payload.** For a response with `ERRNO_NONE`, an operation reports
success only with the payload and an error otherwise exactly when the payload is there: attributes
with a creation time, a data block whose size does not read as -1, the number of bytes written, the
link target, the statistics; and for a listing when nothing failed before the last entry was handed
over. -/
theorem payload_iff (lz4 : Lz4) (response : Response) (hnone : response.errnotype = .none)
    (tr : ClientTrace) (hdel : Delivered response tr) :
    (∀ path stbuf ret stbuf', (rhizofsGetattrRemote path stbuf).Traces tr (ret, stbuf') →
      (PayloadRule ret (ret = 0) (FilledStat response tr stbuf') ↔
        ∃ attrs, response.attrs = some attrs ∧ attrs.timestamps.creationSec.isSome)) ∧
    (∀ path buf offset out, (rhizofsRead lz4 path buf offset).Traces tr out →
      (PayloadRule out.1 (0 ≤ out.1) (DecodedData lz4 response buf out) ↔
        response.hasData ≠ -1 ∨ ∃ datablock, response.datablock = some datablock ∧
          datablock.getDataNoalloc lz4 buf buf.length = .ret (0, buf))) ∧
    (∀ path buf offset ret, (rhizofsWrite lz4 path buf offset).Traces tr ret →
      (PayloadRule ret (0 ≤ ret) response.size.isSome ↔ response.size.isSome)) ∧
    (∀ path linkTarget ret linkTarget',
      (rhizofsReadlink path linkTarget).Traces tr (ret, linkTarget') →
      (PayloadRule ret (ret = 0) (∃ target, response.linkTarget = some target ∧
        linkTarget' = copyTerminated target linkTarget.length) ↔ response.linkTarget.isSome)) ∧
    (∀ path svfs ret svfs', (rhizofsStatfs path svfs).Traces tr (ret, svfs') →
      (PayloadRule ret (ret = 0) (∃ statfs, response.statfs = some statfs ∧
        svfs' = statfs.toStatVfs) ↔ response.statfs.isSome)) ∧
    ∀ path ret, (rhizofsReaddir path).Traces tr ret →
      (PayloadRule ret (ret = 0) (Listed response tr) ↔
        NothingFailed response.directoryEntries tr) :=
  ⟨fun _ _ _ _ => getattrRemote_rule hnone hdel, fun _ _ _ _ => read_rule lz4 hnone hdel,
    fun _ _ _ _ => write_rule lz4 hnone hdel, fun _ _ _ _ => readlink_rule hnone hdel,
    fun _ _ _ _ => statfs_rule hnone hdel, fun _ _ => readdir_rule hnone hdel⟩

end Ops

/-- A link target that is there is reported: the target of `/a` is `b`. -/
theorem payload_iff_readlink :
    PayloadRule 0 ((0 : ℤ) = 0) (∃ target,
      ({ Response.initial with linkTarget := some [98] } : Response).linkTarget = some target ∧
        [98, 0, 0, 0] = copyTerminated target 4) :=
  ((payload_iff Lz4.onRun { Response.initial with linkTarget := some [98] } rfl
    [⟨.alloc .record, true⟩,
      ⟨.communicate { Request.onPath .readlink [47, 97] with version := ⟨0, 2, none⟩ },
        (some { Response.initial with linkTarget := some [98] }, 0)⟩] rfl).2.2.2.1
    [47, 97] [0, 0, 0, 0] 0 [98, 0, 0, 0] ⟨true, _, rfl, ⟨_, _, rfl, rfl, rfl⟩⟩).mpr rfl

/-- A response without attributes makes `Rhizofs_getattr_remote` report success with an unfilled
buffer. -/
theorem getattrRemote_without_attrs : ∃ tr, Response.initial.errnotype = .none ∧
    Delivered Response.initial tr ∧
    (rhizofsGetattrRemote [47, 97] Stat.zero).Traces tr (0, Stat.zero) ∧
    ¬ PayloadRule 0 ((0 : ℤ) = 0) (FilledStat Response.initial tr Stat.zero) := by
  refine ⟨[⟨.alloc .record, true⟩,
    ⟨.communicate { Request.onPath .getattr [47, 97] with version := ⟨0, 2, none⟩ },
      (some Response.initial, 0)⟩], rfl, rfl, ⟨true, _, rfl, ⟨_, _, rfl, rfl, rfl⟩⟩, ?_⟩
  rw [payloadRule_zero_iff]
  rintro ⟨attrs, uid, gid, hattrs, -⟩
  cases hattrs

end Rhizofs
