import Rhizofs.Foundations.Program
import Mathlib.Logic.Function.Basic

/-!
# Interleavings of programs

Threads that run programs (`Prog`) against one shared world, in any order: a step begins an
operation on an idle thread, makes the next call of a running one, ends an operation, or is a step
of the environment. A call is one atomic step.

The rule `Reachable.verified` reduces a fact about all interleavings to sequential reasoning. Each
thread has a private view of the world, which only its own steps change. If every call that meets
its precondition keeps a global invariant and moves the view of its thread as a `Spec` says, then a
`Prog.wp` proof of each body, made on the view alone, carries over to every interleaving.

The rule `ReachableIf.outline` is for threads without a view of their own. It attaches an assertion
to every call and asks that the calls of the other threads do not interfere with it. There a run may
be restricted by a condition on the configuration in which a call is made.
-/

namespace Extern

/-- Threads with operations in `Op`: the program of each operation, and how the world changes when
an operation starts, makes a call, and finishes. -/
structure Concurrent (Tid Op : Type) {Call : Type} (Ret : Call → Type) (α W : Type) where
  body : Op → Prog Ret α
  start : Tid → Op → W → W
  act : Tid → (c : Call) → W → Ret c → W → Prop
  finish : Tid → Op → α → W → W
  env : W → W → Prop

namespace Concurrent

variable {Tid Op Call : Type} {Ret : Call → Type} {α W : Type}

/-- The world, and for every running thread its operation and the rest of its program. -/
structure Config (Tid Op : Type) {Call : Type} (Ret : Call → Type) (α W : Type) where
  world : W
  threads : Tid → Option (Op × Prog Ret α)

variable [DecidableEq Tid]

/-- One step of an interleaving. -/
inductive Step (sys : Concurrent Tid Op Ret α W) :
    Config Tid Op Ret α W → Config Tid Op Ret α W → Prop
  | start {config : Config Tid Op Ret α W} (t : Tid) (op : Op) (idle : config.threads t = none) :
      Step sys config
        ⟨sys.start t op config.world, Function.update config.threads t (some (op, sys.body op))⟩
  | act {config : Config Tid Op Ret α W} (t : Tid) {op : Op} {c : Call} {k : Ret c → Prog Ret α}
      {r : Ret c} {w : W} (running : config.threads t = some (op, .call c k))
      (answer : sys.act t c config.world r w) :
      Step sys config ⟨w, Function.update config.threads t (some (op, k r))⟩
  | finish {config : Config Tid Op Ret α W} (t : Tid) {op : Op} {a : α}
      (running : config.threads t = some (op, .ret a)) :
      Step sys config ⟨sys.finish t op a config.world, Function.update config.threads t none⟩
  | env {config : Config Tid Op Ret α W} {w : W} (change : sys.env config.world w) :
      Step sys config ⟨w, config.threads⟩

/-- The configurations that the threads, all idle at first, can reach from the world `w`. -/
inductive Reachable (sys : Concurrent Tid Op Ret α W) (w : W) : Config Tid Op Ret α W → Prop
  | init : Reachable sys w ⟨w, fun _ => none⟩
  | step {config config' : Config Tid Op Ret α W} (reach : Reachable sys w config)
      (next : Step sys config config') : Reachable sys w config'

omit [DecidableEq Tid] in
/-- The same threads, where a call is made only when `ok` allows it in the world before it. -/
def restrict (sys : Concurrent Tid Op Ret α W) (ok : Tid → Call → W → Prop) :
    Concurrent Tid Op Ret α W :=
  { sys with act := fun t c w r w' => ok t c w ∧ sys.act t c w r w' }

/-- A restricted run is a run. -/
theorem Reachable.of_restrict {sys : Concurrent Tid Op Ret α W} {ok : Tid → Call → W → Prop} {w : W}
    {config : Config Tid Op Ret α W} (h : Reachable (sys.restrict ok) w config) :
    Reachable sys w config := by
  induction h with
  | init => exact .init
  | step _ next ih =>
    cases next with
    | start t op idle => exact ih.step (.start t op idle)
    | act t running answer => exact ih.step (.act t running answer.2)
    | finish t running => exact ih.step (.finish t running)
    | env change => exact ih.step (.env change)

/-! ## Running one thread -/

/-- From `p` in `w` a thread can reach `p'` in `w'`, the environment taking steps between the
calls. -/
inductive Advance (act : (c : Call) → W → Ret c → W → Prop) (env : W → W → Prop)
    (p' : Prog Ret α) (w' : W) : Prog Ret α → W → Prop
  | done : Advance act env p' w' p' w'
  | env {p : Prog Ret α} {w w₁ : W} (change : env w w₁) (rest : Advance act env p' w' p w₁) :
      Advance act env p' w' p w
  | act {c : Call} {k : Ret c → Prog Ret α} {w w₁ : W} (r : Ret c) (answer : act c w r w₁)
      (rest : Advance act env p' w' (k r) w₁) : Advance act env p' w' (.call c k) w

omit [DecidableEq Tid] in
theorem Advance.bind {β : Type} {act : (c : Call) → W → Ret c → W → Prop} {env : W → W → Prop}
    {p : Prog Ret β} {f : β → Prog Ret α} {b : β} {p' : Prog Ret α} {w w₁ w' : W}
    (hp : Advance act env (.ret b) w₁ p w) (hf : Advance act env p' w' (f b) w₁) :
    Advance act env p' w' (p >>= f) w := by
  induction hp with
  | done => exact hf
  | env change _ ih => exact .env change ih
  | act r answer _ ih => exact .act r answer ih

section Run

variable {sys : Concurrent Tid Op Ret α W} {w₀ : W}

theorem Reachable.advance {config : Config Tid Op Ret α W} (h : Reachable sys w₀ config) {t : Tid}
    {op : Op} {p p' : Prog Ret α} {w' : W} (hrun : config.threads t = some (op, p))
    (hadv : Advance (sys.act t) sys.env p' w' p config.world) :
    Reachable sys w₀ ⟨w', Function.update config.threads t (some (op, p'))⟩ := by
  obtain ⟨world, threads⟩ := config
  dsimp only at hrun hadv ⊢
  induction hadv generalizing threads with
  | done =>
    rwa [← hrun, Function.update_eq_self]
  | env change _ ih => exact ih threads (h.step (.env change)) hrun
  | act r answer _ ih =>
    have := ih _ (h.step (.act t hrun answer)) (Function.update_self ..)
    rwa [Function.update_idem] at this

/-- An idle thread can run an operation to its end. -/
theorem Reachable.runs {config : Config Tid Op Ret α W} (h : Reachable sys w₀ config) {t : Tid}
    (op : Op) {a : α} {w' : W} (hidle : config.threads t = none)
    (hadv : Advance (sys.act t) sys.env (.ret a) w' (sys.body op) (sys.start t op config.world)) :
    Reachable sys w₀ ⟨sys.finish t op a w', config.threads⟩ := by
  have hstart := h.step (.start t op hidle)
  have hend := hstart.advance (Function.update_self ..) hadv
  have := hend.step (.finish t (Function.update_self ..))
  rwa [Function.update_idem, Function.update_idem, ← hidle, Function.update_eq_self] at this

end Run

/-! ## Verifying all interleavings -/

/-- What is needed to verify threads one at a time: a private view for each thread, on which the
calls behave as `spec` says. -/
structure Verification (sys : Concurrent Tid Op Ret α W) (L : Type) (Inv : W → Prop)
    (view : Tid → W → L) where
  spec : Spec Ret L
  idle : L → Prop
  post : Op → α → L → Prop
  start : ∀ t op w, Inv w → idle (view t w) → Inv (sys.start t op w) ∧
    (sys.body op).wp spec (post op) (view t (sys.start t op w)) ∧
    ∀ t', t' ≠ t → view t' (sys.start t op w) = view t' w
  act : ∀ t c w r w', Inv w → spec.pre c (view t w) → sys.act t c w r w' →
    Inv w' ∧ spec.step c (view t w) r (view t w') ∧ ∀ t', t' ≠ t → view t' w' = view t' w
  finish : ∀ t op a w, Inv w → post op a (view t w) → Inv (sys.finish t op a w) ∧
    idle (view t (sys.finish t op a w)) ∧
    ∀ t', t' ≠ t → view t' (sys.finish t op a w) = view t' w
  env : ∀ w w', Inv w → sys.env w w' → Inv w' ∧ ∀ t, view t w' = view t w

/-- The invariant holds, and every thread is idle or meets the precondition of the rest of its
program. -/
structure Verified {sys : Concurrent Tid Op Ret α W} {L : Type} {Inv : W → Prop}
    {view : Tid → W → L} (V : Verification sys L Inv view) (config : Config Tid Op Ret α W) :
    Prop where
  inv : Inv config.world
  idle : ∀ t, config.threads t = none → V.idle (view t config.world)
  running : ∀ t op p, config.threads t = some (op, p) →
    p.wp V.spec (V.post op) (view t config.world)

section Verified

variable {sys : Concurrent Tid Op Ret α W} {L : Type} {Inv : W → Prop} {view : Tid → W → L}
  {V : Verification sys L Inv view} {config config' : Config Tid Op Ret α W}

/-- A step of the thread `t` that leaves the other views alone. -/
theorem Verified.update (h : Verified V config) {t : Tid} {w : W}
    {now : Option (Op × Prog Ret α)} (hinv : Inv w)
    (hother : ∀ t', t' ≠ t → view t' w = view t' config.world)
    (hidle : now = none → V.idle (view t w))
    (hrun : ∀ op p, now = some (op, p) → p.wp V.spec (V.post op) (view t w)) :
    Verified V ⟨w, Function.update config.threads t now⟩ where
  inv := hinv
  idle := by
    intro t' ht'
    by_cases he : t' = t
    · subst he
      exact hidle (by simpa using ht')
    · rw [hother t' he]
      exact h.idle t' (by simpa [he] using ht')
  running := by
    intro t' op p ht'
    by_cases he : t' = t
    · subst he
      exact hrun op p (by simpa using ht')
    · rw [hother t' he]
      exact h.running t' op p (by simpa [he] using ht')

/-- One step keeps all threads verified. -/
theorem Verified.step (h : Verified V config) (hstep : Step sys config config') :
    Verified V config' := by
  cases hstep with
  | start t op idle =>
    obtain ⟨hinv, hwp, hother⟩ := V.start t op config.world h.inv (h.idle t idle)
    refine h.update hinv hother (fun he => by cases he) fun op' p he => ?_
    cases he
    exact hwp
  | @act t op c k r w running answer =>
    obtain ⟨hpre, hnext⟩ := h.running t op _ running
    obtain ⟨hinv, hview, hother⟩ := V.act t c config.world r w h.inv hpre answer
    refine h.update hinv hother (fun he => by cases he) fun op' p he => ?_
    cases he
    exact hnext r _ hview
  | @finish t op a running =>
    obtain ⟨hinv, hidle, hother⟩ := V.finish t op a config.world h.inv (h.running t op _ running)
    exact h.update hinv hother (fun _ => hidle) fun op' p he => by cases he
  | env change =>
    obtain ⟨hinv, hview⟩ := V.env config.world _ h.inv change
    exact ⟨hinv, fun t ht => (hview t).symm ▸ h.idle t ht,
      fun t op p ht => (hview t).symm ▸ h.running t op p ht⟩

/-- **Threads are verified one at a time**: in every interleaving the invariant holds and every
thread is at a point of its program that its own proof covers. -/
theorem Reachable.verified {w₀ : W} (hinv : Inv w₀) (hidle : ∀ t, V.idle (view t w₀))
    (h : Reachable sys w₀ config) : Verified V config := by
  induction h with
  | init => exact ⟨hinv, fun t _ => hidle t, fun _ _ _ he => by cases he⟩
  | step _ next ih => exact ih.step next

end Verified

/-! ## Assertions at the calls -/

/-- `c` is the next call of the thread `t`, which runs `op`. -/
def Next (config : Config Tid Op Ret α W) (t : Tid) (op : Op) (c : Call) : Prop :=
  ∃ k, config.threads t = some (op, .call c k)

/-- The configurations that can be reached when a call is made only where `ok` allows it. -/
inductive ReachableIf (sys : Concurrent Tid Op Ret α W)
    (ok : Config Tid Op Ret α W → Tid → Call → Prop) (w : W) : Config Tid Op Ret α W → Prop
  | init : ReachableIf sys ok w ⟨w, fun _ => none⟩
  | start {config : Config Tid Op Ret α W} (reach : ReachableIf sys ok w config) (t : Tid) (op : Op)
      (idle : config.threads t = none) : ReachableIf sys ok w
        ⟨sys.start t op config.world, Function.update config.threads t (some (op, sys.body op))⟩
  | act {config : Config Tid Op Ret α W} (reach : ReachableIf sys ok w config) (t : Tid) {op : Op}
      {c : Call} {k : Ret c → Prog Ret α} {r : Ret c} {w' : W}
      (running : config.threads t = some (op, .call c k)) (allowed : ok config t c)
      (answer : sys.act t c config.world r w') :
      ReachableIf sys ok w ⟨w', Function.update config.threads t (some (op, k r))⟩
  | finish {config : Config Tid Op Ret α W} (reach : ReachableIf sys ok w config) (t : Tid)
      {op : Op}
      {a : α} (running : config.threads t = some (op, .ret a)) : ReachableIf sys ok w
        ⟨sys.finish t op a config.world, Function.update config.threads t none⟩
  | env {config : Config Tid Op Ret α W} (reach : ReachableIf sys ok w config) {w' : W}
      (change : sys.env config.world w') : ReachableIf sys ok w ⟨w', config.threads⟩

theorem ReachableIf.reachable {sys : Concurrent Tid Op Ret α W}
    {ok : Config Tid Op Ret α W → Tid → Call → Prop} {w : W} {config : Config Tid Op Ret α W}
    (h : ReachableIf sys ok w config) : Reachable sys w config := by
  induction h with
  | init => exact .init
  | start _ t op idle ih => exact ih.step (.start t op idle)
  | act _ t running _ answer ih => exact ih.step (.act t running answer)
  | finish _ t running ih => exact ih.step (.finish t running)
  | env _ change ih => exact ih.step (.env change)

/-- A proof outline: what each operation knows between its calls (`spec`, on a state `L` that is
nowhere stored), and for every call an assertion about the world that holds whenever the call is
the next one of a thread. -/
structure Outline (sys : Concurrent Tid Op Ret α W)
    (ok : Config Tid Op Ret α W → Tid → Call → Prop) (L : Type) (Inv : W → Prop)
    (assertion : Call → W → Prop) where
  spec : Op → Spec Ret L
  first : L
  body : ∀ op, (sys.body op).wp (spec op) (fun _ _ => True) first
  start : ∀ t op w, sys.start t op w = w
  enter : ∀ op c w, Inv w → (spec op).pre c first → assertion c w
  own : ∀ config t op c l r w', Inv config.world → Next config t op c → (spec op).pre c l →
    assertion c config.world → ok config t c → sys.act t c config.world r w' →
    Inv w' ∧ ∃ l', (spec op).step c l r l' ∧ ∀ c', (spec op).pre c' l' → assertion c' w'
  interference : ∀ config t op c r w' t' op' c', Inv config.world → Next config t op c →
    assertion c config.world → ok config t c → sys.act t c config.world r w' → t' ≠ t →
    Next config t' op' c' → assertion c' config.world → assertion c' w'
  finish : ∀ t op a w, sys.finish t op a w = w
  env : ∀ w w', Inv w → sys.env w w' → Inv w' ∧ ∀ c, assertion c w → assertion c w'

/-- The invariant holds, and every thread is at a point of its outline whose assertion holds. -/
structure Outlined {sys : Concurrent Tid Op Ret α W}
    {ok : Config Tid Op Ret α W → Tid → Call → Prop} {L : Type} {Inv : W → Prop}
    {assertion : Call → W → Prop} (O : Outline sys ok L Inv assertion)
    (config : Config Tid Op Ret α W) : Prop where
  inv : Inv config.world
  point : ∀ t op p, config.threads t = some (op, p) →
    ∃ l, p.wp (O.spec op) (fun _ _ => True) l
  asserted : ∀ t op c, Next config t op c → assertion c config.world

section Outlined

variable {sys : Concurrent Tid Op Ret α W} {ok : Config Tid Op Ret α W → Tid → Call → Prop}
  {L : Type} {Inv : W → Prop} {assertion : Call → W → Prop} {O : Outline sys ok L Inv assertion}
  {config : Config Tid Op Ret α W}

/-- The thread `t` has moved on, to the end of its operation or to a point of its outline. -/
theorem Outlined.update (h : Outlined O config) {t : Tid} {w : W} {now : Option (Op × Prog Ret α)}
    (hinv : Inv w)
    (hother : ∀ t' op c, t' ≠ t → Next config t' op c → assertion c w)
    (hpoint : ∀ op p, now = some (op, p) → ∃ l, p.wp (O.spec op) (fun _ _ => True) l ∧
      ∀ c, (O.spec op).pre c l → assertion c w) :
    Outlined O ⟨w, Function.update config.threads t now⟩ where
  inv := hinv
  point := by
    intro t' op p ht'
    by_cases he : t' = t
    · subst he
      obtain ⟨l, hwp, -⟩ := hpoint op p (by simpa using ht')
      exact ⟨l, hwp⟩
    · exact h.point t' op p (by simpa [he] using ht')
  asserted := by
    rintro t' op c ⟨k, ht'⟩
    by_cases he : t' = t
    · subst he
      obtain ⟨l, hwp, hpre⟩ := hpoint op _ (by simpa using ht')
      exact hpre c hwp.1
    · exact hother t' op c he ⟨k, by simpa [he] using ht'⟩

/-- **Proof outlines are sound**: in a restricted run the invariant holds, and so does the assertion
of every call that is the next one of a thread. -/
theorem ReachableIf.outline {w₀ : W} (O : Outline sys ok L Inv assertion) (hinv : Inv w₀)
    (h : ReachableIf sys ok w₀ config) : Outlined O config := by
  induction h with
  | init => exact ⟨hinv, fun _ _ _ he => (by cases he), fun _ _ _ ⟨_, he⟩ => by cases he⟩
  | @start config _ t op idle ih =>
    rw [O.start]
    refine ih.update ih.inv (fun t' op' c _ hnext => ih.asserted t' op' c hnext) fun op' p he => ?_
    cases he
    exact ⟨O.first, O.body op, fun c hpre => O.enter op c _ ih.inv hpre⟩
  | @act config _ t op c k r w' running allowed answer ih =>
    have hnext : Next config t op c := ⟨k, running⟩
    have hasserted := ih.asserted t op c hnext
    obtain ⟨l, hpre, hwp⟩ := ih.point t op _ running
    obtain ⟨hinv', l', hstep, hl'⟩ :=
      O.own config t op c l r w' ih.inv hnext hpre hasserted allowed answer
    refine ih.update hinv' (fun t' op' c' hne hnext' => ?_) fun op' p he => ?_
    · exact O.interference config t op c r w' t' op' c' ih.inv hnext hasserted allowed answer hne
        hnext' (ih.asserted t' op' c' hnext')
    · cases he
      exact ⟨l', hwp r l' hstep, hl'⟩
  | @finish config _ t op a running ih =>
    rw [O.finish]
    exact ih.update ih.inv (fun t' op' c _ hnext => ih.asserted t' op' c hnext)
      fun op' p he => by cases he
  | @env config _ w' change ih =>
    obtain ⟨hinv', hkept⟩ := O.env _ _ ih.inv change
    exact ⟨hinv', ih.point, fun t op c hnext => hkept c (ih.asserted t op c hnext)⟩

end Outlined

end Concurrent

end Extern
