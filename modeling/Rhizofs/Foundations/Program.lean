import Mathlib.Data.List.Basic
import Mathlib.Logic.Basic
import Mathlib.Tactic.Common

/-!
# Programs over external calls

A C function that is not pure talks to the outside through calls: system calls, allocations, the
network, locks. Here such a function is a tree, `Prog Ret α`: it either returns a value or makes a
call `c` and continues with the answer, of type `Ret c`. Nothing is said about the answers, so a
statement about all runs of a tree is a statement for every behaviour of the outside.

* `Prog.exec` runs a tree against a handler that computes the answers from a state.
* `Prog.Runs` runs it against a relation that allows several answers.
* `Prog.Traces` lists the calls made with the answers received, whatever these are; `Moves` says
  how the outside changes along such a list (`runs_iff_traces`). `Prog.Leads` is about an
  unfinished run.
* `Prog.wp` is the weakest precondition for calls with a precondition and allowed answers; it is
  sound for `Runs` (`wp_sound`) and is what the interleavings of several trees are verified with.
* `Prog.translate` runs a tree over one interface inside another one.
-/

namespace Extern

/-- A program with result in `α` over calls whose answers have the types `Ret`. -/
inductive Prog {Call : Type} (Ret : Call → Type) (α : Type) : Type
  | ret (a : α)
  | call (c : Call) (k : Ret c → Prog Ret α)

/-- A call together with the answer it received. -/
abbrev Event {Call : Type} (Ret : Call → Type) : Type := (c : Call) × Ret c

namespace Prog

variable {Call : Type} {Ret : Call → Type} {α β : Type}

/-- Run `p`, then continue with its result. -/
def bind : Prog Ret α → (α → Prog Ret β) → Prog Ret β
  | ret a, f => f a
  | call c k, f => call c fun r => (k r).bind f

instance : Monad (Prog Ret) where
  pure := ret
  bind := bind

/-- The program that makes one call and returns its answer. -/
def perform (c : Call) : Prog Ret (Ret c) := call c ret

@[simp] theorem pure_eq (a : α) : (pure a : Prog Ret α) = ret a := rfl

@[simp] theorem ret_bind (a : α) (f : α → Prog Ret β) : (ret a : Prog Ret α) >>= f = f a := rfl

@[simp] theorem call_bind (c : Call) (k : Ret c → Prog Ret α) (f : α → Prog Ret β) :
    call c k >>= f = call c fun r => k r >>= f := rfl

@[simp] theorem perform_bind (c : Call) (f : Ret c → Prog Ret β) :
    perform c >>= f = call c f := rfl

@[simp] theorem bind_ret (p : Prog Ret α) : p >>= ret = p := by
  induction p with
  | ret a => rfl
  | call c k ih => exact congrArg (call c) (funext ih)

theorem bind_assoc {γ : Type} (p : Prog Ret α) (f : α → Prog Ret β) (g : β → Prog Ret γ) :
    p >>= f >>= g = p >>= fun a => f a >>= g := by
  induction p with
  | ret a => rfl
  | call c k ih => exact congrArg (call c) (funext ih)

/-! ## Running against a handler -/

section Exec

variable {W : Type} (h : (c : Call) → W → Ret c × W)

/-- The result of `p` and the final state, the handler `h` answering the calls. -/
def exec : Prog Ret α → W → α × W
  | ret a, w => (a, w)
  | call c k, w => (k (h c w).1).exec (h c w).2

@[simp] theorem exec_ret (a : α) (w : W) : (ret a : Prog Ret α).exec h w = (a, w) := rfl

@[simp] theorem exec_call (c : Call) (k : Ret c → Prog Ret α) (w : W) :
    (call c k).exec h w = (k (h c w).1).exec h (h c w).2 := rfl

@[simp] theorem exec_bind (p : Prog Ret α) (f : α → Prog Ret β) (w : W) :
    (p >>= f).exec h w = (f (p.exec h w).1).exec h (p.exec h w).2 := by
  induction p generalizing w with
  | ret a => rfl
  | call c k ih => exact ih _ _

end Exec

/-! ## Running against a relation -/

section Runs

variable {W : Type} (step : (c : Call) → W → Ret c → W → Prop)

/-- `p` can return `a` and take the state from `w` to `w'`, each call being answered as `step`
allows. -/
def Runs : Prog Ret α → W → α → W → Prop
  | ret a, w, b, w' => b = a ∧ w' = w
  | call c k, w, b, w' => ∃ r w₁, step c w r w₁ ∧ (k r).Runs w₁ b w'

@[simp] theorem runs_ret (a b : α) (w w' : W) :
    (ret a : Prog Ret α).Runs step w b w' ↔ b = a ∧ w' = w := Iff.rfl

@[simp] theorem runs_call (c : Call) (k : Ret c → Prog Ret α) (w w' : W) (b : α) :
    (call c k).Runs step w b w' ↔ ∃ r w₁, step c w r w₁ ∧ (k r).Runs step w₁ b w' := Iff.rfl

theorem runs_bind (p : Prog Ret α) (f : α → Prog Ret β) (w w' : W) (b : β) :
    (p >>= f).Runs step w b w' ↔ ∃ a w₁, p.Runs step w a w₁ ∧ (f a).Runs step w₁ b w' := by
  induction p generalizing w with
  | ret a => simp
  | call c k ih =>
    simp only [call_bind, runs_call, ih]
    constructor
    · rintro ⟨r, w₁, hs, a, w₂, hk, hf⟩
      exact ⟨a, w₂, ⟨r, w₁, hs, hk⟩, hf⟩
    · rintro ⟨a, w₂, ⟨r, w₁, hs, hk⟩, hf⟩
      exact ⟨r, w₁, hs, a, w₂, hk, hf⟩

theorem Runs.mono {step step' : (c : Call) → W → Ret c → W → Prop}
    (hstep : ∀ c w r w', step c w r w' → step' c w r w') {p : Prog Ret α} {w w' : W} {a : α}
    (h : p.Runs step w a w') : p.Runs step' w a w' := by
  induction p generalizing w with
  | ret a => exact h
  | call c k ih =>
    obtain ⟨r, w₁, hs, hk⟩ := h
    exact ⟨r, w₁, hstep c w r w₁ hs, ih r hk⟩

/-- What a handler computes is a run, if the relation allows its answers. -/
theorem runs_exec (h : (c : Call) → W → Ret c × W) {step : (c : Call) → W → Ret c → W → Prop}
    (hstep : ∀ c w, step c w (h c w).1 (h c w).2) (p : Prog Ret α) (w : W) :
    p.Runs step w (p.exec h w).1 (p.exec h w).2 := by
  induction p generalizing w with
  | ret a => exact ⟨rfl, rfl⟩
  | call c k ih => exact ⟨_, _, hstep c w, ih _ _⟩

end Runs

/-! ## Traces -/

/-- `p` can make the calls of `tr`, receive the answers there, and return `a`. -/
def Traces : Prog Ret α → List (Event Ret) → α → Prop
  | ret a, tr, b => tr = [] ∧ b = a
  | call c k, tr, b => ∃ r tr', tr = ⟨c, r⟩ :: tr' ∧ (k r).Traces tr' b

@[simp] theorem traces_ret (a b : α) (tr : List (Event Ret)) :
    (ret a : Prog Ret α).Traces tr b ↔ tr = [] ∧ b = a := Iff.rfl

@[simp] theorem traces_call (c : Call) (k : Ret c → Prog Ret α) (tr : List (Event Ret)) (b : α) :
    (call c k).Traces tr b ↔ ∃ r tr', tr = ⟨c, r⟩ :: tr' ∧ (k r).Traces tr' b := Iff.rfl

theorem traces_bind (p : Prog Ret α) (f : α → Prog Ret β) (tr : List (Event Ret)) (b : β) :
    (p >>= f).Traces tr b ↔
      ∃ a tr₁ tr₂, tr = tr₁ ++ tr₂ ∧ p.Traces tr₁ a ∧ (f a).Traces tr₂ b := by
  induction p generalizing tr with
  | ret a => simp
  | call c k ih =>
    simp only [call_bind, traces_call, ih]
    constructor
    · rintro ⟨r, _, rfl, a, tr₁, tr₂, rfl, hk, hf⟩
      exact ⟨a, ⟨c, r⟩ :: tr₁, tr₂, rfl, ⟨r, tr₁, rfl, hk⟩, hf⟩
    · rintro ⟨a, _, tr₂, rfl, ⟨r, tr₁, rfl, hk⟩, hf⟩
      exact ⟨r, tr₁ ++ tr₂, rfl, a, tr₁, tr₂, rfl, hk, hf⟩

/-- What is left of `p` after the calls of `tr`, with the answers there, is `q`. -/
def Leads : Prog Ret α → List (Event Ret) → Prog Ret α → Prop
  | p, [], q => q = p
  | p, ev :: tr, q => ∃ k, p = call ev.1 k ∧ (k ev.2).Leads tr q

theorem Leads.call {p : Prog Ret α} {tr : List (Event Ret)} {c : Call} {k : Ret c → Prog Ret α}
    (h : p.Leads tr (call c k)) (r : Ret c) : p.Leads (tr ++ [⟨c, r⟩]) (k r) := by
  induction tr generalizing p with
  | nil =>
    obtain rfl := h
    exact ⟨k, rfl, rfl⟩
  | cons ev tr ih =>
    obtain ⟨k', rfl, hk'⟩ := h
    exact ⟨k', rfl, ih hk'⟩

/-- When nothing but the result is left, the calls were those of a whole run. -/
theorem Leads.traces {p : Prog Ret α} {tr : List (Event Ret)} {a : α} (h : p.Leads tr (ret a)) :
    p.Traces tr a := by
  induction tr generalizing p with
  | nil =>
    obtain rfl := h
    exact ⟨rfl, rfl⟩
  | cons ev tr ih =>
    obtain ⟨k, rfl, hk⟩ := h
    exact ⟨ev.2, tr, rfl, ih hk⟩

end Prog

/-! ## The outside along a trace -/

section Moves

variable {Call : Type} {Ret : Call → Type} {α W : Type}
  (step : (c : Call) → W → Ret c → W → Prop)

/-- The outside can go from `w` to `w'` by the events of a trace. -/
def Moves : List (Event Ret) → W → W → Prop
  | [], w, w' => w' = w
  | ev :: tr, w, w' => ∃ w₁, step ev.1 w ev.2 w₁ ∧ Moves tr w₁ w'

variable {step}

theorem moves_append {tr₁ tr₂ : List (Event Ret)} {w w' : W} :
    Moves step (tr₁ ++ tr₂) w w' ↔ ∃ w₁, Moves step tr₁ w w₁ ∧ Moves step tr₂ w₁ w' := by
  induction tr₁ generalizing w with
  | nil => simp [Moves]
  | cons ev tr₁ ih =>
    simp only [List.cons_append, Moves, ih]
    constructor
    · rintro ⟨w₁, hstep, w₂, h₁, h₂⟩
      exact ⟨w₂, ⟨w₁, hstep, h₁⟩, h₂⟩
    · rintro ⟨w₂, ⟨w₁, hstep, h₁⟩, h₂⟩
      exact ⟨w₁, hstep, w₂, h₁, h₂⟩

/-- What each event of a trace leaves as it is, the whole trace does. -/
theorem Moves.keep {T : Type} (view : W → T) {tr : List (Event Ret)} {w w' : W}
    (hstep : ∀ ev ∈ tr, ∀ w w', step ev.1 w ev.2 w' → view w' = view w)
    (h : Moves step tr w w') : view w' = view w := by
  induction tr generalizing w with
  | nil => exact congrArg view h
  | cons ev tr ih =>
    obtain ⟨w₁, hw, h⟩ := h
    obtain ⟨hhead, htail⟩ := List.forall_mem_cons.mp hstep
    exact (ih htail h).trans (hhead _ _ hw)

/-- A run is a trace of the program along which the outside moves. -/
theorem Prog.runs_iff_traces {p : Prog Ret α} {w w' : W} {a : α} :
    p.Runs step w a w' ↔ ∃ tr, p.Traces tr a ∧ Moves step tr w w' := by
  induction p generalizing w with
  | ret b =>
    constructor
    · rintro ⟨rfl, rfl⟩
      exact ⟨[], ⟨rfl, rfl⟩, rfl⟩
    · rintro ⟨tr, ⟨rfl, rfl⟩, rfl⟩
      exact ⟨rfl, rfl⟩
  | call c k ih =>
    constructor
    · rintro ⟨r, w₁, hstep, hk⟩
      obtain ⟨tr, htr, hmoves⟩ := (ih r).mp hk
      exact ⟨⟨c, r⟩ :: tr, ⟨r, tr, rfl, htr⟩, w₁, hstep, hmoves⟩
    · rintro ⟨_, ⟨r, tr, rfl, htr⟩, w₁, hstep, hmoves⟩
      exact ⟨r, w₁, hstep, (ih r).mpr ⟨tr, htr, hmoves⟩⟩

/-- Any trace is a run when nothing is said about the outside. -/
theorem Prog.Traces.runs {p : Prog Ret α} {tr : List (Event Ret)} {a : α} (h : p.Traces tr a) :
    p.Runs (fun _ _ _ _ => True) () a () := by
  induction p generalizing tr with
  | ret b => exact ⟨h.2, rfl⟩
  | call c k ih =>
    obtain ⟨r, tr', -, hk⟩ := h
    exact ⟨r, (), trivial, ih r hk⟩

end Moves

/-! ## Weakest preconditions -/

/-- What a caller may assume of the calls of an interface, on a state type `L`: when `pre c` holds
the call `c` may be made, and it answers `r` and moves the state as `step` allows. -/
structure Spec {Call : Type} (Ret : Call → Type) (L : Type) where
  pre : Call → L → Prop
  step : (c : Call) → L → Ret c → L → Prop

namespace Prog

variable {Call : Type} {Ret : Call → Type} {α β : Type} {L : Type}

/-- From the state `l`, every call of `p` meets its precondition and every result meets `Q`. -/
def wp (S : Spec Ret L) (Q : α → L → Prop) : Prog Ret α → L → Prop
  | ret a, l => Q a l
  | call c k, l => S.pre c l ∧ ∀ r l', S.step c l r l' → (k r).wp S Q l'

section Wp

variable (S : Spec Ret L)

@[simp] theorem wp_ret (Q : α → L → Prop) (a : α) (l : L) :
    (ret a : Prog Ret α).wp S Q l ↔ Q a l := Iff.rfl

@[simp] theorem wp_call (Q : α → L → Prop) (c : Call) (k : Ret c → Prog Ret α) (l : L) :
    (call c k).wp S Q l ↔ S.pre c l ∧ ∀ r l', S.step c l r l' → (k r).wp S Q l' := Iff.rfl

@[simp] theorem wp_bind (Q : β → L → Prop) (p : Prog Ret α) (f : α → Prog Ret β) (l : L) :
    (p >>= f).wp S Q l ↔ p.wp S (fun a => (f a).wp S Q) l := by
  induction p generalizing l with
  | ret a => exact Iff.rfl
  | call c k ih =>
    simp only [call_bind, wp_call]
    exact and_congr_right fun _ => forall₃_congr fun r l' _ => ih r l'

theorem wp_mono {Q Q' : α → L → Prop} (hQ : ∀ a l, Q a l → Q' a l) {p : Prog Ret α} {l : L}
    (h : p.wp S Q l) : p.wp S Q' l := by
  induction p generalizing l with
  | ret a => exact hQ a l h
  | call c k ih => exact ⟨h.1, fun r l' hs => ih r (h.2 r l' hs)⟩

/-- The rule for sequencing. -/
theorem wp_seq {Q : β → L → Prop} {R : α → L → Prop} {p : Prog Ret α} {f : α → Prog Ret β} {l : L}
    (hp : p.wp S R l) (hf : ∀ a l, R a l → (f a).wp S Q l) : (p >>= f).wp S Q l :=
  (wp_bind S Q p f l).mpr (wp_mono S hf hp)

/-- **Weakest preconditions are sound**: a run from a state that meets the precondition ends in
the postcondition. -/
theorem wp_sound {Q : α → L → Prop} {p : Prog Ret α} {l l' : L} {a : α} (h : p.wp S Q l)
    (hr : p.Runs S.step l a l') : Q a l' := by
  induction p generalizing l with
  | ret a =>
    obtain ⟨rfl, rfl⟩ := hr
    exact h
  | call c k ih =>
    obtain ⟨r, l₁, hs, hk⟩ := hr
    exact ih r (h.2 r l₁ hs) hk

end Wp

/-! ## Preconditions along a trace -/

/-- A trace whose answers a specification allows, when it moves the state as `next` does, meets the
preconditions of all its calls and the postcondition. -/
theorem wp_foldl {S : Spec Ret L} {Q : α → L → Prop} (next : L → Event Ret → L) {p : Prog Ret α}
    {l : L} {tr : List (Event Ret)} {a : α} (h : p.wp S Q l) (ht : p.Traces tr a)
    (hstep : ∀ ev ∈ tr, ∀ l, S.step ev.1 l ev.2 (next l ev)) :
    Q a (tr.foldl next l) ∧
      ∀ tr₁ ev tr₂, tr = tr₁ ++ ev :: tr₂ → S.pre ev.1 (tr₁.foldl next l) := by
  induction p generalizing l tr with
  | ret b =>
    obtain ⟨rfl, rfl⟩ := ht
    exact ⟨h, by simp⟩
  | call c k ih =>
    obtain ⟨r, tr', rfl, ht⟩ := ht
    obtain ⟨hhead, htail⟩ := List.forall_mem_cons.mp hstep
    obtain ⟨hQ, hpre⟩ := ih r (h.2 r _ (hhead l)) ht htail
    refine ⟨hQ, fun tr₁ ev tr₂ heq => ?_⟩
    cases tr₁ with
    | nil =>
      obtain ⟨rfl, rfl⟩ := List.cons.inj heq
      exact h.1
    | cons ev₁ tr₁ =>
      obtain ⟨rfl, rfl⟩ := List.cons.inj heq
      exact hpre tr₁ ev tr₂ rfl

/-- The interface whose state is the list of the events so far, and whose calls may be made when
`pre` holds of that list. -/
def traceSpec (pre : Call → List (Event Ret) → Prop) : Spec Ret (List (Event Ret)) where
  pre := pre
  step c l r l' := l' = l ++ [⟨c, r⟩]

section TraceSpec

variable {pre : Call → List (Event Ret) → Prop}

theorem wp_traceSpec_call {Q : α → List (Event Ret) → Prop} {c : Call} {k : Ret c → Prog Ret α}
    {l : List (Event Ret)} :
    (call c k).wp (traceSpec pre) Q l ↔
      pre c l ∧ ∀ r, (k r).wp (traceSpec pre) Q (l ++ [⟨c, r⟩]) := by
  simp [traceSpec]

end TraceSpec

/-! ## Observations of a run -/

section Observing

variable {γ : Type} (ok : (c : Call) → Ret c → Prop) (obs : Event Ret → Option γ)

/-- The interface whose calls answer as `ok` allows, and whose state is the list of what was
observed of the events so far. -/
def observing : Spec Ret (List γ) where
  pre _ _ := True
  step c l r l' := ok c r ∧ l' = l ++ (obs ⟨c, r⟩).toList

variable {ok obs}

theorem wp_observing_call {Q : α → List γ → Prop} {c : Call} {k : Ret c → Prog Ret α} {l : List γ}
    (h : ∀ r, ok c r → (k r).wp (observing ok obs) Q (l ++ (obs ⟨c, r⟩).toList)) :
    (call c k).wp (observing ok obs) Q l := by
  refine ⟨trivial, ?_⟩
  rintro r _ ⟨hr, rfl⟩
  exact h r hr

theorem wp_observing_bind {Q : α → List γ → Prop} {c : Call} {f : Ret c → Prog Ret α} {l : List γ}
    (h : ∀ r, ok c r → (f r).wp (observing ok obs) Q (l ++ (obs ⟨c, r⟩).toList)) :
    (perform c >>= f).wp (observing ok obs) Q l := wp_observing_call h

/-- A call of which nothing is observed. -/
theorem wp_unobserved_bind {Q : α → List γ → Prop} {c : Call} {f : Ret c → Prog Ret α} {l : List γ}
    (hobs : ∀ r, obs ⟨c, r⟩ = none) (h : ∀ r, ok c r → (f r).wp (observing ok obs) Q l) :
    (perform c >>= f).wp (observing ok obs) Q l := by
  refine wp_observing_bind fun r hr => ?_
  rw [hobs r, Option.toList_none, List.append_nil]
  exact h r hr

/-- A run whose answers are allowed ends in the postcondition, for what was observed of it. -/
theorem wp_observing_traces {Q : α → List γ → Prop} {p : Prog Ret α}
    (h : p.wp (observing ok obs) Q []) {tr : List (Event Ret)} {a : α} (ht : p.Traces tr a)
    (hok : ∀ ev ∈ tr, ok ev.1 ev.2) : Q a (tr.filterMap obs) := by
  have hQ := (wp_foldl (fun l ev => l ++ (obs ev).toList) h ht fun ev hev _ => ⟨hok ev hev, rfl⟩).1
  rwa [List.foldl_append_eq_append, ← List.flatMap_def, List.nil_append,
    ← List.filterMap_eq_flatMap_toList] at hQ

end Observing

/-- All calls that `p` can make are in `C`. -/
def Calls (C : Call → Prop) : Prog Ret α → Prop
  | ret _ => True
  | call c k => C c ∧ ∀ r, (k r).Calls C

theorem Calls.bind {C : Call → Prop} {p : Prog Ret α} {f : α → Prog Ret β} (hp : p.Calls C)
    (hf : ∀ a, (f a).Calls C) : (p >>= f).Calls C := by
  induction p with
  | ret a => exact hf a
  | call c k ih => exact ⟨hp.1, fun r => ih r (hp.2 r)⟩

theorem Calls.mono {C C' : Call → Prop} {p : Prog Ret α} (hC : ∀ c, C c → C' c) (hp : p.Calls C) :
    p.Calls C' := by
  induction p with
  | ret a => trivial
  | call c k ih => exact ⟨hC c hp.1, fun r => ih r (hp.2 r)⟩

theorem Calls.of_traces {C : Call → Prop} {p : Prog Ret α} {tr : List (Event Ret)} {a : α}
    (hp : p.Calls C) (ht : p.Traces tr a) : ∀ ev ∈ tr, C ev.1 := by
  induction p generalizing tr with
  | ret a =>
    obtain ⟨rfl, -⟩ := ht
    simp
  | call c k ih =>
    obtain ⟨r, tr', rfl, ht⟩ := ht
    exact List.forall_mem_cons.mpr ⟨hp.1, ih r (hp.2 r) ht⟩

/-- Calls without a precondition are always allowed. -/
theorem Calls.wp {C : Call → Prop} {pre : Call → List (Event Ret) → Prop}
    {Q : α → List (Event Ret) → Prop} {p : Prog Ret α} {l : List (Event Ret)} (hp : p.Calls C)
    (hC : ∀ c l, C c → pre c l) (hQ : ∀ a tr, Q a (l ++ tr)) : p.wp (traceSpec pre) Q l := by
  induction p generalizing l with
  | ret a => simpa using hQ a []
  | call c k ih =>
    refine wp_traceSpec_call.mpr ⟨hC c l hp.1, fun r => ih r (hp.2 r) fun a tr => ?_⟩
    simpa using hQ a (⟨c, r⟩ :: tr)

/-- Calls that are always allowed, and keep what the postcondition says. -/
theorem Calls.wp_keep {C : Call → Prop} {S : Spec Ret L} {I : L → Prop} {Q : α → L → Prop}
    {p : Prog Ret α} {l : L} (hp : p.Calls C) (hC : ∀ c l, C c → I l → S.pre c l)
    (hstep : ∀ c l r l', C c → I l → S.step c l r l' → I l') (hQ : ∀ a l, I l → Q a l) (hl : I l) :
    p.wp S Q l := by
  induction p generalizing l with
  | ret a => exact hQ a l hl
  | call c k ih =>
    exact ⟨hC c l hp.1 hl, fun r l' hs => ih r (hp.2 r) (hstep c l r l' hp.1 hl hs)⟩

/-- Calls of which nothing is observed. -/
theorem Calls.wp_observing {γ : Type} {ok : (c : Call) → Ret c → Prop}
    {obs : Event Ret → Option γ} {C : Call → Prop} {Q : α → List γ → Prop} {p : Prog Ret α}
    {l : List γ} (hp : p.Calls C) (hC : ∀ c, C c → ∀ r, obs ⟨c, r⟩ = none) (hQ : ∀ a, Q a l) :
    p.wp (observing ok obs) Q l := by
  refine hp.wp_keep (I := (· = l)) (fun _ _ _ _ => trivial) ?_ ?_ rfl
  · rintro c _ r _ hc rfl ⟨-, rfl⟩
    rw [hC c hc r, Option.toList_none, List.append_nil]
  · rintro a _ rfl
    exact hQ a

/-- A first part of which nothing is observed. -/
theorem Calls.wp_observing_bind {γ : Type} {ok : (c : Call) → Ret c → Prop}
    {obs : Event Ret → Option γ} {C : Call → Prop} {Q : β → List γ → Prop} {p : Prog Ret α}
    {f : α → Prog Ret β} {l : List γ} (hp : p.Calls C) (hC : ∀ c, C c → ∀ r, obs ⟨c, r⟩ = none)
    (hf : ∀ a, (f a).wp (observing ok obs) Q l) : (p >>= f).wp (observing ok obs) Q l :=
  (wp_bind _ Q p f l).mpr (hp.wp_observing hC hf)

/-- All results that `p` can have are in `P`. -/
def Returns (P : α → Prop) : Prog Ret α → Prop
  | ret a => P a
  | call _ k => ∀ r, (k r).Returns P

/-- The rule for sequencing. -/
theorem Returns.bind {P : α → Prop} {Q : β → Prop} {p : Prog Ret α} {f : α → Prog Ret β}
    (hp : p.Returns P) (hf : ∀ a, P a → (f a).Returns Q) : (p >>= f).Returns Q := by
  induction p with
  | ret a => exact hf a hp
  | call c k ih => exact fun r => ih r (hp r)

/-- Nothing is needed of a first part whose result does not matter. -/
theorem Returns.then {Q : β → Prop} (p : Prog Ret α) {f : α → Prog Ret β}
    (hf : ∀ a, (f a).Returns Q) : (p >>= f).Returns Q := by
  induction p with
  | ret a => exact hf a
  | call c k ih => exact ih

theorem Returns.of_traces {P : α → Prop} {p : Prog Ret α} {tr : List (Event Ret)} {a : α}
    (hp : p.Returns P) (ht : p.Traces tr a) : P a := by
  induction p generalizing tr with
  | ret b =>
    obtain ⟨-, rfl⟩ := ht
    exact hp
  | call c k ih =>
    obtain ⟨r, tr', -, ht⟩ := ht
    exact ih r (hp r) ht

theorem Returns.mono {P P' : α → Prop} (hP : ∀ a, P a → P' a) {p : Prog Ret α}
    (hp : p.Returns P) : p.Returns P' := by
  induction p with
  | ret a => exact hP a hp
  | call c k ih => exact fun r => ih r (hp r)

/-- Calls that keep what is known of the state, in a program with known results. -/
theorem Calls.wp_returns {C : Call → Prop} {S : Spec Ret L} {I : L → Prop} {P : α → Prop}
    {p : Prog Ret α} {l : L} (hp : p.Calls C) (hr : p.Returns P)
    (hC : ∀ c l, C c → I l → S.pre c l)
    (hstep : ∀ c l r l', C c → I l → S.step c l r l' → I l') (hl : I l) :
    p.wp S (fun a l' => P a ∧ I l') l := by
  induction p generalizing l with
  | ret a => exact ⟨hr, hl⟩
  | call c k ih =>
    exact ⟨hC c l hp.1 hl, fun r l' hs => ih r (hp.2 r) (hr r) (hstep c l r l' hp.1 hl hs)⟩

/-! ## Translation between interfaces -/

section Translate

variable {Call' : Type} {Ret' : Call' → Type} (t : (c : Call) → Prog Ret' (Ret c))

/-- `p` with every call `c` replaced by the program `t c` over another interface. -/
def translate : Prog Ret α → Prog Ret' α
  | ret a => ret a
  | call c k => (t c).bind fun r => (k r).translate

@[simp] theorem translate_ret (a : α) : (ret a : Prog Ret α).translate t = ret a := rfl

@[simp] theorem translate_call (c : Call) (k : Ret c → Prog Ret α) :
    (call c k).translate t = t c >>= fun r => (k r).translate t := rfl

@[simp] theorem translate_bind (p : Prog Ret α) (f : α → Prog Ret β) :
    (p >>= f).translate t = p.translate t >>= fun a => (f a).translate t := by
  induction p with
  | ret a => rfl
  | call c k ih =>
    simp only [call_bind, translate_call, ih]
    generalize t c = q
    induction q with
    | ret r => rfl
    | call c' k' ih' => exact congrArg (call c') (funext ih')

/-- The results are those of the program translated. -/
theorem Returns.translate {P : α → Prop} {p : Prog Ret α} (hp : p.Returns P) :
    (p.translate t).Returns P := by
  induction p with
  | ret a => exact hp
  | call c k ih => exact .then (t c) fun r => ih r (hp r)

theorem Calls.translate {C : Call' → Prop} (ht : ∀ c, (t c).Calls C) (p : Prog Ret α) :
    (p.translate t).Calls C := by
  induction p with
  | ret a => trivial
  | call c k ih => exact (ht c).bind ih

theorem traces_translate_bind {p : Prog Ret α} {f : α → Prog Ret β} {tr : List (Event Ret')}
    {b : β} : ((p >>= f).translate t).Traces tr b ↔ ∃ a tr₁ tr₂, tr = tr₁ ++ tr₂ ∧
      (p.translate t).Traces tr₁ a ∧ ((f a).translate t).Traces tr₂ b := by
  rw [translate_bind, traces_bind]

/-- A proof about `p` is one about its translation, where the translation of every call meets the
specification of the call. -/
theorem wp_translate {S : Spec Ret L} {S' : Spec Ret' L} {Q : α → L → Prop} {p : Prog Ret α} {l : L}
    (ht : ∀ c l, S.pre c l → (t c).wp S' (fun r l' => S.step c l r l') l) (h : p.wp S Q l) :
    (p.translate t).wp S' Q l := by
  induction p generalizing l with
  | ret a => exact h
  | call c k ih =>
    rw [translate_call]
    exact wp_seq S' (ht c l h.1) fun r l' hs => ih r (h.2 r l' hs)

end Translate

end Prog

end Extern
