import Mathlib.Data.Set.Basic
import Mathlib.Logic.Function.Basic

/-!
# Maps whose entries expire or are evicted

The specification of a cache over arbitrary keys and values. `ExpiringMap` remembers for every key
the latest value put and not removed, and the keys that were evicted since. A content
`K → Option V` reflects it (`Reflects`) when it holds only latest values, and holds all those that
are neither expired nor evicted. The rules below say how a content may change with each operation.
-/

namespace Extern

/-- The latest values of the keys, and the keys whose latest value was evicted. -/
structure ExpiringMap (K V : Type) where
  latest : K → Option V
  dropped : Set K

namespace ExpiringMap

variable {K V : Type}

/-- Nothing was put yet. -/
def empty : ExpiringMap K V := ⟨fun _ => none, ∅⟩

/-- The keys in `keys` are evicted. -/
def drop (m : ExpiringMap K V) (keys : Set K) : ExpiringMap K V := ⟨m.latest, m.dropped ∪ keys⟩

section Update

variable [DecidableEq K]

/-- A value is put, which replaces the former one. -/
def put (m : ExpiringMap K V) (k : K) (v : V) : ExpiringMap K V :=
  ⟨Function.update m.latest k (some v), m.dropped \ {k}⟩

/-- The value of a key is removed. -/
def remove (m : ExpiringMap K V) (k : K) : ExpiringMap K V :=
  ⟨Function.update m.latest k none, m.dropped⟩

@[simp] theorem latest_put_self (m : ExpiringMap K V) (k : K) (v : V) :
    (m.put k v).latest k = some v := Function.update_self ..

@[simp] theorem latest_put_of_ne (m : ExpiringMap K V) {k k' : K} (v : V) (h : k' ≠ k) :
    (m.put k v).latest k' = m.latest k' := Function.update_of_ne h ..

@[simp] theorem latest_remove_self (m : ExpiringMap K V) (k : K) :
    (m.remove k).latest k = none := Function.update_self ..

@[simp] theorem latest_remove_of_ne (m : ExpiringMap K V) {k k' : K} (h : k' ≠ k) :
    (m.remove k).latest k' = m.latest k' := Function.update_of_ne h ..

end Update

/-- The content holds latest values only, and all that are neither expired nor evicted. -/
structure Reflects (expired : V → Prop) (content : K → Option V) (m : ExpiringMap K V) : Prop where
  sound : ∀ k v, content k = some v → m.latest k = some v
  complete : ∀ k v, m.latest k = some v → ¬ expired v → k ∉ m.dropped → content k = some v

namespace Reflects

variable {expired : V → Prop} {content content' : K → Option V} {m : ExpiringMap K V}

theorem empty : Reflects expired (fun _ => none) (.empty : ExpiringMap K V) :=
  ⟨by simp, by simp [ExpiringMap.empty]⟩

/-- As time passes more values expire. -/
theorem mono {expired' : V → Prop} (h : Reflects expired content m)
    (hexp : ∀ v, expired v → expired' v) : Reflects expired' content m :=
  ⟨h.sound, fun k v hl hv => h.complete k v hl (mt (hexp v) hv)⟩

/-- Values may be lost when they are expired or their key is evicted. -/
theorem restrict (h : Reflects expired content m) {keys : Set K}
    (hsub : ∀ k v, content' k = some v → content k = some v)
    (hlost : ∀ k v, content k = some v → ¬ expired v → k ∉ keys → content' k = some v) :
    Reflects expired content' (m.drop keys) where
  sound := fun k v hc => h.sound k v (hsub k v hc)
  complete := by
    intro k v hl hv hd
    simp only [drop, Set.mem_union, not_or] at hd
    exact hlost k v (h.complete k v hl hv hd.1) hv hd.2

/-- Expired values may be lost. -/
theorem expire (h : Reflects expired content m)
    (hsub : ∀ k v, content' k = some v → content k = some v)
    (hlost : ∀ k v, content k = some v → ¬ expired v → content' k = some v) :
    Reflects expired content' m where
  sound := fun k v hc => h.sound k v (hsub k v hc)
  complete := fun k v hl hv hd => hlost k v (h.complete k v hl hv hd) hv

variable [DecidableEq K]

theorem put (h : Reflects expired content m) {k : K} {v : V} (hk : content' k = some v)
    (hne : ∀ k', k' ≠ k → content' k' = content k') : Reflects expired content' (m.put k v) where
  sound := by
    intro k' v' hc
    by_cases he : k' = k
    · subst he
      rw [latest_put_self, ← hk, hc]
    · rw [latest_put_of_ne m v he]
      exact h.sound k' v' (by rwa [hne k' he] at hc)
  complete := by
    intro k' v' hl hv hd
    by_cases he : k' = k
    · subst he
      rw [latest_put_self] at hl
      rw [hk, hl]
    · rw [latest_put_of_ne m v he] at hl
      rw [hne k' he]
      exact h.complete k' v' hl hv fun hmem => hd ⟨hmem, he⟩

theorem remove (h : Reflects expired content m) {k : K} (hk : content' k = none)
    (hne : ∀ k', k' ≠ k → content' k' = content k') : Reflects expired content' (m.remove k) where
  sound := by
    intro k' v' hc
    by_cases he : k' = k
    · subst he
      rw [hk] at hc
      cases hc
    · rw [latest_remove_of_ne m he]
      exact h.sound k' v' (by rwa [hne k' he] at hc)
  complete := by
    intro k' v' hl hv hd
    by_cases he : k' = k
    · subst he
      rw [latest_remove_self] at hl
      cases hl
    · rw [latest_remove_of_ne m he] at hl
      rw [hne k' he]
      exact h.complete k' v' hl hv hd

end Reflects

end ExpiringMap

end Extern
