import Mathlib.Logic.Function.Basic
import Mathlib.Algebra.Notation.Defs

/-! Resources that places point to, with one mark a resource. A place that holds 0
points to nothing. The marks and the pointers agree when every resource has at
most one pointer and is marked exactly if it has one. -/

namespace Xv6.Pointers

open Function

variable {P R : Type*} [Zero R]

/-- `pool` holds the resources that may be handed out. -/
structure Exclusive (pool : R → Prop) (mark : R → Bool) (own : P → R) : Prop where
  null : ¬ pool 0
  range : ∀ p, own p ≠ 0 → pool (own p)
  once : ∀ p q, own p ≠ 0 → own p = own q → p = q
  marks : ∀ r, pool r → (mark r = true ↔ ∃ p, own p = r)

variable {pool : R → Prop} {mark : R → Bool} {own : P → R} {p : P} {r : R}

lemma Exclusive.marked (h : Exclusive pool mark own) (used : own p ≠ 0) : mark (own p) = true :=
  (h.marks _ (h.range p used)).mpr ⟨p, rfl⟩

lemma Exclusive.ne_of_clear (h : Exclusive pool mark own) (fresh : pool r)
    (clear : mark r = false) (p) : own p ≠ r := by
  intro eq
  have set := (h.marks r fresh).mpr ⟨p, eq⟩
  rw [clear] at set
  cases set

section
variable [DecidableEq P] [DecidableEq R]

lemma Exclusive.put (h : Exclusive pool mark own) (fresh : pool r) (clear : mark r = false) (empty : own p = 0) :
    Exclusive pool (update mark r true) (update own p r) where
  null := h.null
  range q used := by
    by_cases hq : q = p
    · rw [hq, update_self]
      exact fresh
    · rw [update_of_ne hq] at used ⊢
      exact h.range q used
  once q q' used same := by
    have other := h.ne_of_clear fresh clear
    by_cases hq : q = p <;> by_cases hq' : q' = p
    · rw [hq, hq']
    · rw [hq, update_self, update_of_ne hq'] at same
      exact absurd same.symm (other q')
    · rw [hq', update_self, update_of_ne hq] at same
      exact absurd same (other q)
    · rw [update_of_ne hq] at used
      rw [update_of_ne hq, update_of_ne hq'] at same
      exact h.once q q' used same
  marks x inPool := by
    by_cases hx : x = r
    · rw [hx, update_self]
      exact ⟨fun _ => ⟨p, update_self ..⟩, fun _ => rfl⟩
    · rw [update_of_ne hx, h.marks x inPool]
      constructor
      · rintro ⟨q, eq⟩
        have hq : q ≠ p := by
          rintro rfl
          exact h.null (empty.symm.trans eq ▸ inPool)
        exact ⟨q, by rw [update_of_ne hq, eq]⟩
      · rintro ⟨q, eq⟩
        have hq : q ≠ p := by
          rintro rfl
          rw [update_self] at eq
          exact hx eq.symm
        exact ⟨q, by rwa [update_of_ne hq] at eq⟩

lemma Exclusive.clear (h : Exclusive pool mark own) (used : own p ≠ 0) :
    Exclusive pool (update mark (own p) false) (update own p 0) where
  null := h.null
  range q used' := by
    by_cases hq : q = p
    · rw [hq, update_self] at used'
      exact absurd rfl used'
    · rw [update_of_ne hq] at used' ⊢
      exact h.range q used'
  once q q' used' same := by
    by_cases hq : q = p
    · rw [hq, update_self] at used'
      exact absurd rfl used'
    · rw [update_of_ne hq] at used' same
      by_cases hq' : q' = p
      · rw [hq', update_self] at same
        exact absurd same used'
      · rw [update_of_ne hq'] at same
        exact h.once q q' used' same
  marks x inPool := by
    by_cases hx : x = own p
    · rw [hx, update_self]
      refine ⟨fun bad => absurd bad Bool.false_ne_true, ?_⟩
      rintro ⟨q, eq⟩
      by_cases hq : q = p
      · rw [hq, update_self] at eq
        exact absurd eq.symm used
      · rw [update_of_ne hq] at eq
        exact absurd (h.once p q used eq.symm).symm hq
    · rw [update_of_ne hx, h.marks x inPool]
      constructor
      · rintro ⟨q, eq⟩
        have hq : q ≠ p := by
          rintro rfl
          exact hx eq.symm
        exact ⟨q, by rw [update_of_ne hq, eq]⟩
      · rintro ⟨q, eq⟩
        by_cases hq : q = p
        · rw [hq, update_self] at eq
          exact absurd (eq ▸ inPool) h.null
        · exact ⟨q, by rwa [update_of_ne hq] at eq⟩

end

end Xv6.Pointers
