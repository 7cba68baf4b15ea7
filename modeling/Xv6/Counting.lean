import Mathlib.Algebra.BigOperators.Group.Finset.Basic

/-! Sums of a weight over the values of a function on a finite type, when the
function changes at one point, and sums of weights that differ at two points. -/

namespace Xv6.Counting

open Finset Function

variable {α β : Type*} [Fintype α] [DecidableEq α]

lemma sum_update (weight : β → Nat) (f : α → β) (a : α) (v : β) :
    ∑ x, weight (update f a v x) + weight (f a) = ∑ x, weight (f x) + weight v := by
  have others : ∑ x ∈ univ.erase a, weight (update f a v x) = ∑ x ∈ univ.erase a, weight (f x) := by
    refine sum_congr rfl fun x hx => ?_
    rw [update_of_ne (ne_of_mem_erase hx)]
  have new := add_sum_erase univ (fun x => weight (update f a v x)) (mem_univ a)
  have old := add_sum_erase univ (fun x => weight (f x)) (mem_univ a)
  simp only [update_self] at new
  omega

section
variable {ι : Type*} [DecidableEq ι] {S : Finset ι} {f g : ι → Nat} {a b : ι}

lemma sum_off_pair (ha : a ∈ S) (hb : b ∈ S) (ne : a ≠ b) (same : ∀ x, x ≠ a → x ≠ b → f x = g x) :
    ∑ x ∈ S, f x + g a + g b = ∑ x ∈ S, g x + f a + f b := by
  have hb' : b ∈ S.erase a := mem_erase.mpr ⟨ne.symm, hb⟩
  have others : ∑ x ∈ (S.erase a).erase b, f x = ∑ x ∈ (S.erase a).erase b, g x := by
    refine sum_congr rfl fun x hx => ?_
    obtain ⟨neB, rest⟩ := mem_erase.mp hx
    exact same x (mem_erase.mp rest).1 neB
  have f1 := add_sum_erase S f ha
  have f2 := add_sum_erase (S.erase a) f hb'
  have g1 := add_sum_erase S g ha
  have g2 := add_sum_erase (S.erase a) g hb'
  omega

lemma add_le_sum (ha : a ∈ S) (hb : b ∈ S) (ne : a ≠ b) : f a + f b ≤ ∑ x ∈ S, f x := by
  have hb' : b ∈ S.erase a := mem_erase.mpr ⟨ne.symm, hb⟩
  have f1 := add_sum_erase S f ha
  have f2 := add_sum_erase (S.erase a) f hb'
  omega

end

end Xv6.Counting
