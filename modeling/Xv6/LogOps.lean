import Xv6.LogMachine

/-! The operations in progress. `log.outstanding` counts them; the lemmas say
how opening, closing and extending one operation changes the set. -/

namespace Xv6.LogOps
open LogMachine

variable {P : Type} [Fintype P]

def openOps (op : P → Option (Finset Nat)) : Finset P :=
  Finset.univ.filter (fun p => (op p).isSome)

@[simp] lemma mem_openOps {op : P → Option (Finset Nat)} : p ∈ openOps op ↔ (op p).isSome := by simp [openOps]

lemma openOps_empty {op : P → Option (Finset Nat)} : openOps op = ∅ ↔ ∀ p, op p = none := by
  simp [Finset.eq_empty_iff_forall_notMem]

variable [DecidableEq P]

section
variable (op : P → Option (Finset Nat))
include op

lemma openOps_open (p) (bs : Finset Nat) : openOps (Function.update op p (some bs)) = insert p (openOps op) := by
  ext q
  by_cases h : q = p
  · subst h; simp
  · simp [h]

lemma openOps_close (p) : openOps (Function.update op p none) = (openOps op).erase p := by
  ext q
  by_cases h : q = p
  · subst h; simp
  · simp [h]

lemma openOps_map (p f) : openOps (Function.update op p ((op p).map f)) = openOps op := by
  ext q
  by_cases h : q = p
  · subst h; simp
  · simp [h]

end

end Xv6.LogOps
