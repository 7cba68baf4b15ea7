import Mathlib.GroupTheory.OrderOfElement
import Mathlib.GroupTheory.Perm.Basic

/-! The random generator that `user/run_experiment.c`, `user/graphs.c` and `user/rows.c` copy from
`user/grind.c`. -/

namespace Xv6.Random

/-- The values that `do_rand` computes, in their order; each is a `long`. The last one is returned and left
in `*ctx`. -/
def steps (ctx : UInt64) : List Int :=
  let x := (ctx.toNat % 0x7ffffffe + 1 : Int)
  let hi := x.tdiv 127773
  let lo := x.tmod 127773
  let diff := 16807 * lo - 2836 * hi
  let sum := if diff < 0 then diff + 0x7fffffff else diff
  [x, hi, lo, 16807 * lo, 2836 * hi, diff, sum, sum - 1]

def doRand (ctx : UInt64) : Int := (steps ctx).getLastD 0

lemma steps_small (ctx) : ∀ v ∈ steps ctx, -2 ^ 31 ≤ v ∧ v < 2 ^ 31 := by
  unfold steps
  dsimp only
  rw [Int.tdiv_eq_ediv_of_nonneg (by omega), Int.tmod_eq_emod_of_nonneg (by omega)]
  simp only [List.forall_mem_cons, List.not_mem_nil, false_imp_iff, implies_true, and_true]
  split_ifs <;> omega

/-- Schrage's decomposition: `0x7fffffff = 127773 * 16807 + 2836`. -/
lemma doRand_eq (ctx) : doRand ctx = 16807 * (ctx.toNat % 0x7ffffffe + 1) % 0x7fffffff - 1 := by
  unfold doRand steps
  dsimp only [List.getLastD, List.getLast]
  rw [Int.tdiv_eq_ediv_of_nonneg (by omega), Int.tmod_eq_emod_of_nonneg (by omega)]
  split_ifs <;> omega

/-- The multiplier is prime to the modulus, so the product is not 0. -/
lemma doRand_range (ctx) : 0 ≤ doRand ctx ∧ doRand ctx ≤ 0x7ffffffd := by
  rw [doRand_eq]
  omega

def seeds : Nat := 0x7ffffffe

lemma seeds_eq : seeds = 0x7ffffffe := rfl

/-- `do_rand` on the seeds that it leaves itself. -/
def next (seed : Fin seeds) : Fin seeds :=
  ⟨(doRand (UInt64.ofNat seed)).toNat, by have := doRand_range (UInt64.ofNat seed); unfold seeds; omega⟩

lemma next_val (seed) : ((next seed).val : Int) = 16807 * (seed.val + 1) % 0x7fffffff - 1 := by
  have lt := seed.isLt.trans_eq seeds_eq
  have small : (UInt64.ofNat seed.val).toNat = seed.val := by
    rw [UInt64.toNat_ofNat', Nat.mod_eq_of_lt (by omega)]
  have range := doRand_range (UInt64.ofNat seed)
  have eq := doRand_eq (UInt64.ofNat seed)
  rw [small] at eq
  have val : ((next seed).val : Int) = doRand (UInt64.ofNat seed) := Int.toNat_of_nonneg range.1
  have mod : (seed.val : Int) % 0x7ffffffe = seed.val := by omega
  rw [val, eq, mod]

lemma next_injective : Function.Injective next := by
  intro a b same
  have ltA := a.isLt.trans_eq seeds_eq
  have ltB := b.isLt.trans_eq seeds_eq
  have eqA := next_val a
  have eqB := next_val b
  apply Fin.ext
  omega

/-- A multiplication by 16807 modulo `2^31 - 1`, within 32 bits. It permutes the seeds, so every sequence is a cycle. -/
theorem doRand_permutes : (∀ ctx, (∀ v ∈ steps ctx, -2 ^ 31 ≤ v ∧ v < 2 ^ 31) ∧
    doRand ctx = 16807 * (ctx.toNat % 0x7ffffffe + 1) % 0x7fffffff - 1 ∧ 0 ≤ doRand ctx ∧ doRand ctx ≤ 0x7ffffffd) ∧
    Function.Bijective next ∧ ∀ seed, ∃ k > 0, next^[k] seed = seed := by
  have bijective : Function.Bijective next := Finite.injective_iff_bijective.mp next_injective
  refine ⟨fun ctx => ⟨steps_small ctx, doRand_eq ctx, doRand_range ctx⟩, bijective, fun seed => ?_⟩
  obtain ⟨k, pos, one⟩ := isOfFinOrder_iff_pow_eq_one.mp (isOfFinOrder_of_finite (Equiv.ofBijective next bijective))
  have back := congrArg (· seed) one
  exact ⟨k, pos, back⟩

end Xv6.Random
