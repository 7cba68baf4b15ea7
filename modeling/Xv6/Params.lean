import Mathlib.Algebra.Order.Ring.Nat

/-! Constants of `kernel/param.h` and `kernel/fs.h` that more than one part of the
development uses. -/

namespace Xv6.Params

def nproc : Nat := 256
def maxOpBlocks : Nat := 10
def logSize : Nat := maxOpBlocks * 3
def bsize : Nat := 1024

lemma logSize_pos : 0 < logSize := by decide

instance : NeZero nproc := ⟨by decide⟩

-- The literals of small index types, by instances that every module shares.
instance neZero_one : NeZero (1 : Nat) := ⟨by decide⟩
instance neZero_two : NeZero (2 : Nat) := ⟨by decide⟩
instance neZero_three : NeZero (3 : Nat) := ⟨by decide⟩

end Xv6.Params
