import Mathlib.Logic.Function.Basic
import Mathlib.Tactic.Common

/-! `memmove` of `kernel/string.c` and of `user/ulib.c`. -/

namespace Xv6.Move

open Function

abbrev Memory := Nat → UInt8

/-- `while(n-- > 0) *d++ = *s++`. -/
def copyUp : Nat → Nat → Nat → Memory → Memory
  | 0, _, _, mem => mem
  | n + 1, d, s, mem => copyUp n (d + 1) (s + 1) (update mem d (mem s))

/-- `while(n-- > 0) *--d = *--s`. -/
def copyDown : Nat → Nat → Nat → Memory → Memory
  | 0, _, _, mem => mem
  | n + 1, d, s, mem => copyDown n (d - 1) (s - 1) (update mem (d - 1) (mem (s - 1)))

def kernelMemmove (d s n : Nat) (mem : Memory) : Memory :=
  if n = 0 then mem
  else if s < d ∧ s + n > d then copyDown n (d + n) (s + n) mem
  else copyUp n d s mem

def userMemmove (dst src n : Nat) (mem : Memory) : Memory :=
  if src > dst then copyUp n dst src mem else copyDown n (dst + n) (src + n) mem

/-- What a move should leave. -/
def moved (d s n : Nat) (mem : Memory) : Memory := fun a => if d ≤ a ∧ a < d + n then mem (s + (a - d)) else mem a

/-- Upwards, a byte is read before the copy has come to it. -/
lemma copyUp_eq (n d s mem) (apart : d ≤ s ∨ s + n ≤ d) : copyUp n d s mem = moved d s n mem := by
  induction n generalizing d s mem with
  | zero =>
    funext a
    rw [copyUp, moved, if_neg (by omega)]
  | succ n ih =>
    rw [copyUp, ih _ _ _ (by omega)]
    funext a
    unfold moved
    by_cases first : a = d
    · subst first
      rw [if_neg (by omega), if_pos (by omega), update_self, Nat.sub_self, Nat.add_zero]
    · rw [update_of_ne first]
      by_cases inside : d ≤ a ∧ a < d + (n + 1)
      · rw [if_pos (by omega), if_pos inside, update_of_ne (by omega),
          show s + 1 + (a - (d + 1)) = s + (a - d) by omega]
      · rw [if_neg (by omega), if_neg inside]

/-- Downwards likewise. -/
lemma copyDown_eq (n d s mem) (apart : s ≤ d ∨ d + n ≤ s) : copyDown n (d + n) (s + n) mem = moved d s n mem := by
  induction n generalizing mem with
  | zero =>
    funext a
    rw [copyDown, moved, if_neg (by omega)]
  | succ n ih =>
    rw [copyDown]
    change copyDown n (d + n) (s + n) (update mem (d + n) (mem (s + n))) = _
    rw [ih _ (by omega)]
    funext a
    unfold moved
    by_cases last : a = d + n
    · subst last
      rw [if_neg (by omega), if_pos (by omega), update_self, Nat.add_sub_cancel_left]
    · rw [update_of_ne last]
      by_cases inside : d ≤ a ∧ a < d + (n + 1)
      · rw [if_pos (by omega), if_pos inside, update_of_ne (by omega)]
      · rw [if_neg (by omega), if_neg inside]

def memmove (kernel : Bool) : Nat → Nat → Nat → Memory → Memory := if kernel then kernelMemmove else userMemmove

/-- Both move the bytes, whatever the overlap, and leave the others. -/
theorem memmove_moves (kernel : Bool) (d s n : Nat) (mem : Memory) :
    (∀ i < n, memmove kernel d s n mem (d + i) = mem (s + i)) ∧
      ∀ a, a < d ∨ d + n ≤ a → memmove kernel d s n mem a = mem a := by
  have eq : memmove kernel d s n mem = moved d s n mem := by
    cases kernel with
    | true =>
      change kernelMemmove d s n mem = _
      unfold kernelMemmove
      split_ifs with zero down
      · funext a
        rw [moved, if_neg (by omega)]
      · exact copyDown_eq n d s mem (by omega)
      · exact copyUp_eq n d s mem (by omega)
    | false =>
      change userMemmove d s n mem = _
      unfold userMemmove
      split_ifs
      · exact copyUp_eq n d s mem (by omega)
      · exact copyDown_eq n d s mem (by omega)
  rw [eq]
  unfold moved
  refine ⟨fun i lt => ?_, fun a outside => if_neg (by omega)⟩
  rw [if_pos (by omega), Nat.add_sub_cancel_left]

end Xv6.Move
