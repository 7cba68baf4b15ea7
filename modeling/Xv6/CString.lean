import Mathlib.Data.List.TakeWhile

/-! The bounded strings of `kernel/string.c`. A field of `n` bytes holds the bytes
up to its first `NUL`, or all of them if there is none; past the end of a list
stands the `NUL` that ends it. -/

namespace Xv6.CString

open List

/-- `strncmp`: the difference at the first place where the strings differ. -/
def strncmp : List UInt8 → List UInt8 → Nat → Int
  | _, _, 0 => 0
  | p, q, n + 1 =>
    if p.headD 0 ≠ 0 ∧ p.headD 0 = q.headD 0 then strncmp p.tail q.tail n
    else (p.headD 0).toNat - (q.headD 0).toNat

/-- The bytes that `strncpy` writes: after the `NUL` it fills up. -/
def strncpy : List UInt8 → Nat → List UInt8
  | _, 0 => []
  | t, n + 1 =>
    if t.headD 0 ≠ 0 then t.headD 0 :: strncpy t.tail n
    else List.replicate (n + 1) 0

/-- The string in a field of `n` bytes. -/
def text (s : List UInt8) (n : Nat) : List UInt8 := (s.take n).takeWhile (· ≠ 0)

variable {s t : List UInt8} {n : Nat}

lemma text_zero : text s 0 = [] := by simp [text]

lemma text_succ : text s (n + 1) = if s.headD 0 ≠ 0 then s.headD 0 :: text s.tail n else [] := by
  cases s with
  | nil => simp [text]
  | cons a s =>
    by_cases h : a = 0 <;> simp [text, h]

lemma text_eq_take (plain : (0 : UInt8) ∉ s) (n) : text s n = s.take n := by
  apply takeWhile_eq_self_iff.mpr
  intro a mem
  have ne : a ≠ 0 := fun zero => plain (zero ▸ mem_of_mem_take mem)
  simpa using ne

lemma strncmp_eq_zero (p q n) : strncmp p q n = 0 ↔ text p n = text q n := by
  induction n generalizing p q with
  | zero => simp [strncmp, text_zero]
  | succ n ih =>
    rw [strncmp, text_succ, text_succ]
    by_cases end_ : p.headD 0 = 0
    · by_cases end' : q.headD 0 = 0
      · simp only [end_, end', ne_eq, not_true_eq_false, false_and, if_false, Int.sub_self]
      · have pos : (q.headD 0).toNat ≠ 0 := fun zero => end' (UInt8.toNat_inj.mp zero)
        simp only [end_, ne_eq, not_true_eq_false, false_and, if_false, end', not_false_eq_true,
          if_true, UInt8.toNat_zero]
        constructor
        · intro zero
          omega
        · intro bad
          cases bad
    · by_cases same : p.headD 0 = q.headD 0
      · rw [if_pos ⟨end_, same⟩, if_pos end_, if_pos (same ▸ end_), ih, same]
        simp
      · rw [if_neg fun both => same both.2, if_pos end_]
        have apart : (p.headD 0).toNat ≠ (q.headD 0).toNat := fun eq => same (UInt8.toNat_inj.mp eq)
        constructor
        · intro zero
          omega
        · intro eq
          split at eq
          · exact absurd (cons.inj eq).1 same
          · cases eq

lemma length_strncpy (t n) : (strncpy t n).length = n := by
  induction n generalizing t with
  | zero => rfl
  | succ n ih =>
    rw [strncpy]
    split
    · rw [length_cons, ih]
    · exact length_replicate ..

lemma text_strncpy (t n) : text (strncpy t n) n = text t n := by
  induction n generalizing t with
  | zero => rw [text_zero, text_zero]
  | succ n ih =>
    rw [strncpy, text_succ (s := t)]
    split
    · rename_i more
      rw [text_succ, headD_cons, tail_cons, if_pos more, ih]
    · rw [replicate_succ, text_succ, headD_cons, if_neg (not_not.mpr rfl)]

end Xv6.CString
