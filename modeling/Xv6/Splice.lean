import Mathlib.Data.List.Basic
import Mathlib.Order.Lattice

/-! Overwriting a stretch of a list, which may reach past its end. -/

namespace Xv6.Splice

open List

variable {α : Type*} {l d e : List α} {off : Nat}

def splice (l : List α) (off : Nat) (d : List α) : List α :=
  l.take off ++ d ++ l.drop (off + d.length)

lemma length_splice (start : off ≤ l.length) : (splice l off d).length = max l.length (off + d.length) := by
  simp only [splice, length_append, length_take, length_drop]
  omega

lemma getElem?_splice (start : off ≤ l.length) (x) :
    (splice l off d)[x]? = if off ≤ x ∧ x < off + d.length then d[x - off]? else l[x]? := by
  have front : (l.take off).length = off := by
    rw [length_take]
    omega
  by_cases before : x < off
  · rw [if_neg (by omega), splice, append_assoc, getElem?_append_left (by omega), getElem?_take_of_lt before]
  · rw [splice, append_assoc, getElem?_append_right (by omega), front]
    by_cases inside : x < off + d.length
    · rw [if_pos ⟨by omega, inside⟩, getElem?_append_left (by omega)]
    · rw [if_neg (by omega), getElem?_append_right (by omega), getElem?_drop]
      congr 1
      omega

lemma eq_splice {r : List α} (start : off ≤ l.length) (length : r.length = max l.length (off + d.length))
    (inside : ∀ x, off ≤ x → x < off + d.length → r[x]? = d[x - off]?)
    (outside : ∀ x, x < l.length → (x < off ∨ off + d.length ≤ x) → r[x]? = l[x]?) :
    r = splice l off d := by
  apply ext_getElem?
  intro x
  rw [getElem?_splice start]
  split
  · rename_i here
    exact inside x here.1 here.2
  · rename_i away
    by_cases lt : x < l.length
    · exact outside x lt (by omega)
    · rw [getElem?_eq_none (by omega), getElem?_eq_none (by omega)]

lemma splice_nil (start : off ≤ l.length) : splice l off [] = l := by
  symm
  apply eq_splice start
  · rw [length_nil]
    omega
  · intro x lo hi
    rw [length_nil] at hi
    omega
  · intro x _ _
    rfl

lemma splice_splice (start : off ≤ l.length) : splice (splice l off d) (off + d.length) e = splice l off (d ++ e) := by
  have length := length_splice (d := d) start
  apply eq_splice start
  · rw [length_splice (by omega), length, length_append]
    omega
  · intro x lo hi
    rw [length_append] at hi
    rw [getElem?_splice (by omega)]
    by_cases first : x < off + d.length
    · rw [if_neg (by omega), getElem?_splice start, if_pos ⟨lo, first⟩, getElem?_append_left (by omega)]
    · rw [if_pos (by omega), getElem?_append_right (by omega)]
      congr 1
      omega
  · intro x lt away
    rw [length_append] at away
    rw [getElem?_splice (by omega), if_neg (by omega), getElem?_splice start, if_neg (by omega)]

end Xv6.Splice
