import Mathlib.Data.Nat.ModEq

/-! A stream seen through a circular buffer. Its places are natural numbers; a machine counter holds a
count modulo `M`, and place `j` lies in slot `j % m`. The buffer shows the places from `r` to the
end of the stream, at most `m`. -/

namespace Xv6.Window

open List

variable {α : Type*} {m : Nat} [NeZero m] {data : Fin m → α} {stream : List α} {r : Nat}

/-- The buffer shows the stream from place `r` on. -/
structure Shows (data : Fin m → α) (stream : List α) (r : Nat) : Prop where
  le : r ≤ stream.length
  fits : stream.length ≤ r + m
  slot : ∀ j x, r ≤ j → stream[j]? = some x → data (Fin.ofNat m j) = x

lemma shows_nil (data : Fin m → α) : Shows data [] 0 := by
  refine ⟨le_rfl, by simp, fun j x _ h => ?_⟩
  simp at h

lemma ofNat_ne {i j : Nat} (lt : i < j) (near : j < i + m) : Fin.ofNat m i ≠ Fin.ofNat m j := by
  intro eq
  have mods : i % m = j % m := congrArg Fin.val eq
  have := Nat.sub_mod_eq_zero_of_mod_eq mods.symm
  have := Nat.eq_zero_of_dvd_of_lt (Nat.dvd_of_mod_eq_zero this) (by omega)
  omega

lemma Shows.push (h : Shows data stream r) (room : stream.length < r + m) (x) :
    Shows (Function.update data (Fin.ofNat m stream.length) x) (stream ++ [x]) r where
  le := by
    rw [length_append]
    exact Nat.le_add_right_of_le h.le
  fits := by
    rw [length_append, length_singleton]
    omega
  slot j y low at_ := by
    rcases lt_trichotomy j stream.length with lt | rfl | gt
    · rw [getElem?_append_left lt] at at_
      rw [Function.update_of_ne (ofNat_ne lt (by omega))]
      exact h.slot j y low at_
    · simpa using at_
    · rw [getElem?_eq_none (by simp; omega)] at at_
      cases at_

lemma Shows.pop (h : Shows data stream r) (more : r < stream.length) :
    Shows data stream (r + 1) ∧ stream[r]? = some (data (Fin.ofNat m r)) := by
  refine ⟨⟨more, by have := h.fits; omega, fun j x low at_ => h.slot j x (by omega) at_⟩, ?_⟩
  have at_ := getElem?_eq_getElem more
  rw [at_, h.slot r _ le_rfl at_]

lemma Shows.drop_last {x : α} (h : Shows data (stream ++ [x]) r) (le : r ≤ stream.length) : Shows data stream r where
  le := le
  fits := by
    have fits := h.fits
    rw [List.length_append, List.length_singleton] at fits
    omega
  slot j y low at_ := by
    refine h.slot j y low ?_
    rwa [List.getElem?_append_left (List.getElem?_eq_some_iff.mp at_).1]

variable {M a b : Nat}

/-- Counters of places less than `M` apart are equal only if the places are. -/
lemma mod_eq_iff (le : a ≤ b) (near : b < a + M) : b % M = a % M ↔ b = a := by
  constructor
  · intro eq
    have := Nat.sub_mod_eq_zero_of_mod_eq eq
    have := Nat.eq_zero_of_dvd_of_lt (Nat.dvd_of_mod_eq_zero this) (by omega)
    omega
  · rintro rfl
    rfl

lemma distance (le : a ≤ b) (near : b < a + M) : (M - a % M + b % M) % M = b - a := by
  have pos : 0 < M := by omega
  have lt := Nat.mod_lt a pos
  obtain ⟨d, rfl⟩ := Nat.exists_eq_add_of_le le
  have : (M - a % M + (a + d) % M) % M = (M - a % M + (a % M + d)) % M := by
    rw [Nat.add_mod_mod, Nat.add_mod (M - a % M) (a + d), ← Nat.mod_add_mod a, ← Nat.add_mod]
  rw [this, show M - a % M + (a % M + d) = M + d by omega, Nat.add_mod_left, Nat.mod_eq_of_lt (by omega)]
  omega

lemma ofNat_mod (dvd : m ∣ M) (j) : Fin.ofNat m (j % M) = Fin.ofNat m j := by
  apply Fin.ext
  exact Nat.mod_mod_of_dvd j dvd

def between (f : UInt32 → α) (r w : UInt32) : List α :=
  (List.range (w - r).toNat).map fun j => f (r + UInt32.ofNat j)

lemma between_pop (f : UInt32 → α) {r w : UInt32} (ne : r ≠ w) : between f r w = f r :: between f (r + 1) w := by
  have less : (w - (r + 1)).toNat + 1 = (w - r).toNat := by
    have differ : r.toNat ≠ w.toNat := fun eq => ne (UInt32.toNat_inj.mp eq)
    have small := r.toNat_lt
    have small' := w.toNat_lt
    rw [UInt32.toNat_sub, UInt32.toNat_sub, UInt32.toNat_add]
    change (2 ^ 32 - (r.toNat + 1) % 2 ^ 32 + w.toNat) % 2 ^ 32 + 1 = (2 ^ 32 - r.toNat + w.toNat) % 2 ^ 32
    omega
  rw [between, ← less, range_succ_eq_map, map_cons, map_map, between]
  congr 1
  · exact congrArg f (UInt32.add_zero r)
  · refine map_congr_left fun j _ => ?_
    have next : r + UInt32.ofNat (j + 1) = r + 1 + UInt32.ofNat j := by
      rw [UInt32.ofNat_add, UInt32.add_assoc, UInt32.add_comm (UInt32.ofNat j)]
      rfl
    exact congrArg f next

end Xv6.Window
