import Mathlib.Tactic.Ring

/-! Little-endian integer fields inside a fixed-size byte array. A field is an
offset and a width in bytes; offsets are not required to be aligned. Reading a
field after a write needs only that the two byte ranges are equal or disjoint. -/

namespace Xv6.ByteFields

/-- A memory object of exactly `n` bytes. -/
abbrev Bytes (n : Nat) := Fin n → UInt8

variable {n : Nat}

def byteAt (b : Bytes n) (i : Nat) : UInt8 :=
  if h : i < n then b ⟨i, h⟩ else 0

/-- The unsigned little-endian number in bytes `off, ..., off + w - 1`. -/
def field (b : Bytes n) (off : Nat) : (w : Nat) → Nat
  | 0 => 0
  | w + 1 => (byteAt b off).toNat + 256 * field b (off + 1) w

def setField (b : Bytes n) (off w v : Nat) : Bytes n :=
  fun i => if off ≤ i.val ∧ i.val < off + w then UInt8.ofNat (v / 256 ^ (i.val - off)) else b i

def zeros (n : Nat) : Bytes n := fun _ => 0

def peekBytes (b : Bytes n) (off count : Nat) : List UInt8 :=
  (List.range count).map fun i => byteAt b (off + i)

/-- Overwrite the bytes from offset `off` on; what does not fit is dropped. -/
def pokeBytes (b : Bytes n) (off : Nat) (data : List UInt8) : Bytes n :=
  fun i => if off ≤ i.val then data.getD (i.val - off) (b i) else b i

lemma field_lt (b : Bytes n) (off w) : field b off w < 256 ^ w := by
  induction w generalizing off with
  | zero => simp [field]
  | succ w ih =>
    have low := (byteAt b off).toNat_lt
    have high := ih (off + 1)
    rw [field, pow_succ]
    omega

lemma field_congr (a b : Bytes n) (off w) (same : ∀ i, off ≤ i → i < off + w → byteAt a i = byteAt b i) :
    field a off w = field b off w := by
  induction w generalizing off with
  | zero => rfl
  | succ w ih =>
    rw [field, field, same off (le_rfl) (by omega), ih (off + 1) (fun i lo hi => same i (by omega) (by omega))]

lemma byteAt_setField (b : Bytes n) (off w v i) (h : i < n) : byteAt (setField b off w v) i =
    if off ≤ i ∧ i < off + w then UInt8.ofNat (v / 256 ^ (i - off)) else byteAt b i := by
  simp [byteAt, setField, h]

lemma field_set_other {b : Bytes n} (apart : off' + w' ≤ off ∨ off + w ≤ off') :
    field (setField b off w v) off' w' = field b off' w' := by
  apply field_congr
  intro i lo hi
  by_cases h : i < n
  · rw [byteAt_setField _ _ _ _ _ h, if_neg (by omega)]
  · simp [byteAt, h]

lemma field_set_suffix (b : Bytes n) (off w v k) (fits : off + w ≤ n) :
    ∀ r, k + r = w → field (setField b off w v) (off + k) r = v / 256 ^ k % 256 ^ r := by
  intro r
  induction r generalizing k with
  | zero => intro _; simp [field, Nat.mod_one]
  | succ r ih =>
    intro hk
    rw [field, byteAt_setField _ _ _ _ _ (by omega), if_pos (by omega), add_assoc,
      ih (k + 1) (by omega), Nat.add_sub_cancel_left, pow_succ 256 k, ← Nat.div_div_eq_div_mul]
    have low : (UInt8.ofNat (v / 256 ^ k)).toNat = v / 256 ^ k % 256 := by simp
    rw [low, pow_succ, mul_comm (256 ^ r) 256, Nat.mod_mul]

lemma field_setField_same (b : Bytes n) (off w v) (fits : off + w ≤ n) :
    field (setField b off w v) off w = v % 256 ^ w := by
  simpa using field_set_suffix b off w v 0 fits w (zero_add w)

@[simp] lemma field_zeros (off w) : field (zeros n) off w = 0 := by
  induction w generalizing off with
  | zero => rfl
  | succ w ih => simp [field, ih, byteAt, zeros]

lemma poke_inside (b : Bytes n) (off data) {i : Nat} (h : i < n)
    (lo : off ≤ i) (hi : i < off + data.length) :
    byteAt (pokeBytes b off data) i = data.getD (i - off) 0 := by
  have inside : i - off < data.length := by omega
  simp [byteAt, pokeBytes, h, lo, inside]

lemma poke_outside (b : Bytes n) (off data) {i : Nat} (apart : i < off ∨ off + data.length ≤ i) :
    byteAt (pokeBytes b off data) i = byteAt b i := by
  by_cases h : i < n
  · by_cases lo : off ≤ i
    · have past : data.length ≤ i - off := by omega
      simp [byteAt, pokeBytes, h, lo, past]
    · simp [byteAt, pokeBytes, h, lo]
  · simp [byteAt, h]

end Xv6.ByteFields
