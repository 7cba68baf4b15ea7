import Xv6.Params
import Mathlib.Data.Nat.Digits.Lemmas
import Mathlib.Tactic.Common
import Mathlib.Tactic.FinCases

/-! Numbers in print: `printint` of `kernel/printf.c` and of `user/printf.c`, and `vprintf` of the
latter. `buf` is kept as what has been stored so far, last byte first, which is the order of printing;
`none` is a store outside of it, or an argument of another type than the conversion's. -/

namespace Xv6.Print

open List

/-- `digits[d]`, where `ten` is the letter of the digit 10. -/
def digit (ten d : Nat) : UInt8 := UInt8.ofNat (if d < 10 then d + 48 else d - 10 + ten)

/-- The loop over the digits, with `room` bytes left in `buf`. -/
def digitLoop (ten base : Nat) : Nat → Nat → List UInt8 → Option (Nat × List UInt8)
  | 0, _, _ => none
  | room + 1, x, buf =>
    let buf := digit ten (x % base) :: buf
    if x / base = 0 then some (room, buf) else digitLoop ten base room (x / base) buf

def printint (ten : Nat) {w : Nat} (xx : BitVec w) (base : Nat) (sign : Bool) : Option (List UInt8) := do
  let neg := sign && xx.toInt < 0
  let (room, buf) ← digitLoop ten base 16 (if neg then -xx else xx).toNat []
  if neg then if room = 0 then none else return 45 :: buf else return buf

/-- `printint` of the kernel, on a `long long`. -/
def kernelPrintint (xx : BitVec 64) (base : Nat) (sign : Bool) : Option (List UInt8) :=
  printint 97 xx base sign

/-- `printint` of the user library, on an `int`. -/
def userPrintint (xx : BitVec 32) (base : Nat) (sgn : Bool) : Option (List UInt8) := printint 65 xx base sgn

def numeral (ten base n : Nat) : List UInt8 :=
  if n = 0 then [48] else ((Nat.digits base n).map (digit ten)).reverse

/-- The canonical numeral of an integer. -/
def text (ten base : Nat) (z : Int) : List UInt8 :=
  if z < 0 then 45 :: numeral ten base z.natAbs else numeral ten base z.natAbs

def interp {w : Nat} (sign : Bool) (xx : BitVec w) : Int := if sign then xx.toInt else xx.toNat

def undigit (ten : Nat) (c : UInt8) : Nat := if c < 58 then c.toNat - 48 else c.toNat - ten + 10

def read (ten base : Nat) (t : List UInt8) : Nat := Nat.ofDigits base (t.reverse.map (undigit ten))

/-- The integer that a numeral is read as. -/
def value (ten base : Nat) (t : List UInt8) : Int :=
  if t.head? = some 45 then -read ten base t.tail else read ten base t

variable {ten base : Nat}

lemma numeral_of_lt (lt : n < base) : numeral ten base n = [digit ten n] := by
  unfold numeral
  split_ifs with zero
  · rw [zero]
    rfl
  · rw [Nat.digits_of_lt base n zero lt]
    rfl

lemma numeral_div (two : 1 < base) (le : base ≤ n) :
    numeral ten base n = numeral ten base (n / base) ++ [digit ten (n % base)] := by
  have pos : 0 < n / base := Nat.div_pos le (by omega)
  rw [numeral, numeral, if_neg (by omega), if_neg (by omega), Nat.digits_def' two (by omega)]
  simp

lemma numeral_length_le (ten) (two : 1 < base) (k n) : (numeral ten base n).length ≤ k + 1 ↔ n < base ^ (k + 1) := by
  unfold numeral
  split_ifs with zero
  · subst zero
    simp [Nat.pow_pos (show 0 < base by omega)]
  · rw [length_reverse, length_map, Nat.digits_length_le_iff two]

lemma digitLoop_eq (two : 1 < base) (room x buf) : digitLoop ten base (room + 1) x buf = if x < base ^ (room + 1) then
    some (room + 1 - (numeral ten base x).length, numeral ten base x ++ buf) else none := by
  induction room generalizing x buf with
  | zero =>
    rw [digitLoop, digitLoop, pow_one]
    by_cases lt : x < base
    · rw [if_pos lt, if_pos (Nat.div_eq_of_lt lt), Nat.mod_eq_of_lt lt, numeral_of_lt lt]
      rfl
    · rw [if_neg lt, if_neg (Nat.div_pos (not_lt.mp lt) (by omega)).ne']
  | succ room ih =>
    rw [digitLoop]
    by_cases lt : x < base
    · rw [if_pos (Nat.div_eq_of_lt lt), Nat.mod_eq_of_lt lt, numeral_of_lt lt,
        if_pos (lt.trans_le (Nat.le_pow (by omega)))]
      rfl
    · have more : x / base < base ^ (room + 1) ↔ x < base ^ (room + 1 + 1) := by
        rw [Nat.div_lt_iff_lt_mul (by omega), ← pow_succ]
      rw [if_neg (Nat.div_pos (not_lt.mp lt) (by omega)).ne', ih, numeral_div two (not_lt.mp lt)]
      simp [more]

lemma magnitude (sign) (xx : BitVec w) : (sign && decide (xx.toInt < 0)) = decide (interp sign xx < 0) ∧
    (if sign && decide (xx.toInt < 0) then -xx else xx).toNat = (interp sign xx).natAbs := by
  unfold interp
  rw [BitVec.toInt_eq_toNat_cond]
  cases sign with
  | false => simp
  | true =>
    refine ⟨by simp, ?_⟩
    simp only [Bool.true_and, if_true, decide_eq_true_eq]
    by_cases pos : 2 * xx.toNat < 2 ^ w
    · rw [if_pos pos, if_neg (by omega), Int.natAbs_natCast]
    · rw [if_neg pos, if_pos (by omega), BitVec.toNat_neg, Nat.mod_eq_of_lt (by omega)]
      omega

lemma printint_eq (two : 1 < base) (xx : BitVec w) (sign : Bool) :
    printint ten xx base sign = if (interp sign xx).natAbs < base ^ (if interp sign xx < 0 then 15 else 16) then
      some (text ten base (interp sign xx)) else none := by
  obtain ⟨neg, abs⟩ := magnitude sign xx
  rw [printint, abs, digitLoop_eq two, neg]
  have short := numeral_length_le ten two 14 (interp sign xx).natAbs
  have less : base ^ 15 ≤ base ^ (15 + 1) := Nat.pow_le_pow_right (by omega) (by omega)
  by_cases below : interp sign xx < 0
  · simp only [text, below, decide_true, if_true]
    by_cases fits : (interp sign xx).natAbs < base ^ 15
    · rw [if_pos fits, if_pos (by omega)]
      have := short.mpr fits
      simp only [Option.bind_eq_bind, Option.bind_some, append_nil]
      rw [if_neg (by omega)]
      rfl
    · rw [if_neg fits]
      split_ifs
      · have := short.not.mpr fits
        simp only [Option.bind_eq_bind, Option.bind_some]
        rw [if_pos (by omega)]
      · rfl
  · simp only [text, below, decide_false, Bool.false_eq_true, if_false]
    split_ifs <;> simp

def radix (hex : Bool) : Nat := if hex then 16 else 10

lemma one_lt_radix (hex) : 1 < radix hex := by cases hex <;> decide

/-- The kernel prints the numeral just if it has at most 16 characters. -/
theorem printint_canonical_iff (xx : BitVec 64) (hex sign : Bool) :
    kernelPrintint xx (radix hex) sign = some (text 97 (radix hex) (interp sign xx)) ↔
      (interp sign xx).natAbs < radix hex ^ (if interp sign xx < 0 then 15 else 16) := by
  rw [kernelPrintint, printint_eq (one_lt_radix hex)]
  split_ifs <;> simp [*]

/-- 2 ^ 64 - 1 has 20 decimal digits. -/
theorem printint_overruns : kernelPrintint (BitVec.ofNat 64 (2 ^ 64 - 1)) 10 false = none := by decide +kernel

/-- What the arguments in a `va_list` are: words, and strings or null pointers. -/
inductive Arg
  | word (w : BitVec 64)
  | str (s : Option (List UInt8))

inductive Conv
  | int (base : Nat) (sgn : Bool)
  | ptr | str | percent
  | unknown (c : UInt8)

/-- The branch for the characters after `%`, and how many more of them it takes. -/
def conv (c0 c1 c2 : UInt8) : Conv × Nat :=
  if c0 = 100 then (.int 10 true, 0)
  else if c0 = 108 ∧ c1 = 100 then (.int 10 true, 1)
  else if c0 = 108 ∧ c1 = 108 ∧ c2 = 100 then (.int 10 true, 2)
  else if c0 = 117 then (.int 10 false, 0)
  else if c0 = 108 ∧ c1 = 117 then (.int 10 false, 1)
  else if c0 = 108 ∧ c1 = 108 ∧ c2 = 117 then (.int 10 false, 2)
  else if c0 = 120 then (.int 16 false, 0)
  else if c0 = 108 ∧ c1 = 120 then (.int 16 false, 1)
  else if c0 = 108 ∧ c1 = 108 ∧ c2 = 120 then (.int 16 false, 2)
  else if c0 = 112 then (.ptr, 0)
  else if c0 = 115 then (.str, 0)
  else if c0 = 37 then (.percent, 0)
  else (.unknown c0, 0)

def printptr (x : BitVec 64) : List UInt8 :=
  48 :: 120 :: (range 16).map fun i => digit 65 (x <<< (4 * i) >>> 60).toNat

/-- The parameter of `printint` is an `int`, so the word is cut to it in all nine branches. -/
def Conv.print : Conv → List Arg → Option (List UInt8 × List Arg)
  | .int base sgn, .word w :: ap => (userPrintint (w.setWidth 32) base sgn).map (·, ap)
  | .ptr, .word w :: ap => some (printptr w, ap)
  | .str, .str s :: ap => some (s.getD [40, 110, 117, 108, 108, 41], ap)
  | .percent, ap => some ([37], ap)
  | .unknown c, ap => some ([37, c], ap)
  | _, _ => none

/-- The loop of `vprintf` from `state` on, after `skip` more characters. -/
def format : Nat → Bool → List UInt8 → List Arg → Option (List UInt8)
  | _, _, [], _ => some []
  | skip + 1, state, _ :: fmt, ap => format skip state fmt ap
  | 0, false, c0 :: fmt, ap =>
    if c0 = 37 then format 0 true fmt ap else (format 0 false fmt ap).map (c0 :: ·)
  | 0, true, c0 :: fmt, ap => do
    let (cv, skip) := conv c0 (fmt.getD 0 0) (fmt.getD 1 0)
    let (out, ap) ← cv.print ap
    (format skip false fmt ap).map (out ++ ·)

def vprintf (fmt : List UInt8) (ap : List Arg) : Option (List UInt8) := format 0 false fmt ap

inductive Kind
  | d | u | x

def Kind.char : Kind → UInt8
  | .d => 100
  | .u => 117
  | .x => 120

/-- The conversion with `l` letters `l`. -/
def Kind.spec (k : Kind) (l : Fin 3) : List UInt8 :=
  37 :: (replicate l 108 ++ [k.char])

def Kind.radix : Kind → Nat
  | .x => 16
  | _ => 10

def Kind.sgn : Kind → Bool
  | .d => true
  | _ => false

/-- The argument: an `int` without `l`, a 64-bit value with it. -/
def Kind.arg (k : Kind) (l : Fin 3) (v : BitVec 64) : Int :=
  if l = 0 then interp k.sgn (v.setWidth 32) else interp k.sgn v

lemma undigit_digit : ∀ d < 16, undigit 65 (digit 65 d) = d ∧ digit 65 d ≠ 45 := by decide

section
variable (two : 1 < base) (le : base ≤ 16)
include two le

lemma digit_of_mem_numeral (mem : c ∈ numeral 65 base n) : ∃ d < 16, c = digit 65 d := by
  unfold numeral at mem
  split_ifs at mem
  · exact ⟨0, by decide, mem_singleton.mp mem⟩
  · obtain ⟨d, here, rfl⟩ := mem_map.mp (mem_reverse.mp mem)
    exact ⟨d, (Nat.digits_lt_base two here).trans_le le, rfl⟩

lemma read_numeral (n) : read 65 base (numeral 65 base n) = n := by
  unfold read numeral
  split_ifs with zero
  · rw [zero]
    rfl
  · have same : (Nat.digits base n).map (undigit 65 ∘ digit 65) = Nat.digits base n := by
      refine (map_congr_left fun d mem => ?_).trans (map_id _)
      exact (undigit_digit d ((Nat.digits_lt_base two mem).trans_le le)).1
    rw [reverse_reverse, map_map, same, Nat.ofDigits_digits]

lemma value_text (z) : value 65 base (text 65 base z) = z := by
  unfold value text
  split_ifs with neg minus minus
  · rw [tail_cons, read_numeral two le]
    omega
  · exact absurd rfl minus
  · obtain ⟨d, lt, eq⟩ := digit_of_mem_numeral two le (mem_of_mem_head? minus)
    exact absurd eq.symm (undigit_digit d lt).2
  · rw [read_numeral two le]
    omega

end

lemma vprintf_spec (k : Kind) (l : Fin 3) (v : BitVec 64) (fmt : List UInt8) (ap : List Arg) :
    vprintf (k.spec l ++ fmt) (.word v :: ap) =
      (vprintf fmt ap).map (text 65 k.radix (interp k.sgn (v.setWidth 32)) ++ ·) := by
  have printed : userPrintint (v.setWidth 32) k.radix k.sgn =
      some (text 65 k.radix (interp k.sgn (v.setWidth 32))) := by
    have small : (interp k.sgn (v.setWidth 32)).natAbs < 10 ^ 15 := by
      unfold interp
      rw [BitVec.toInt_eq_toNat_cond]
      split_ifs <;> omega
    rw [userPrintint, printint_eq (by cases k <;> decide), if_pos]
    refine small.trans_le ?_
    cases k <;> split_ifs <;> decide
  fin_cases l <;> cases k <;> simp_all [vprintf, Kind.spec, Kind.char, format, conv, Conv.print, Kind.radix, Kind.sgn]

lemma interp_narrow_iff (sgn) (v : BitVec 64) : interp sgn (v.setWidth 32) = interp sgn v ↔
    if sgn then -2 ^ 31 ≤ v.toInt ∧ v.toInt < 2 ^ 31 else v.toNat < 2 ^ 32 := by
  cases sgn with
  | false =>
    simp only [interp, Bool.false_eq_true, if_false, BitVec.toNat_setWidth]
    omega
  | true =>
    simp only [interp, if_true, BitVec.toInt_eq_toNat_cond, BitVec.toNat_setWidth]
    split_ifs <;> omega

/-- The user library prints the argument just if it survives the narrowing to 32 bits. -/
theorem vprintf_prints_iff (k : Kind) (l : Fin 3) (v : BitVec 64) :
    ((∀ fmt ap, vprintf (k.spec l ++ fmt) (.word v :: ap) = (vprintf fmt ap).map (text 65 k.radix (k.arg l v) ++ ·)) ∧
      value 65 k.radix (text 65 k.radix (k.arg l v)) = k.arg l v) ↔
      l = 0 ∨ if k.sgn then -2 ^ 31 ≤ v.toInt ∧ v.toInt < 2 ^ 31 else v.toNat < 2 ^ 32 := by
  have back := value_text (show 1 < k.radix by cases k <;> decide) (by cases k <;> decide)
  rw [and_iff_left (back _), ← interp_narrow_iff]
  simp only [vprintf_spec]
  unfold Kind.arg
  constructor
  · intro prints
    have same := congrArg (value 65 k.radix) (by simpa [vprintf, format] using prints [] [])
    rw [back, back] at same
    split_ifs at same with int
    · exact .inl int
    · exact .inr same
  · rintro (rfl | same) fmt ap
    · rfl
    · rw [same, ite_self]

/-- `%ld` prints `2 ^ 32` as `0`. -/
theorem vprintf_narrows : vprintf [37, 108, 100] [.word (BitVec.ofNat 64 (2 ^ 32))] = some [48] := by
  decide +kernel

end Xv6.Print
