import Mathlib.Data.Nat.Digits.Lemmas

/-! The I/O-bound worker `user/rows.c`: the name of its file, made of its pid, and the rows that it
reads back and exchanges. `none` is a buffer left. -/

namespace Xv6.Rows

open List

section

def put (buf : List UInt8) (i : Nat) (c : UInt8) : Option (List UInt8) :=
  if i < buf.length then some (buf.set i c) else none

/-- The digits of `pid`, the last one first. -/
def digitLoop : Nat → Nat → Nat → List UInt8 → Option (Nat × List UInt8)
  | 0, _, _, _ => none
  | fuel + 1, pid, i, pidStr => do
    let pidStr ← put pidStr i (UInt8.ofNat (pid % 10 + 48))
    if 0 < pid / 10 then digitLoop fuel (pid / 10) (i + 1) pidStr else return (i + 1, pidStr)

def swapLoop : Nat → Nat → Nat → List UInt8 → Option (Nat × List UInt8)
  | 0, _, _, _ => none
  | fuel + 1, j, i, pidStr =>
    if j < i then do
      let temp ← pidStr[j]?
      let pidStr ← put pidStr j (← pidStr[i]?)
      let pidStr ← put pidStr i temp
      swapLoop fuel (j + 1) (i - 1) pidStr
    else some (j, pidStr)

/-- Both loops that copy a string to the end of `filename`. -/
def copyLoop (src : List UInt8) : Nat → Nat → Nat → List UInt8 → Option (Nat × List UInt8)
  | 0, _, _, _ => none
  | fuel + 1, j, i, filename => do
    let c ← src[j]?
    if c = 0 then return (i, filename)
    else copyLoop src fuel (j + 1) (i + 1) (← put filename i c)

def iobound : List UInt8 := [105, 111, 98, 111, 117, 110, 100]
def suffix : List UInt8 := [46, 116, 120, 116]

/-- `filename`, where `junk` is what `pid_str` holds before. The copy goes on from the `j` at which the
exchange has stopped. -/
def fileName (junk : Fin 10 → UInt8) (pid : Nat) : Option (List UInt8) := do
  let (i, pidStr) ← digitLoop 10 (pid + 1000) 0 (List.ofFn junk)
  let pidStr ← put pidStr i 0
  let (j, pidStr) ← swapLoop 10 0 (i - 1) pidStr
  let (i, filename) ← copyLoop pidStr 10 j 7 (iobound ++ List.replicate 13 0)
  let (i, filename) ← copyLoop (suffix ++ [0]) 5 0 i filename
  put filename i 0

/-- The decimal text of a number. -/
def decimal (v : Nat) : List UInt8 := ((Nat.digits 10 v).map fun d => UInt8.ofNat (d + 48)).reverse

/-- The digits that get into the name: the second half, with the middle one. -/
def half (v : Nat) : List UInt8 := (decimal v).drop ((decimal v).length / 2)

def text (buf : List UInt8) : List UInt8 := buf.takeWhile (· ≠ 0)

lemma put_append (a x z c) : put (a ++ x :: z) a.length c = some (a ++ c :: z) := by simp [put]

lemma digitLoop_eq (fuel pid) (pos : 0 < pid) (a z)
    (room : (Nat.digits 10 pid).length ≤ z.length) (enough : (Nat.digits 10 pid).length ≤ fuel) :
    digitLoop fuel pid a.length (a ++ z) = some (a.length + (decimal pid).length,
      a ++ (decimal pid).reverse ++ z.drop (decimal pid).length) := by
  induction fuel generalizing pid a z with
  | zero =>
    rw [Nat.digits_def' (by decide) pos] at enough
    simp at enough
  | succ fuel ih =>
    have first := Nat.digits_def' (b := 10) (by decide) pos
    rw [first, length_cons] at room enough
    cases z with
    | nil => simp at room
    | cons y z =>
      rw [length_cons] at room
      rw [digitLoop, put_append]
      change (if 0 < pid / 10 then _ else _) = _
      have shape : (decimal pid).reverse = UInt8.ofNat (pid % 10 + 48) :: (decimal (pid / 10)).reverse := by
        simp [decimal, first]
      have length : (decimal pid).length = (decimal (pid / 10)).length + 1 := by
        rw [← length_reverse, shape, length_cons, length_reverse]
      rw [shape, length, drop_succ_cons]
      split
      · rename_i more
        have next := ih (pid / 10) more (a ++ [UInt8.ofNat (pid % 10 + 48)]) z (by omega) (by omega)
        simp only [length_append, length_singleton, append_assoc, singleton_append] at next
        rw [next, add_assoc, add_comm 1]
        simp
      · rename_i last
        have zero : pid / 10 = 0 := by omega
        simp [zero, decimal]

lemma swapLoop_eq (m : List UInt8) (fuel : Nat) (a z : List UInt8) (enough : m.length < 2 * fuel) :
    swapLoop fuel a.length (a.length + m.length - 1) (a ++ m ++ z) =
      some (a.length + m.length / 2, a ++ m.reverse ++ z) := by
  induction m using bidirectionalRec generalizing fuel a z with
  | nil =>
    obtain ⟨fuel, rfl⟩ := Nat.exists_eq_add_one_of_ne_zero (by simp at enough; omega : fuel ≠ 0)
    rw [swapLoop, if_neg (by simp)]
    simp
  | singleton x =>
    obtain ⟨fuel, rfl⟩ := Nat.exists_eq_add_one_of_ne_zero (by simp at enough; omega : fuel ≠ 0)
    rw [swapLoop, if_neg (by simp)]
    simp
  | cons_append x m y ih =>
    simp only [length_cons, length_append, length_nil] at enough
    obtain ⟨fuel, rfl⟩ := Nat.exists_eq_add_one_of_ne_zero (by omega : fuel ≠ 0)
    have far : a.length + (x :: (m ++ [y])).length - 1 = (a ++ y :: m).length := by simp
    have next := ih fuel (a ++ [y]) (x :: z) (by omega)
    have step : (a ++ y :: m).length - 1 = (a ++ [y]).length + m.length - 1 := by simp
    have whole : a ++ x :: (m ++ [y]) ++ z = a ++ x :: (m ++ y :: z) := by simp
    have here : (a ++ x :: (m ++ y :: z))[a.length]? = some x := by simp
    have there : (a ++ x :: (m ++ y :: z))[(a ++ y :: m).length]? = some y := by
      rw [getElem?_append_right (by simp)]
      simp
    have stored : put (a ++ y :: (m ++ y :: z)) (a ++ y :: m).length x = some (a ++ y :: (m ++ x :: z)) := by
      have := put_append (a ++ y :: m) y z x
      simpa using this
    rw [far, whole, swapLoop, if_pos (by simp)]
    simp only [here, there, put_append, Option.bind_eq_bind, Option.bind_some, stored, step]
    have joined : a ++ y :: (m ++ x :: z) = a ++ [y] ++ m ++ x :: z := by simp
    have length : a.length + 1 = (a ++ [y]).length := by simp
    rw [joined, length, next]
    simp
    omega

lemma copyLoop_eq (p s r fuel q t) (plain : 0 ∉ s) (enough : s.length < fuel) (room : s.length ≤ t.length) :
    copyLoop (p ++ s ++ 0 :: r) fuel p.length q.length (q ++ t) =
      some (q.length + s.length, q ++ s ++ t.drop s.length) := by
  induction s generalizing p fuel q t with
  | nil =>
    obtain ⟨fuel, rfl⟩ := Nat.exists_eq_add_one_of_ne_zero (by simp at enough; omega : fuel ≠ 0)
    simp [copyLoop]
  | cons c s ih =>
    rw [length_cons] at enough room
    obtain ⟨fuel, rfl⟩ := Nat.exists_eq_add_one_of_ne_zero (by omega : fuel ≠ 0)
    obtain ⟨ne, plain⟩ := not_or.mp (mt mem_cons.mpr plain)
    cases t with
    | nil => simp at room
    | cons y t =>
      have here : (p ++ c :: s ++ 0 :: r)[p.length]? = some c := by simp
      have next := ih (p ++ [c]) fuel (q ++ [c]) t plain (by omega) (by simpa using room)
      rw [copyLoop, here]
      simp only [Option.bind_eq_bind, Option.bind_some, if_neg (Ne.symm ne), put_append]
      simp only [append_assoc, nil_append, length_append, length_singleton, cons_append] at next ⊢
      rw [next]
      simp [add_comm, Nat.add_left_comm]

lemma decimal_plain (v) : 0 ∉ decimal v := by
  simp only [decimal, mem_reverse, mem_map, not_exists, not_and]
  intro d mem zero
  have small := Nat.digits_lt_base (by decide) mem
  have := congrArg UInt8.toNat zero
  have : (d + 48) % 256 = 0 := this
  omega

lemma decimal_length (v) : (decimal v).length = (Nat.digits 10 v).length := by simp [decimal]

variable (junk : Fin 10 → UInt8) {pid : Nat}

lemma fileName_eq (small : pid + 1000 < 10 ^ 9) :
    ∃ name, fileName junk pid = some name ∧ text name = iobound ++ half (pid + 1000) ++ suffix := by
  have nine : (Nat.digits 10 (pid + 1000)).length ≤ 9 := (Nat.digits_length_le_iff (by decide) _).mpr small
  have digits := digitLoop_eq 10 (pid + 1000) (by omega) [] (ofFn junk) (by rw [length_ofFn]; omega) (by omega)
  have plain := decimal_plain (pid + 1000)
  rw [← decimal_length] at nine
  have halves : (half (pid + 1000)).length = (decimal (pid + 1000)).length - (decimal (pid + 1000)).length / 2 :=
    length_drop
  have plain' : 0 ∉ half (pid + 1000) := fun mem => plain (mem_of_mem_drop mem)
  have split : decimal (pid + 1000) =
    (decimal (pid + 1000)).take ((decimal (pid + 1000)).length / 2) ++ half (pid + 1000) :=
    (take_append_drop _ _).symm
  have front : ((decimal (pid + 1000)).take ((decimal (pid + 1000)).length / 2)).length =
    (decimal (pid + 1000)).length / 2 := by
    rw [length_take]
    omega
  generalize decimal (pid + 1000) = w at *
  generalize half (pid + 1000) = h at *
  generalize w.take (w.length / 2) = u at *
  obtain ⟨y, z, rest⟩ : ∃ y z, (ofFn junk).drop w.length = y :: z := by
    refine exists_cons_of_ne_nil fun nil => ?_
    have := congrArg length nil
    simp at this
    omega
  have ended : put (w.reverse ++ y :: z) w.length 0 = some (w.reverse ++ 0 :: z) := by
    have := put_append w.reverse y z 0
    rwa [length_reverse] at this
  have swapped := swapLoop_eq w.reverse 10 [] (0 :: z) (by rw [length_reverse]; omega)
  have copied := copyLoop_eq u h z 10 iobound (replicate 13 0) plain' (by omega) (by simp; omega)
  have named := copyLoop_eq [] suffix [] 5 (iobound ++ h) ((replicate 13 0).drop h.length) (by decide)
    (by decide) (by simp [suffix]; omega)
  rw [front] at copied
  simp only [length_nil, nil_append, length_reverse, reverse_reverse, zero_add] at *
  have tail : ((replicate 13 (0 : UInt8)).drop h.length).drop suffix.length = 0 :: replicate (8 - h.length) 0 := by
    rw [drop_drop, drop_replicate, ← replicate_succ]
    congr 1
    simp only [suffix, length_cons, length_nil]
    omega
  have last := put_append (iobound ++ h ++ suffix) 0 (replicate (8 - h.length) 0) 0
  rw [tail, ← length_append] at named
  rw [← split, ← length_append] at copied
  refine ⟨iobound ++ h ++ suffix ++ 0 :: replicate (8 - h.length) 0, ?_, ?_⟩
  · rw [fileName, digits]
    simp only [Option.bind_eq_bind, Option.bind_some, rest, ended, swapped]
    change copyLoop _ 10 _ 7 _ = _ at copied
    simp only [copied, named, last, Option.bind_some]
  · rw [text, takeWhile_append_of_pos]
    · simp
    · intro c mem
      have ne : c ≠ 0 := by
        rintro rfl
        simp only [mem_append, plain', or_false] at mem
        exact absurd mem (by decide)
      simpa using ne

lemma fileName_long (large : 10 ^ 9 ≤ pid + 1000) (int : pid + 1000 < 2 ^ 31) : fileName junk pid = none := by
  have ten : (Nat.digits 10 (pid + 1000)).length = 10 := by
    refine le_antisymm ((Nat.digits_length_le_iff (by decide) _).mpr (by omega)) ?_
    by_contra short
    have small := (Nat.digits_length_le_iff (b := 10) (k := 9) (by decide) (pid + 1000)).mp (by omega)
    omega
  have digits := digitLoop_eq 10 (pid + 1000) (by omega) [] (ofFn junk) (by rw [length_ofFn, ten]) (by rw [ten])
  rw [← decimal_length] at ten
  simp only [ten, length_nil, nil_append, zero_add] at digits
  rw [fileName, digits]
  simp [put, ten]

/-- The names of two workers are made inside the buffers and differ just if both numbers have less than
ten digits and their second halves differ. -/
theorem names_differ_iff (junk junk' : Fin 10 → UInt8) (pid pid' : Fin (2 ^ 31 - 1000)) :
    (∃ name name', fileName junk pid = some name ∧ fileName junk' pid' = some name' ∧ text name ≠ text name') ↔
      pid.val + 1000 < 10 ^ 9 ∧ pid'.val + 1000 < 10 ^ 9 ∧ half (pid + 1000) ≠ half (pid' + 1000) := by
  constructor
  · rintro ⟨name, name', eq, eq', ne⟩
    have small : ∀ {junk} {pid : Fin (2 ^ 31 - 1000)} {name}, fileName junk pid = some name →
      pid.val + 1000 < 10 ^ 9 := by
      intro junk pid name eq
      by_contra large
      rw [fileName_long junk (not_lt.mp large) (by omega)] at eq
      cases eq
    refine ⟨small eq, small eq', fun same => ne ?_⟩
    obtain ⟨_, made, txt⟩ := fileName_eq junk (small eq)
    obtain ⟨_, made', txt'⟩ := fileName_eq junk' (small eq')
    rw [eq] at made
    rw [eq'] at made'
    cases made
    cases made'
    rw [txt, txt', same]
  · rintro ⟨small, small', ne⟩
    obtain ⟨name, made, txt⟩ := fileName_eq junk small
    obtain ⟨name', made', txt'⟩ := fileName_eq junk' small'
    refine ⟨name, name', made, made', fun same => ne ?_⟩
    rw [txt, txt'] at same
    exact List.append_cancel_left (List.append_cancel_right same)

/-- The pids 1 and 101 share the file `iobound01.txt`. -/
theorem names_collide : ∃ name, fileName (fun _ => 0) 1 = some name ∧ fileName (fun _ => 0) 101 = some name ∧
    text name = iobound ++ [48, 49] ++ suffix :=
  ⟨_, rfl, by decide, by decide⟩

end

/-- `strcpy(s, t)`; both strings are what is left of their buffers. -/
def strcpy : List UInt8 → List UInt8 → Option (List UInt8)
  | _ :: s, c :: t => if c = 0 then some (c :: s) else (strcpy s t).map (c :: ·)
  | _, _ => none

def caracteres : List UInt8 :=
  "abcdefghijklmnopqrstuvwxyzABCDEFGHIJKLMNOPQRSTUVWXYZ0123456789!@#$&*()".toUTF8.toList

/-- A line as it is written to the file, from the numbers `rand() % 70`. -/
def linha (c : Fin 100 → Fin 70) : List UInt8 := (List.ofFn fun j => caracteres.getD (c j) 0) ++ [10]

abbrev Linhas := Fin 100 → List UInt8

/-- Each line of the file is read into `buf`, which it fills, and copied from there. -/
def readLines (file : Linhas) (linhas : Linhas) : Option Linhas :=
  (List.finRange 100).foldlM (fun linhas i => do
    return Function.update linhas i (← strcpy (linhas i) (file i))) linhas

def exchange (state : Linhas × List UInt8) (rows : Fin 100 × Fin 100) : Option (Linhas × List UInt8) := do
  let (linhas, tmp) := state
  let tmp ← strcpy tmp (linhas rows.1)
  let linhas := Function.update linhas rows.1 (← strcpy (linhas rows.1) (linhas rows.2))
  let linhas := Function.update linhas rows.2 (← strcpy (linhas rows.2) tmp)
  return (linhas, tmp)

/-- The lines that are written back. -/
def permute (file heap : Linhas) (tmp : List UInt8) (rows : List (Fin 100 × Fin 100)) : Option Linhas := do
  let linhas ← readLines file heap
  let (linhas, _) ← rows.foldlM exchange (linhas, tmp)
  return fun i => (linhas i).take 101

lemma strcpy_unterminated (s t) (plain : 0 ∉ t) : strcpy s t = none := by
  induction t generalizing s with
  | nil => cases s <;> rfl
  | cons c t ih =>
    obtain ⟨ne, plain⟩ := not_or.mp (mt mem_cons.mpr plain)
    cases s with
    | nil => rfl
    | cons _ s => rw [strcpy, if_neg (Ne.symm ne), ih s plain, Option.map_none]

lemma linha_plain (c) : 0 ∉ linha c := by
  have letters : ∀ k : Fin 70, caracteres.getD k 0 ≠ 0 := by decide +kernel
  simp only [linha, mem_append, mem_ofFn, mem_singleton, not_or, not_exists]
  exact ⟨fun j => letters (c j), by decide⟩

/-- Whatever the lines and the rows are, the first copy runs past the end of `buf`. -/
theorem rows_overread (lines : Fin 100 → Fin 100 → Fin 70) (heap : Linhas) (tmp : List UInt8)
    (rows : List (Fin 100 × Fin 100)) :
    ¬ ∃ out, permute (fun i => linha (lines i)) heap tmp rows = some out ∧
      (List.ofFn out).Perm (List.ofFn fun i => linha (lines i)) := by
  rintro ⟨out, eq, -⟩
  have first : (List.finRange 100) = 0 :: (List.finRange 99).map Fin.succ := List.finRange_succ
  rw [permute, readLines, first, List.foldlM_cons, strcpy_unterminated _ _ (linha_plain (lines 0))] at eq
  cases eq

/-- All lines are `a...a`, and no rows are exchanged. -/
theorem rows_overread_same : permute (fun _ => linha fun _ => 0) (fun _ => List.replicate 102 0)
    (List.replicate 102 0) [] = none := by
  decide +kernel

end Xv6.Rows
