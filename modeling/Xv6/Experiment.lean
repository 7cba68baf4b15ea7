import Mathlib.Data.Int.ConditionallyCompleteOrder
import Mathlib.Algebra.BigOperators.Fin
import Mathlib.Algebra.Order.Chebyshev
import Mathlib.Tactic.Linarith

/-! The measurements of `user/run_experiment.c`. A round starts 20 processes and records when
each of them ends; the times are sorted, counted by seconds of ten ticks, and made into one of
four figures whose mean is the score of the round. -/

namespace Xv6.Experiment

open Function List Finset
open List (ofFn range sum_cons)
open Finset (mem_univ mem_filter mem_Icc)
open Fin (last le_last ext)

/-- The body of the inner loop. Both assignments store `terminos[k]`. -/
def exchange {n : Nat} (terminos : Fin n → Int) (j k : Fin n) : Fin n → Int :=
  if terminos k < terminos j then
    let temp := terminos k
    Function.update (Function.update terminos j (terminos k)) k temp
  else terminos

def inner {n : Nat} (terminos : Fin n → Int) (j : Fin n) : Fin n → Int :=
  ((List.finRange n).filter (j < ·)).foldl (fun terminos k => exchange terminos j k) terminos

def sortTerminos {n : Nat} (terminos : Fin n → Int) : Fin n → Int :=
  (List.finRange n).foldl inner terminos

variable {n : Nat} {ts : Fin n → Int}

lemma exchange_eq (ne : k ≠ j) : exchange ts j k = update ts j (min (ts j) (ts k)) := by
  unfold exchange
  split
  · rename_i less
    have same : update ts j (ts k) k = ts k := update_of_ne ne ..
    have keep := update_eq_self k (update ts j (ts k))
    rw [same] at keep
    rw [min_eq_right less.le]
    exact keep
  · rename_i not_less
    rw [min_eq_left (not_lt.mp not_less), update_eq_self]

structure Least (terminos : Fin n → Int) (j : Fin n) (ks : List (Fin n)) (m : Int) : Prop where
  first : m ≤ terminos j
  le : ∀ k ∈ ks, m ≤ terminos k
  mem : m = terminos j ∨ ∃ k ∈ ks, m = terminos k

lemma foldl_exchange (j : Fin n) (ks) (apart : ∀ k ∈ ks, k ≠ j) (ts) : ∃ m, Least ts j ks m ∧
    ks.foldl (fun ts k => exchange ts j k) ts = update ts j m := by
  induction ks generalizing ts with
  | nil => exact ⟨ts j, ⟨le_rfl, nofun, .inl rfl⟩, (update_eq_self ..).symm⟩
  | cons k ks ih =>
    have ne := apart k mem_cons_self
    have later : ∀ k' ∈ ks, k' ≠ j := fun k' mem => apart k' (mem_cons_of_mem _ mem)
    obtain ⟨m, least, eq⟩ := ih later (exchange ts j k)
    rw [exchange_eq ne] at least eq
    have same : ∀ k' ∈ ks, update ts j (min (ts j) (ts k)) k' = ts k' :=
      fun k' mem => update_of_ne (later k' mem) ..
    have first := least.first
    rw [update_self] at first
    refine ⟨m, ⟨first.trans (min_le_left _ _), ?_, ?_⟩, ?_⟩
    · intro k' mem
      rcases mem_cons.mp mem with rfl | mem
      · exact first.trans (min_le_right _ _)
      · exact (least.le k' mem).trans_eq (same k' mem)
    · rcases least.mem with eq | ⟨k', mem, eq⟩
      · rw [update_self] at eq
        rcases min_choice (ts j) (ts k) with left | right
        · exact .inl (eq.trans left)
        · exact .inr ⟨k, mem_cons_self, eq.trans right⟩
      · exact .inr ⟨k', mem_cons_of_mem _ mem, eq.trans (same k' mem)⟩
    · rw [foldl_cons, exchange_eq ne, eq, update_idem]

def Suffix (terminos out : Fin n → Int) (j : Fin n) : Prop :=
  (∀ k, j ≤ k → out j ≤ terminos k) ∧ ∃ k, j ≤ k ∧ out j = terminos k

lemma inner_spec (ts : Fin n → Int) (j) : Suffix ts (inner ts j) j ∧ ∀ k, k ≠ j → inner ts j k = ts k := by
  obtain ⟨m, least, eq⟩ := foldl_exchange j ((finRange n).filter (j < ·)) (fun k mem => by
    have := of_decide_eq_true (mem_filter.mp mem).2
    exact this.ne') ts
  rw [inner, eq]
  refine ⟨⟨fun k le => ?_, ?_⟩, fun k ne => update_of_ne ne ..⟩
  · rw [update_self]
    rcases le.eq_or_lt with rfl | lt
    · exact least.first
    · exact least.le k (mem_filter.mpr ⟨mem_finRange k, decide_eq_true lt⟩)
  · rw [update_self]
    rcases least.mem with eq | ⟨k, mem, eq⟩
    · exact ⟨j, le_rfl, eq⟩
    · exact ⟨k, (of_decide_eq_true (mem_filter.mp mem).2).le, eq⟩

-- The places not yet reached still hold the times that came in, and these are all that the inner
-- loop reads besides its own place.
lemma foldl_inner (js : List (Fin n)) (sorted : js.Pairwise (· < ·)) (cur)
    (untouched : ∀ j ∈ js, ∀ k, j ≤ k → cur k = ts k) :
    (∀ j ∈ js, Suffix ts (js.foldl inner cur) j) ∧ ∀ k, k ∉ js → js.foldl inner cur k = cur k := by
  induction js generalizing cur with
  | nil => exact ⟨nofun, fun _ _ => rfl⟩
  | cons j js ih =>
    obtain ⟨before, sorted⟩ := List.pairwise_cons.mp sorted
    obtain ⟨suffix, other⟩ := inner_spec cur j
    have untouched' : ∀ j' ∈ js, ∀ k, j' ≤ k → inner cur j k = ts k := by
      intro j' mem k le
      rw [other k ((before j' mem).trans_le le).ne']
      exact untouched j' (List.mem_cons_of_mem _ mem) k le
    obtain ⟨rest, kept⟩ := ih sorted (inner cur j) untouched'
    have here := kept j fun mem => (before j mem).false
    refine ⟨fun j' mem => ?_, fun k mem => ?_⟩
    · rw [List.foldl_cons]
      rcases List.mem_cons.mp mem with rfl | mem
      · have same := untouched j' List.mem_cons_self
        refine ⟨fun k le => ?_, ?_⟩
        · rw [here, ← same k le]
          exact suffix.1 k le
        · obtain ⟨k, le, eq⟩ := suffix.2
          exact ⟨k, le, by rw [here, eq, same k le]⟩
      · exact rest j' mem
    · rw [List.mem_cons, not_or] at mem
      rw [List.foldl_cons, kept k mem.2, other k mem.1]

lemma sortTerminos_suffix (ts : Fin n → Int) (j) : Suffix ts (sortTerminos ts) j :=
  (foldl_inner (finRange n) (pairwise_lt_finRange n) ts fun _ _ _ _ => rfl).1 j (mem_finRange j)

lemma sortTerminos_le (ts : Fin n → Int) (j) : sortTerminos ts j ≤ ts j := (sortTerminos_suffix ts j).1 j le_rfl

lemma sortTerminos_monotone (ts : Fin n → Int) : Monotone (sortTerminos ts) := by
  intro j j' le
  obtain ⟨k, le', eq⟩ := (sortTerminos_suffix ts j').2
  rw [eq]
  exact (sortTerminos_suffix ts j).1 k (le.trans le')

lemma sortTerminos_of_monotone (mono : Monotone ts) : sortTerminos ts = ts := by
  funext j
  obtain ⟨k, le, eq⟩ := (sortTerminos_suffix ts j).2
  refine le_antisymm (sortTerminos_le ts j) ?_
  rw [eq]
  exact mono le

/-- The loop leaves the times in order. It also keeps them all just if they came in order: a time
that should move is overwritten. -/
theorem sorted_without_loss_iff (terminos : Fin 20 → Int) : (Monotone (sortTerminos terminos) ∧
    (ofFn (sortTerminos terminos)).Perm (ofFn terminos)) ↔ Monotone terminos := by
  constructor
  · rintro ⟨mono, perm⟩
    have sums : ∑ j, sortTerminos terminos j = ∑ j, terminos j := by
      rw [← List.sum_ofFn, ← List.sum_ofFn]
      exact perm.sum_eq
    have same := (Finset.sum_eq_sum_iff_of_le fun j _ => sortTerminos_le terminos j).mp sums
    have eq := funext fun j => same j (mem_univ j)
    rwa [eq] at mono
  · intro mono
    rw [sortTerminos_of_monotone mono]
    exact ⟨mono, .refl _⟩

/-- One process ends at 5 and the other nineteen at 3: all twenty times become 3. -/
def late (j : Fin 20) : Int := if j = 0 then 5 else 3

theorem sort_loses_time : ¬ (ofFn (sortTerminos late)).Perm (ofFn late) := by
  intro perm
  have mem : (5 : Int) ∈ ofFn (sortTerminos late) := perm.mem_iff.mpr (by decide)
  obtain ⟨j, eq⟩ := List.mem_ofFn.mp mem
  have le := (sortTerminos_suffix late j).1 (last 19) (le_last j)
  have three : late (last 19) = 3 := by decide
  rw [eq, three] at le
  exact absurd le (by decide)

/-- What can go wrong in C; `fuel` says only that the model has not run long enough. -/
inductive Fault
  | bounds
  | overflow
  | zero
  | fuel
  deriving DecidableEq, Repr

/-- A result of type `int`. -/
def int32 (x : Int) : Except Fault Int :=
  if -2 ^ 31 ≤ x ∧ x < 2 ^ 31 then .ok x else .error .overflow

def bucketLoop (terminos : Fin 20 → Int) :
    Nat → Nat → Nat → (Fin 300 → Nat) → Except Fault (Nat × (Fin 300 → Nat))
  | 0, _, _, _ => .error .fuel
  | fuel + 1, index, segundoAtual, vazoes =>
    if h : index < 20 then do
      let limite ← int32 (10 * segundoAtual)
      if terminos ⟨index, h⟩ ≤ limite then
        if inside : segundoAtual < 300 then
          bucketLoop terminos fuel (index + 1) segundoAtual
            (Function.update vazoes ⟨segundoAtual, inside⟩ (vazoes ⟨segundoAtual, inside⟩ + 1))
        else .error .bounds
      else bucketLoop terminos fuel index (segundoAtual + 1) vazoes
    else .ok (segundoAtual, vazoes)

def buckets (fuel : Nat) (terminos : Fin 20 → Int) : Except Fault (Nat × (Fin 300 → Nat)) :=
  bucketLoop terminos fuel 0 0 fun _ => 0

/-- The second in which a process ends: its time in tens of ticks, rounded up. -/
def second (time : Int) : Nat := ((time + 9) / 10).toNat

lemma second_le : second time ≤ s ↔ time ≤ 10 * s := by
  unfold second
  omega

lemma second_mono (le : time ≤ time') : second time ≤ second time' :=
  second_le.mpr (le.trans (second_le.mp le_rfl))

lemma int32_ok (low : -2 ^ 31 ≤ x) (high : x < 2 ^ 31) : int32 x = .ok x := if_pos ⟨low, high⟩

variable {ts : Fin 20 → Int}

def ends (terminos : Fin 20 → Int) (s : Nat) : Finset (Fin 20) := {j | second (terminos j) = s}

/-- The loop invariant: the processes before `index` have been counted, the others end now or later. -/
structure Counted (terminos : Fin 20 → Int) (index segundoAtual : Nat) (vazoes : Fin 300 → Nat) : Prop where
  le : index ≤ 20
  ahead : ∀ j : Fin 20, index ≤ j → segundoAtual ≤ second (terminos j)
  last : index = 20 → segundoAtual = second (terminos (Fin.last 19))
  count : ∀ s : Fin 300, vazoes s = ((ends terminos s).filter fun j => j.val < index).card

lemma Counted.start : Counted ts 0 0 fun _ => 0 := by
  refine ⟨by decide, fun _ _ => Nat.zero_le _, nofun, fun s => ?_⟩
  rw [filter_false_of_mem fun j _ => Nat.not_lt_zero _, card_empty]

lemma Counted.wait (mono : Monotone ts) (counted : Counted ts index segundoAtual vazoes) (h : index < 20)
    (later : segundoAtual < second (ts ⟨index, h⟩)) :
    Counted ts index (segundoAtual + 1) vazoes := by
  refine ⟨counted.le, fun j le => ?_, fun eq => absurd eq h.ne, counted.count⟩
  exact later.trans_le (second_mono (mono le))

lemma Counted.count_one (mono : Monotone ts) (h : index < 20) (inside : second (ts ⟨index, h⟩) < 300)
    (counted : Counted ts index (second (ts ⟨index, h⟩)) vazoes) :
    Counted ts (index + 1) (second (ts ⟨index, h⟩)) (update vazoes ⟨_, inside⟩ (vazoes ⟨_, inside⟩ + 1)) := by
  have split : ∀ s, (ends ts s).filter (fun j => j.val < index + 1) =
    if second (ts ⟨index, h⟩) = s then
      insert ⟨index, h⟩ ((ends ts s).filter fun j => j.val < index)
    else (ends ts s).filter fun j => j.val < index := by
    intro s
    ext j
    have same : j.val = index ↔ j = ⟨index, h⟩ := by rw [Fin.ext_iff]
    split
    · rename_i here
      simp only [ends, Finset.mem_filter, Finset.mem_univ, true_and, Finset.mem_insert, Nat.lt_succ_iff_lt_or_eq, same]
      constructor
      · rintro ⟨eq, lt | rfl⟩
        · exact .inr ⟨eq, lt⟩
        · exact .inl rfl
      · rintro (rfl | ⟨eq, lt⟩)
        · exact ⟨here, .inr rfl⟩
        · exact ⟨eq, .inl lt⟩
    · rename_i other
      simp only [ends, Finset.mem_filter, Finset.mem_univ, true_and, Nat.lt_succ_iff_lt_or_eq, same]
      constructor
      · rintro ⟨eq, lt | rfl⟩
        · exact ⟨eq, lt⟩
        · exact absurd eq other
      · rintro ⟨eq, lt⟩
        exact ⟨eq, .inl lt⟩
  refine ⟨h, fun j le => second_mono (mono (Nat.le_of_succ_le le)), fun eq => ?_, fun s => ?_⟩
  · have last : index = 19 := by omega
    subst last
    rfl
  · rw [split]
    by_cases here : second (ts ⟨index, h⟩) = s
    · have slot : s = ⟨_, inside⟩ := Fin.ext here.symm
      rw [if_pos here, Finset.card_insert_of_notMem (by simp), ← counted.count s, slot, update_self]
    · have slot : s ≠ ⟨_, inside⟩ := fun eq => here (Fin.val_eq_of_eq eq).symm
      rw [if_neg here, update_of_ne slot]
      exact counted.count s

lemma bucketLoop_eq (mono : Monotone ts) (short : ts (last 19) ≤ 2990) (fuel index segundoAtual)
    (vazoes) (counted : Counted ts index segundoAtual vazoes)
    (reached : segundoAtual ≤ second (ts (last 19)))
    (enough : 20 - index + (second (ts (last 19)) - segundoAtual) < fuel) :
    ∃ total, bucketLoop ts fuel index segundoAtual vazoes = .ok (second (ts (last 19)), total) ∧
      Counted ts 20 (second (ts (last 19))) total := by
  have bound : second (ts (last 19)) ≤ 299 := second_le.mpr short
  induction fuel generalizing index segundoAtual vazoes with
  | zero => omega
  | succ fuel ih =>
    unfold bucketLoop
    by_cases h : index < 20
    · have small : int32 (10 * segundoAtual) = .ok (10 * segundoAtual) := int32_ok (by omega) (by omega)
      have last : second (ts ⟨index, h⟩) ≤ second (ts (last 19)) := second_mono (mono (le_last _))
      have ahead := counted.ahead ⟨index, h⟩ le_rfl
      rw [dif_pos h, small]
      change ∃ total, (if ts ⟨index, h⟩ ≤ 10 * segundoAtual then _ else _) = _ ∧ _
      by_cases now : ts ⟨index, h⟩ ≤ 10 * segundoAtual
      · have here : segundoAtual = second (ts ⟨index, h⟩) := le_antisymm ahead (second_le.mpr now)
        subst here
        have inside : second (ts ⟨index, h⟩) < 300 := by omega
        rw [if_pos now, dif_pos inside]
        exact ih (index + 1) _ _ (counted.count_one mono h inside) reached (by omega)
      · have later := lt_of_not_ge fun le => now (second_le.mp le)
        rw [if_neg now]
        exact ih index (segundoAtual + 1) vazoes (counted.wait mono h later) (by omega) (by omega)
    · have all : index = 20 := le_antisymm counted.le (not_lt.mp h)
      subst all
      rw [dif_neg h, counted.last rfl]
      refine ⟨vazoes, rfl, ?_⟩
      rw [← counted.last rfl]
      exact counted

lemma Counted.total (counted : Counted ts 20 s vazoes) (k) : vazoes k = (ends ts k).card := by
  rw [counted.count k, filter_true_of_mem fun j _ => j.isLt]

lemma sum_ends (inside : ∀ j, second (ts j) < 300) : ∑ s : Fin 300, (ends ts s).card = 20 := by
  have maps : ∀ j ∈ (univ : Finset (Fin 20)),
    (⟨second (ts j), inside j⟩ : Fin 300) ∈ (univ : Finset (Fin 300)) := fun _ _ => mem_univ _
  have fibers := card_eq_sum_card_fiberwise maps
  refine Eq.trans (sum_congr rfl fun s _ => ?_) fibers.symm
  congr 1
  ext j
  simp [ends, Fin.ext_iff]

lemma buckets_eq (mono : Monotone ts) (short : ts (Fin.last 19) ≤ 2990)
    (enough : 320 ≤ fuel) : ∃ vazoes, buckets fuel ts = .ok (second (ts (Fin.last 19)), vazoes) ∧
      ∀ s, vazoes s = (ends ts s).card := by
  have bound : second (ts (Fin.last 19)) ≤ 299 := second_le.mpr short
  obtain ⟨vazoes, eq, counted⟩ := bucketLoop_eq mono short fuel 0 0 _ Counted.start (Nat.zero_le _) (by omega)
  exact ⟨vazoes, eq, counted.total⟩

/-- A round is counted to its end only if it lasts no longer than the array has seconds for. -/
lemma bucketLoop_short (fuel index segundoAtual vazoes) (h : index < 20)
    (eq : bucketLoop ts fuel index segundoAtual vazoes = .ok (lim, total)) : ts (last 19) ≤ 2990 := by
  induction fuel generalizing index segundoAtual vazoes with
  | zero => cases eq
  | succ fuel ih =>
    rw [bucketLoop, dif_pos h] at eq
    unfold int32 at eq
    split at eq
    · change (if ts ⟨index, h⟩ ≤ 10 * segundoAtual then _ else _) = _ at eq
      split at eq
      · rename_i now
        split at eq
        · rename_i inside
          by_cases last : index = 19
          · subst last
            exact now.trans (by omega)
          · exact ih (index + 1) _ _ (by omega) eq
        · cases eq
      · exact ih index _ _ h eq
    · cases eq

lemma buckets_short (eq : buckets fuel ts = .ok (lim, vazoes)) : ts (last 19) ≤ 2990 :=
  bucketLoop_short fuel 0 0 _ (by decide) eq

/-- The histogram counts the round just if it lasts no longer than the array has seconds for. -/
theorem histogram_counts (terminos : Fin 20 → Int) (mono : Monotone terminos) (fuel : Nat) (enough : 320 ≤ fuel) :
    (∃ vazoes, buckets fuel terminos = .ok (second (terminos (last 19)), vazoes) ∧
      (∀ s : Fin 300, vazoes s = (ends terminos s).card) ∧ ∑ s, vazoes s = 20) ↔ terminos (last 19) ≤ 2990 := by
  refine ⟨fun ⟨_, eq, _⟩ => buckets_short eq, fun short => ?_⟩
  have bound : second (terminos (last 19)) ≤ 299 := second_le.mpr short
  obtain ⟨vazoes, eq, total⟩ := buckets_eq mono short enough
  refine ⟨vazoes, eq, total, ?_⟩
  rw [Finset.sum_congr rfl fun s _ => total s]
  exact sum_ends fun j => (second_mono (mono (le_last j))).trans_lt (by omega)

/-- Process `j` ends at `100 j`, the last one after 190 seconds. -/
theorem histogram_counts_spread : ∃ vazoes, buckets 320 (fun j => 100 * j.val) = .ok (190, vazoes) ∧
    (∀ s : Fin 300, vazoes s = (ends (fun j => 100 * j.val) s).card) ∧ ∑ s, vazoes s = 20 :=
  (histogram_counts (fun j => 100 * j.val) (fun j j' le => by have : j.val ≤ j'.val := le; dsimp only; omega) 320
    le_rfl).mpr (by decide)

/-- A round in which all processes end at 2991 is counted past the end of the array. -/
theorem histogram_out_of_bounds : buckets 400 (fun _ => 2991) = .error .bounds := by decide +kernel

def extremes (vazoes : Fin 300 → Nat) : List Nat → Int × Int → Except Fault (Int × Int)
  | [], e => .ok e
  | j :: js, (vazaoMin, vazaoMax) =>
    if h : j < 300 then
      let vazao : Int := vazoes ⟨j, h⟩
      extremes vazoes js (if vazao < vazaoMin then vazao else vazaoMin,
        if vazaoMax < vazao then vazao else vazaoMax)
    else .error .bounds

/-- Division of C. -/
def div (a b : Int) : Except Fault Int := if b = 0 then .error .zero else .ok (a.tdiv b)

/-- A conversion to `int`. -/
def toInt (x : Int) : Int := x.bmod (2 ^ 32)

def normalise (lim : Nat) (vazaoMin vazaoMax : Int) : Except Fault Int := do
  let vazaoMedia ← div (20 * 100000) lim
  let nominador := vazaoMedia - vazaoMin * 100000
  let denominador := vazaoMax * 100000 - vazaoMin * 100000
  let quotient ← div (nominador * 100000) denominador
  return toInt (100000 - quotient)

def sumInt : List Int → Int → Except Fault Int
  | [], soma => .ok soma
  | x :: xs, soma => do
    let soma ← int32 (soma + x)
    sumInt xs soma

/-- What the metric calls return for the 20 processes, how many are I/O bound, and what the heap
holds where `eficiencias` is allocated. -/
structure Metrics where
  eficiencia : Fin 20 → Int
  overhead : Fin 20 → Int
  justica : Fin 20 → Int
  y : Nat
  heap : Nat → Int

def fillEficiencias (y : Nat) : List Int → Nat → (Nat → Int) → Except Fault (Nat → Int)
  | [], _, eficiencias => .ok eficiencias
  | e :: es, l, eficiencias =>
    if 0 ≤ e then
      if l < y then fillEficiencias y es (l + 1) (Function.update eficiencias l e)
      else .error .bounds
    else fillEficiencias y es l eficiencias

def eficienciaSoma (m : Metrics) : Except Fault Int := do
  let eficiencias ← fillEficiencias m.y (List.ofFn m.eficiencia) 0 m.heap
  sumInt ((List.range m.y).map eficiencias) 0

def overheadSoma (m : Metrics) : Except Fault Int := sumInt (List.ofFn m.overhead) 0

def sumJusticas : List Int → Int → Int → Except Fault (Int × Int)
  | [], soma, quadrado => .ok (soma, quadrado)
  | x :: xs, soma, quadrado => do
    let square ← int32 (x * x)
    sumJusticas xs (soma + x) (quadrado + square)

def justicaFim (m : Metrics) : Except Fault Int := do
  let (soma, quadrado) ← sumJusticas (List.ofFn m.justica) 0 0
  let quotient ← div (soma * soma * 100000) (20 * quadrado)
  return toInt quotient

def vazaoNorm (fuel : Nat) (terminos : Fin 20 → Int) : Except Fault Int := do
  let (lim, vazoes) ← buckets fuel terminos
  let (vazaoMin, vazaoMax) ← extremes vazoes (List.range (lim + 1)) (10000, -10)
  normalise lim vazaoMin vazaoMax

def desempenho (fuel : Nat) (terminos : Fin 20 → Int) (m : Metrics) : Except Fault Int := do
  let vazao ← vazaoNorm fuel terminos
  let eficiencia ← div 100000 (← eficienciaSoma m)
  let overhead ← div 100000 (← overheadSoma m)
  let justica ← justicaFim m
  let soma ← sumInt [overhead, eficiencia, vazao, justica] 0
  return soma / 4

variable {vazoes : Fin 300 → Nat}

/-- What the loop over the seconds `js` finds, from the values it starts with. -/
structure Extreme (vazoes : Fin 300 → Nat) (js : List Nat) (start found : Int × Int) : Prop where
  min_le : ∀ j : Fin 300, j.val ∈ js → found.1 ≤ vazoes j
  le_max : ∀ j : Fin 300, j.val ∈ js → vazoes j ≤ found.2
  min_start : found.1 ≤ start.1
  max_start : start.2 ≤ found.2
  min_mem : found.1 = start.1 ∨ ∃ j : Fin 300, j.val ∈ js ∧ found.1 = vazoes j
  max_mem : found.2 = start.2 ∨ ∃ j : Fin 300, j.val ∈ js ∧ found.2 = vazoes j

lemma extremes_eq (vazoes js) (inside : ∀ j ∈ js, j < 300) (start) :
    ∃ found, extremes vazoes js start = .ok found ∧ Extreme vazoes js start found := by
  induction js generalizing start with
  | nil => exact ⟨start, rfl, nofun, nofun, le_rfl, le_rfl, .inl rfl, .inl rfl⟩
  | cons j js ih =>
    obtain ⟨lo, hi⟩ := start
    have h := inside j mem_cons_self
    obtain ⟨found, eq, spec⟩ := ih (fun j' mem => inside j' (mem_cons_of_mem _ mem))
      (if (vazoes ⟨j, h⟩ : Int) < lo then vazoes ⟨j, h⟩ else lo,
        if hi < (vazoes ⟨j, h⟩ : Int) then vazoes ⟨j, h⟩ else hi)
    have low : found.1 ≤ lo ∧ found.1 ≤ vazoes ⟨j, h⟩ := by
      have := spec.min_start
      split at this <;> omega
    have high : hi ≤ found.2 ∧ (vazoes ⟨j, h⟩ : Int) ≤ found.2 := by
      have := spec.max_start
      split at this <;> omega
    refine ⟨found, ?_, ?_, ?_, low.1, high.1, ?_, ?_⟩
    · rw [extremes, dif_pos h]
      exact eq
    · intro j' mem
      rcases mem_cons.mp mem with same | mem
      · obtain rfl : j' = ⟨j, h⟩ := ext same
        exact low.2
      · exact spec.min_le j' mem
    · intro j' mem
      rcases mem_cons.mp mem with same | mem
      · obtain rfl : j' = ⟨j, h⟩ := ext same
        exact high.2
      · exact spec.le_max j' mem
    · rcases spec.min_mem with eq | ⟨j', mem, eq⟩
      · dsimp only at eq
        split at eq
        · exact .inr ⟨⟨j, h⟩, mem_cons_self, eq⟩
        · exact .inl eq
      · exact .inr ⟨j', mem_cons_of_mem _ mem, eq⟩
    · rcases spec.max_mem with eq | ⟨j', mem, eq⟩
      · dsimp only at eq
        split at eq
        · exact .inr ⟨⟨j, h⟩, mem_cons_self, eq⟩
        · exact .inl eq
      · exact .inr ⟨j', mem_cons_of_mem _ mem, eq⟩

lemma toInt_small (low : -2 ^ 31 ≤ x) (high : x < 2 ^ 31) : toInt x = x := Int.bmod_eq_of_le (by omega) (by omega)

lemma div_eq (low : 0 ≤ a) (pos : 0 < b) : div a b = .ok (a / b) := by
  rw [div, if_neg pos.ne', Int.tdiv_eq_ediv_of_nonneg low]

/-- Two of the seconds that are looked at have different counts. -/
def Uneven (ts : Fin 20 → Int) : Prop := ∃ s s', s ≤ second (ts (last 19)) ∧ s' ≤ second (ts (last 19)) ∧
  (ends ts s).card ≠ (ends ts s').card

/-- The least and the greatest count of the seconds of a round. -/
structure Spread (ts : Fin 20 → Int) (lo hi : Int) : Prop where
  between : ∀ s ≤ second (ts (last 19)), lo ≤ (ends ts s).card ∧ ((ends ts s).card : Int) ≤ hi
  least : ∃ s ≤ second (ts (last 19)), lo = (ends ts s).card
  greatest : ∃ s ≤ second (ts (last 19)), hi = (ends ts s).card

lemma extremes_spread (short : ts (last 19) ≤ 2990) (total : ∀ s, vazoes s = (ends ts s).card) :
    ∃ lo hi, extremes vazoes (List.range (second (ts (last 19)) + 1)) (10000, -10) = .ok (lo, hi) ∧
      Spread ts lo hi := by
  have bound : second (ts (last 19)) ≤ 299 := second_le.mpr short
  obtain ⟨⟨lo, hi⟩, eq, spec⟩ := extremes_eq vazoes (List.range (second (ts (last 19)) + 1)) (fun j mem => by
    have := List.mem_range.mp mem
    omega) (10000, -10)
  have between : ∀ s ≤ second (ts (last 19)), lo ≤ (ends ts s).card ∧ ((ends ts s).card : Int) ≤ hi := by
    intro s le
    have listed : s ∈ List.range (second (ts (last 19)) + 1) := List.mem_range.mpr (by omega)
    have low := spec.min_le ⟨s, by omega⟩ listed
    have high := spec.le_max ⟨s, by omega⟩ listed
    rw [total] at low high
    exact ⟨low, high⟩
  have first := between 0 (Nat.zero_le _)
  have small : (ends ts 0).card ≤ 20 := Finset.card_le_univ _
  have found : ∀ {c : Int}, (∃ j : Fin 300, j.val ∈ List.range (second (ts (last 19)) + 1) ∧ c = vazoes j) →
      ∃ s ≤ second (ts (last 19)), c = (ends ts s).card := by
    rintro c ⟨j, mem, eq⟩
    exact ⟨j, Nat.lt_succ_iff.mp (List.mem_range.mp mem), by rw [eq, total]⟩
  -- the counts are far from the values that the loop starts with
  refine ⟨lo, hi, eq, between, found (spec.min_mem.resolve_left ?_), found (spec.max_mem.resolve_left ?_)⟩
  · rintro rfl
    omega
  · rintro rfl
    omega

lemma Spread.uneven_iff (spread : Spread ts lo hi) : lo < hi ↔ Uneven ts := by
  obtain ⟨between, ⟨s, le, rfl⟩, ⟨s', le', rfl⟩⟩ := spread
  refine ⟨fun less => ⟨s, s', le, le', fun eq => ?_⟩, ?_⟩
  · omega
  · rintro ⟨t, t', tle, tle', ne⟩
    have := between t tle
    have := between t' tle'
    omega

/-- No second can have more than its share of the 20 processes at least. -/
lemma Spread.least_le (spread : Spread ts lo hi) (mono : Monotone ts) (short : ts (last 19) ≤ 2990) :
    lo * second (ts (last 19)) ≤ 20 := by
  have bound : second (ts (last 19)) ≤ 299 := second_le.mpr short
  have all := sum_ends fun j => (second_mono (mono (le_last j))).trans_lt (by omega)
  rw [Fin.sum_univ_eq_sum_range fun s => (ends ts s).card] at all
  have part : ∑ s ∈ Finset.range (second (ts (last 19))), (ends ts s).card ≤ 20 := by
    refine (sum_le_sum_of_subset fun s mem => ?_).trans all.le
    rw [Finset.mem_range] at mem ⊢
    omega
  have low := card_nsmul_le_sum (Finset.range (second (ts (last 19)))) (fun s => ((ends ts s).card : Int)) lo
    fun s mem => (spread.between s (Finset.mem_range.mp mem).le).1
  rw [Finset.card_range, nsmul_eq_mul, mul_comm] at low
  exact low.trans (by exact_mod_cast part)

lemma normalise_eq {lim : Nat} {lo hi : Int} (pos : 0 < lim) (nonneg : 0 ≤ lo) (low : lo * lim ≤ 20)
    (spread : lo < hi) :
    0 ≤ 2000000 / (lim : Int) - lo * 100000 ∧ 2000000 / (lim : Int) ≤ 2000000 ∧
      normalise lim lo hi = .ok (100000 - (2000000 / lim - lo * 100000) / (hi - lo)) := by
  have limPos : (0 : Int) < lim := by omega
  have mean : lo * 100000 ≤ 2000000 / lim := by
    rw [Int.le_ediv_iff_mul_le limPos]
    linarith [mul_right_comm lo 100000 (lim : Int)]
  have most : 2000000 / (lim : Int) ≤ 2000000 := Int.ediv_le_self _ (by decide)
  refine ⟨by omega, most, ?_⟩
  unfold normalise
  rw [div_eq (by decide) limPos]
  change (div ((2000000 / lim - lo * 100000) * 100000) (hi * 100000 - lo * 100000) >>= _) = _
  generalize (2000000 : Int) / lim = media at *
  rw [div_eq (by omega) (by omega), ← sub_mul, Int.mul_ediv_mul_of_pos_left _ _ (by decide)]
  have quotient_nonneg : 0 ≤ (media - lo * 100000) / (hi - lo) := Int.ediv_nonneg (by omega) (by omega)
  have quotient_le : (media - lo * 100000) / (hi - lo) ≤ media - lo * 100000 := Int.ediv_le_self _ (by omega)
  change Except.ok (toInt _) = _
  rw [toInt_small (by omega) (by omega)]

/-- A round is short enough to be counted, and its mean over `lim` seconds is not so far above the greatest count of
a second that the throughput falls below `-slack`. -/
def Balanced (ts : Fin 20 → Int) (slack : Nat) : Prop :=
  ts (last 19) ≤ 2990 ∧ ∃ s s', s ≤ second (ts (last 19)) ∧ s' ≤ second (ts (last 19)) ∧
    2000000 / second (ts (last 19)) + (slack + 1) * (ends ts s').card < (100001 + slack) * (ends ts s).card

lemma vazaoNorm_eq (mono : Monotone ts) (short : ts (last 19) ≤ 2990) (enough : 320 ≤ fuel)
    (pos : 0 < second (ts (last 19))) (uneven : Uneven ts) : ∃ norm, vazaoNorm fuel ts = .ok norm ∧
      -2000000 ≤ norm ∧ norm ≤ 100000 ∧ ∀ slack : Nat, -(slack : Int) ≤ norm ↔ Balanced ts slack := by
  obtain ⟨vazoes, counted, total⟩ := buckets_eq mono short enough
  obtain ⟨lo, hi, found, spread⟩ := extremes_spread short total
  have less := spread.uneven_iff.mpr uneven
  have nonneg : 0 ≤ lo := by
    obtain ⟨s, -, rfl⟩ := spread.least
    exact Int.natCast_nonneg _
  obtain ⟨above, most, eq⟩ := normalise_eq pos nonneg (spread.least_le mono short) less
  have throughput : vazaoNorm fuel ts = normalise (second (ts (last 19))) lo hi := by
    unfold vazaoNorm
    rw [counted]
    change (extremes vazoes _ _ >>= _) = _
    rw [found]
    rfl
  refine ⟨_, throughput.trans eq, ?_, ?_, fun slack => ?_⟩
  · have := Int.ediv_le_self (hi - lo) above
    omega
  · have := Int.ediv_nonneg above (by omega : 0 ≤ hi - lo)
    omega
  have exact_ : -(slack : Int) ≤ 100000 - (2000000 / (second (ts (last 19)) : Int) - lo * 100000) / (hi - lo) ↔
      2000000 / (second (ts (last 19)) : Int) + (slack + 1) * lo < (100001 + slack) * hi := by
    have lt := Int.ediv_lt_iff_lt_mul (a := 2000000 / (second (ts (last 19)) : Int) - lo * 100000)
      (b := 100001 + slack) (c := hi - lo) (by omega)
    have expand : (100001 + (slack : Int)) * (hi - lo) = (100001 + slack) * hi - ((slack + 1) * lo + 100000 * lo) := by
      ring
    rw [expand] at lt
    constructor <;> intro h <;> omega
  rw [exact_]
  have media : ((2000000 / second (ts (last 19)) : Nat) : Int) = 2000000 / (second (ts (last 19)) : Int) := by simp
  constructor
  · intro fits
    obtain ⟨s', le', rfl⟩ := spread.least
    obtain ⟨s, le, rfl⟩ := spread.greatest
    refine ⟨short, s, s', le, le', ?_⟩
    rw [← media] at fits
    exact_mod_cast fits
  · rintro ⟨-, s, s', le, le', fits⟩
    have low := mul_le_mul_of_nonneg_left (spread.between s' le').1 (by omega : 0 ≤ (slack : Int) + 1)
    have high := mul_le_mul_of_nonneg_left (spread.between s le).2 (by omega : 0 ≤ 100001 + (slack : Int))
    have fits' : 2000000 / (second (ts (last 19)) : Int) + (slack + 1) * (ends ts s').card <
        (100001 + slack) * (ends ts s).card := by
      rw [← media]
      exact_mod_cast fits
    omega

lemma sumInt_small (xs) (bounded : ∀ x ∈ xs, -2 ^ 22 ≤ x ∧ x ≤ 2 ^ 22) (soma : Int)
    (low : -2 ^ 31 ≤ soma - 2 ^ 22 * xs.length) (high : soma + 2 ^ 22 * xs.length < 2 ^ 31) :
    sumInt xs soma = .ok (soma + xs.sum) := by
  induction xs generalizing soma with
  | nil => simp [sumInt]
  | cons x xs ih =>
    have here := bounded x List.mem_cons_self
    rw [List.length_cons] at low high
    rw [sumInt, int32_ok (by omega) (by omega)]
    change sumInt xs (soma + x) = _
    rw [ih (fun x mem => bounded x (List.mem_cons_of_mem _ mem)) (soma + x) (by omega) (by omega),
      List.sum_cons, add_assoc]

lemma sumJusticas_eq (xs) (small : ∀ x ∈ xs, x * x < 2 ^ 31) (soma quadrado) :
    sumJusticas xs soma quadrado = .ok (soma + xs.sum, quadrado + (xs.map fun x => x * x).sum) := by
  induction xs generalizing soma quadrado with
  | nil => simp [sumJusticas]
  | cons x xs ih =>
    have nonneg := mul_self_nonneg x
    rw [sumJusticas, int32_ok (by omega) (small x mem_cons_self)]
    change sumJusticas xs (soma + x) (quadrado + x * x) = _
    rw [ih fun x mem => small x (mem_cons_of_mem _ mem)]
    simp [add_assoc]

lemma inverse_range (pos : 0 < soma) :
    div 100000 soma = .ok (100000 / soma) ∧ 0 ≤ 100000 / soma ∧ 100000 / soma ≤ 100000 :=
  ⟨div_eq (by decide) pos, Int.ediv_nonneg (by decide) pos.le, Int.ediv_le_self _ (by decide)⟩

def early (j : Fin 20) : Int := if j.val < 9 then 0 else 10

/-- The mean is taken over one second less than the extremes: here it is 20, and the most is 11. -/
theorem throughput_below_zero : ∃ vazoes, buckets 320 early = .ok (1, vazoes) ∧
    extremes vazoes (range 2) (10000, -10) = .ok (9, 11) ∧ vazaoNorm 320 early = .ok (-450000) :=
  ⟨_, rfl, by decide +kernel, by decide +kernel⟩

def regular (j : Fin 20) : Int := if j.val < 9 then 10 else 20

def unitMetrics : Metrics := ⟨fun k => if k.val < 10 then 1 else -1, fun _ => 1, fun _ => 1, 10, fun _ => 0⟩

end Xv6.Experiment
