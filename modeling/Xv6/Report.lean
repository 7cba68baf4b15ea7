import Xv6.Experiment

/-! The divisors, the buffer, the fairness index and the score of `user/run_experiment.c`, from what the 20
children of a round have left in the kernel's tables. -/

namespace Xv6.Experiment

open List Finset
open List (range mem_range ofFn)
open Fin (last)

/-- The table of efficiencies after a round whose first `x` children run `graphs` and the others `rows`.
An entry is 0 until its child reports: `graphs` an efficiency of -1, `rows` its total. -/
def eficienciaTable (x : Fin 21) (report : Fin 20 → Option Nat) (k : Fin 20) : Int :=
  match report k with
  | none => 0
  | some total => if k.val < x then -1 else total

section

variable {y : Nat}

lemma fillEficiencias_room (es l eficiencias) (room : l + (es.filter (0 ≤ ·)).length ≤ y) :
    ∃ filled, fillEficiencias y es l eficiencias = .ok filled ∧
      (List.range (l + (es.filter (0 ≤ ·)).length)).map filled =
        (List.range l).map eficiencias ++ es.filter (0 ≤ ·) := by
  induction es generalizing l eficiencias with
  | nil => exact ⟨eficiencias, rfl, by simp⟩
  | cons e es ih =>
    by_cases nonneg : 0 ≤ e
    · rw [List.filter_cons_of_pos (by simpa using nonneg), List.length_cons] at room ⊢
      obtain ⟨filled, eq, stored⟩ := ih (l + 1) (Function.update eficiencias l e) (by omega)
      refine ⟨filled, ?_, ?_⟩
      · rw [fillEficiencias, if_pos nonneg, if_pos (by omega), eq]
      · have before : (List.range l).map (Function.update eficiencias l e) = (List.range l).map eficiencias :=
          List.map_congr_left fun i mem => Function.update_of_ne (List.mem_range.mp mem).ne ..
        rw [Nat.add_right_comm, Nat.add_assoc] at stored
        rw [stored, List.range_succ, List.map_append, before]
        simp
    · rw [List.filter_cons_of_neg (by simpa using nonneg)] at room ⊢
      rw [fillEficiencias, if_neg nonneg]
      exact ih l eficiencias room

lemma fillEficiencias_full (es l eficiencias) (full : y < l + (es.filter (0 ≤ ·)).length) (le : l ≤ y) :
    fillEficiencias y es l eficiencias = .error .bounds := by
  induction es generalizing l eficiencias with
  | nil => exact absurd full (by simpa using le)
  | cons e es ih =>
    by_cases nonneg : 0 ≤ e
    · rw [List.filter_cons_of_pos (by simpa using nonneg), List.length_cons] at full
      rw [fillEficiencias, if_pos nonneg]
      split
      · exact ih (l + 1) _ (by omega) (by omega)
      · rfl
    · rw [List.filter_cons_of_neg (by simpa using nonneg)] at full
      rw [fillEficiencias, if_neg nonneg]
      exact ih l eficiencias full le

variable (x : Fin 21) (report : Fin 20 → Option Nat) (heap : Nat → Int)

/-- The children that run `rows`. -/
def ioBound : List (Fin 20) := (List.finRange 20).filter (x.val ≤ ·.val)

lemma ioBound_length : (ioBound x).length = 20 - x := by
  revert x
  decide

lemma nonneg_iff (k) : 0 ≤ eficienciaTable x report k ↔ x.val ≤ k.val ∨ report k = none := by
  unfold eficienciaTable
  split
  · rename_i silent
    simp [silent]
  · rename_i total reported
    by_cases cpu : k.val < x
    · simp [reported, cpu]
    · simp [cpu, not_lt.mp cpu]

lemma filter_table : (ofFn (eficienciaTable x report)).filter (0 ≤ ·) =
    ((finRange 20).filter fun k => 0 ≤ eficienciaTable x report k).map (eficienciaTable x report) := by
  rw [ofFn_eq_map, filter_map]
  rfl

lemma fill_table (all : ∀ k, k.val < x.val → report k ≠ none) :
    ∃ filled, fillEficiencias (20 - x) (List.ofFn (eficienciaTable x report)) 0 heap = .ok filled ∧
      (List.range (20 - x)).map filled = (ioBound x).map (eficienciaTable x report) := by
  have same : ((List.finRange 20).filter fun k => 0 ≤ eficienciaTable x report k) = ioBound x := by
    refine List.filter_congr fun k _ => ?_
    rw [decide_eq_decide, nonneg_iff]
    exact or_iff_left_of_imp fun silent => not_lt.mp fun cpu => all k cpu silent
  have listed := filter_table x report
  rw [same] at listed
  have length : ((List.ofFn (eficienciaTable x report)).filter (0 ≤ ·)).length = 20 - x := by
    rw [listed, List.length_map, ioBound_length]
  obtain ⟨filled, eq, stored⟩ := fillEficiencias_room (List.ofFn (eficienciaTable x report)) 0 heap
    (by rw [Nat.zero_add, length])
  rw [Nat.zero_add, length, listed] at stored
  exact ⟨filled, eq, stored⟩

lemma fill_table_bounds (cpu : k.val < x.val) (silent : report k = none) :
    fillEficiencias (20 - x) (ofFn (eficienciaTable x report)) 0 heap = .error .bounds := by
  refine fillEficiencias_full _ 0 heap ?_ (Nat.zero_le _)
  rw [Nat.zero_add, filter_table, length_map, ← ioBound_length]
  have sub : (ioBound x).Sublist ((finRange 20).filter fun k => 0 ≤ eficienciaTable x report k) := by
    refine monotone_filter_right _ fun k io => ?_
    simp only [decide_eq_true_eq] at io ⊢
    exact (nonneg_iff ..).mpr (.inl io)
  by_contra le
  have eq := sub.eq_of_length_le (not_lt.mp le)
  have mem : k ∈ ioBound x := by
    rw [eq, mem_filter]
    exact ⟨mem_finRange k, decide_eq_true ((nonneg_iff ..).mpr (.inr silent))⟩
  have io := of_decide_eq_true (mem_filter.mp mem).2
  omega

/-- The loop stays inside the buffer, and the buffer then holds the efficiencies of the I/O-bound
children, just if every CPU-bound child has reported. -/
theorem eficiencias_fit_iff :
    (∃ filled, fillEficiencias (20 - x) (List.ofFn (eficienciaTable x report)) 0 heap = .ok filled ∧
      (List.range (20 - x)).map filled = (ioBound x).map (eficienciaTable x report)) ↔
      ∀ k : Fin 20, k.val < x.val → report k ≠ none := by
  constructor
  · rintro ⟨filled, eq, -⟩ k cpu silent
    rw [fill_table_bounds x report heap cpu silent] at eq
    cases eq
  · exact fill_table x report heap

/-- One `graphs` of six is killed before it reports. -/
theorem eficiencias_overrun : fillEficiencias 14
    (ofFn (eficienciaTable 6 fun k => if k = 0 then none else some 1)) 0 (fun _ => 0) = .error .bounds :=
  rfl

end

section

/-- What the children leave: a child that does not get to report leaves 0. -/
def left (x : Fin 21) (report : Fin 20 → Option Nat) (overhead justica : Fin 20 → Nat) (heap : Nat → Int) :
    Metrics :=
  ⟨eficienciaTable x report, fun k => overhead k, fun k => justica k, 20 - x, heap⟩

/-- The report computes each of its divisors without a fault, and it is not zero. -/
structure NoZeroDivisor (terminos : Fin 20 → Int) (m : Metrics) : Prop where
  lim : ∃ lim vazoes, buckets 320 (sortTerminos terminos) = .ok (lim, vazoes) ∧ lim ≠ 0
  denominador : ∃ lim vazoes vazaoMin vazaoMax, buckets 320 (sortTerminos terminos) = .ok (lim, vazoes) ∧
    extremes vazoes (List.range (lim + 1)) (10000, -10) = .ok (vazaoMin, vazaoMax) ∧
    vazaoMax * 100000 - vazaoMin * 100000 ≠ 0
  eficienciaSoma : ∃ soma, eficienciaSoma m = .ok soma ∧ soma ≠ 0
  overheadSoma : ∃ soma, overheadSoma m = .ok soma ∧ soma ≠ 0
  denominador2 : ∃ soma quadrado, sumJusticas (List.ofFn m.justica) 0 0 = .ok (soma, quadrado) ∧ 20 * quadrado ≠ 0

lemma sumInt_ok_iff (xs : List Nat) (soma : Nat) (fits : soma < 2 ^ 31) :
    sumInt (xs.map Nat.cast) soma = .ok t ↔ soma + xs.sum < 2 ^ 31 ∧ t = (soma + xs.sum : Nat) := by
  induction xs generalizing soma with
  | nil => simpa [sumInt, eq_comm] using fun _ : t = soma => fits
  | cons x xs ih =>
    rw [List.map_cons, sumInt, List.sum_cons, ← add_assoc]
    by_cases more : soma + x < 2 ^ 31
    · rw [int32_ok (by omega) (by omega)]
      exact ih (soma + x) more
    · rw [int32, if_neg fun both => more (by omega)]
      refine ⟨fun eq => ?_, fun both => absurd both.1 (by omega)⟩
      cases eq

lemma sumJusticas_large (xs) (mem : x ∈ xs) (large : 2 ^ 31 ≤ x * x) (soma quadrado) :
    sumJusticas xs soma quadrado = .error .overflow := by
  induction xs generalizing soma quadrado with
  | nil => cases mem
  | cons y ys ih =>
    rw [sumJusticas]
    by_cases fits : y * y < 2 ^ 31
    · rw [int32_ok (by have := mul_self_nonneg y; omega) fits]
      rcases mem_cons.mp mem with rfl | mem
      · omega
      · exact ih mem _ _
    · rw [int32, if_neg fun both => fits both.2]
      rfl

/-- A square fits in an `int` up to 46340. -/
lemma square_fits (x : Nat) : (x : Int) * x < 2 ^ 31 ↔ x ≤ 46340 := by
  constructor
  · intro less
    by_contra large
    have := Nat.mul_le_mul (not_le.mp large) (not_le.mp large)
    omega
  · intro le
    have := Nat.mul_le_mul le le
    omega

lemma justicas_eq (x : Fin 20 → Nat) (small : ∀ k, x k ≤ 46340) : sumJusticas (ofFn fun k => (x k : Int)) 0 0 =
    .ok (((∑ k, x k : Nat) : Int), ((∑ k, x k ^ 2 : Nat) : Int)) := by
  rw [sumJusticas_eq]
  · rw [List.map_ofFn, List.sum_ofFn, List.sum_ofFn, zero_add, zero_add]
    push_cast
    simp [sq]
  · intro y mem
    obtain ⟨k, rfl⟩ := List.mem_ofFn.mp mem
    exact (square_fits _).mpr (small k)

lemma sum_sq_pos {x : Fin 20 → Nat} (some : ∃ k, x k ≠ 0) : 0 < ∑ k, x k ^ 2 := by
  obtain ⟨k, ne⟩ := some
  exact sum_pos' (fun _ _ => Nat.zero_le _) ⟨k, mem_univ k, by positivity⟩

lemma sortTerminos_last (ts : Fin 20 → Int) : sortTerminos ts (last 19) = ts (last 19) := by
  obtain ⟨k, le, eq⟩ := (sortTerminos_suffix ts (last 19)).2
  rw [eq, le_antisymm (Fin.le_last k) le]

/-- The tables that the report can sum: every CPU-bound child has marked its entry, the sums fit in an `int`
and are not 0, and so does every square. -/
structure Sane (x : Fin 21) (report : Fin 20 → Option Nat) (overhead justica : Fin 20 → Nat) : Prop where
  marked : ∀ k, k.val < x.val → report k ≠ none
  eficiencia_pos : 0 < ((ioBound x).map fun k => (report k).getD 0).sum
  eficiencia_fits : ((ioBound x).map fun k => (report k).getD 0).sum < 2 ^ 31
  overhead_pos : 0 < ∑ k, overhead k
  overhead_fits : ∑ k, overhead k < 2 ^ 31
  justica_pos : ∃ k, justica k ≠ 0
  justica_fits : ∀ k, justica k ≤ 46340

variable (x : Fin 21) (report : Fin 20 → Option Nat) (overhead justica : Fin 20 → Nat) (heap : Nat → Int)

lemma eficienciaSoma_ok_iff : eficienciaSoma (left x report overhead justica heap) = .ok t ↔
    (∀ k, k.val < x.val → report k ≠ none) ∧ ((ioBound x).map fun k => (report k).getD 0).sum < 2 ^ 31 ∧
      t = (((ioBound x).map fun k => (report k).getD 0).sum : Nat) := by
  unfold eficienciaSoma left
  by_cases all : ∀ k, k.val < x.val → report k ≠ none
  · obtain ⟨filled, eq, stored⟩ := fill_table x report heap all
    have entries : (ioBound x).map (eficienciaTable x report) =
        ((ioBound x).map fun k => (report k).getD 0).map Nat.cast := by
      rw [List.map_map]
      refine List.map_congr_left fun k mem => ?_
      have io : x.val ≤ k.val := of_decide_eq_true (List.mem_filter.mp mem).2
      unfold eficienciaTable
      cases reported : report k with
      | none => simp [reported]
      | some total => simp [reported, not_lt.mpr io]
    have sum := sumInt_ok_iff (t := t) ((ioBound x).map fun k => (report k).getD 0) 0 (by decide)
    rw [eq]
    change sumInt _ 0 = _ ↔ _
    rw [stored, entries, and_iff_right all]
    simpa using sum
  · have silent := all
    simp only [not_forall, not_not] at silent
    obtain ⟨k, cpu, silent⟩ := silent
    rw [fill_table_bounds x report heap cpu silent]
    refine ⟨fun eq => ?_, fun both => absurd both.1 all⟩
    cases eq

lemma overheadSoma_ok_iff : overheadSoma (left x report overhead justica heap) = .ok t ↔
    ∑ k, overhead k < 2 ^ 31 ∧ t = (∑ k, overhead k : Nat) := by
  have sum := sumInt_ok_iff (t := t) (ofFn overhead) 0 (by decide)
  rw [List.map_ofFn, List.sum_ofFn, zero_add] at sum
  exact sum

/-- The divisors are computed and not zero just if the round is short enough to be counted, does not end at time 0
and has uneven seconds, and the tables can be summed. -/
theorem divisors_nonzero_iff (terminos : Fin 20 → Nat) :
    NoZeroDivisor (fun j => terminos j) (left x report overhead justica heap) ↔
      (terminos (last 19) ≤ 2990 ∧ terminos (last 19) ≠ 0 ∧ Uneven (sortTerminos fun j => terminos j)) ∧
      Sane x report overhead justica := by
  have mono := sortTerminos_monotone fun j => (terminos j : Int)
  have ending := sortTerminos_last fun j => (terminos j : Int)
  constructor
  · rintro ⟨⟨lim, vazoes, eq, some⟩, ⟨_, _, lo, hi, eq', found, differ⟩, ⟨_, efEq, efNe⟩, ⟨_, ovEq, ovNe⟩,
      ⟨soma, quadrado, sums, nonzero⟩⟩
    generalize sortTerminos (fun j => (terminos j : Int)) = sorted at *
    obtain ⟨rfl, rfl⟩ := Prod.mk.inj (Except.ok.inj (eq.symm.trans eq'))
    have short := buckets_short eq
    obtain ⟨_, counted, total⟩ := buckets_eq mono short (le_refl 320)
    obtain ⟨rfl, rfl⟩ := Prod.mk.inj (Except.ok.inj (eq.symm.trans counted))
    obtain ⟨_, _, extremes, spread⟩ := extremes_spread short total
    obtain ⟨rfl, rfl⟩ := Prod.mk.inj (Except.ok.inj (found.symm.trans extremes))
    rw [ending] at short some
    obtain ⟨marked, efFits, rfl⟩ := (eficienciaSoma_ok_iff ..).mp efEq
    obtain ⟨ovFits, rfl⟩ := (overheadSoma_ok_iff ..).mp ovEq
    have squares : ∀ k, justica k ≤ 46340 := by
      intro k
      by_contra large
      have square : 2 ^ 31 ≤ (justica k : Int) * justica k := not_lt.mp fun fits => large ((square_fits _).mp fits)
      rw [sumJusticas_large _ (List.mem_ofFn.mpr ⟨k, rfl⟩) square] at sums
      cases sums
    refine ⟨⟨by exact_mod_cast short, fun zero => some ?_, spread.uneven_iff.mp ?_⟩,
      ⟨marked, by omega, efFits, by omega, ovFits, ?_, squares⟩⟩
    · rw [zero]
      rfl
    · obtain ⟨s, le, -⟩ := spread.least
      have := spread.between s le
      omega
    · by_contra none
      simp only [not_exists, not_not] at none
      rw [show (left x report overhead justica heap).justica = fun k => (justica k : Int) from rfl,
        justicas_eq justica squares] at sums
      obtain ⟨-, rfl⟩ := Prod.mk.inj (Except.ok.inj sums)
      simp [none] at nonzero
  · rintro ⟨⟨short, some, uneven⟩, sane⟩
    have short' : sortTerminos (fun j => (terminos j : Int)) (last 19) ≤ 2990 := by
      rw [ending]
      exact_mod_cast short
    obtain ⟨vazoes, counted, total⟩ := buckets_eq mono short' (le_refl 320)
    obtain ⟨lo, hi, found, spread⟩ := extremes_spread short' total
    have less := spread.uneven_iff.mpr uneven
    refine ⟨⟨_, vazoes, counted, ?_⟩, ⟨_, vazoes, lo, hi, counted, found, by omega⟩,
      ⟨_, (eficienciaSoma_ok_iff ..).mpr ⟨sane.marked, sane.eficiencia_fits, rfl⟩, ?_⟩,
      ⟨_, (overheadSoma_ok_iff ..).mpr ⟨sane.overhead_fits, rfl⟩, ?_⟩,
      ⟨_, _, justicas_eq justica sane.justica_fits, ?_⟩⟩
    · rw [ending]
      unfold second
      omega
    · exact_mod_cast sane.eficiencia_pos.ne'
    · exact_mod_cast sane.overhead_pos.ne'
    · have := sum_sq_pos sane.justica_pos
      omega

/-- The children end in uneven seconds, but none has spent a tick on its own calls. -/
theorem overhead_divisor_zero :
    ¬ NoZeroDivisor regular (left 10 (fun _ => some 1) (fun _ => 0) (fun _ => 1) fun _ => 0) :=
  fun h => by
    obtain ⟨soma, eq, ne⟩ := h.overheadSoma
    have zero : overheadSoma (left 10 (fun _ => some 1) (fun _ => 0) (fun _ => 1) fun _ => 0) = .ok 0 := by
      decide +kernel
    exact ne (Except.ok.inj (eq.symm.trans zero))

end

/-- The fairness index of the times, in units of 1/100000: the square of their sum by 20 times the sum of their
squares. -/
def fairness (x : Fin 20 → Nat) : Nat := 100000 * (∑ k, x k) ^ 2 / (20 * ∑ k, x k ^ 2)

variable {x : Fin 20 → Nat}

lemma fairness_le : (∑ k, x k) ^ 2 ≤ 20 * ∑ k, x k ^ 2 := by
  have := sq_sum_le_card_mul_sum_sq (s := univ) (f := x)
  simpa using this

/-- The squares sum to the square of the sum only where all times are their mean. -/
lemma fairness_eq_iff : 20 * ∑ k, x k ^ 2 ≤ (∑ k, x k) ^ 2 ↔ ∀ k k', x k = x k' := by
  constructor
  · intro le
    have variance : ∑ k, (20 * (x k : Int) - ∑ k, (x k : Int)) ^ 2 =
      20 * (20 * ∑ k, (x k : Int) ^ 2 - (∑ k, (x k : Int)) ^ 2) := by
      simp only [sub_sq, sum_add_distrib, sum_sub_distrib, mul_pow, ← mul_sum,
        ← sum_mul, mul_assoc, sum_const, card_univ, Fintype.card_fin, nsmul_eq_mul]
      ring
    have none : ∑ k, (20 * (x k : Int) - ∑ k, (x k : Int)) ^ 2 ≤ 0 := by
      rw [variance]
      have : 20 * ∑ k, (x k : Int) ^ 2 ≤ (∑ k, (x k : Int)) ^ 2 := by exact_mod_cast le
      omega
    have zero := (sum_eq_zero_iff_of_nonneg fun k _ => sq_nonneg _).mp
      (le_antisymm none (sum_nonneg fun k _ => sq_nonneg _))
    intro k k'
    have at_k := pow_eq_zero_iff two_ne_zero |>.mp (zero k (mem_univ k))
    have at_k' := pow_eq_zero_iff two_ne_zero |>.mp (zero k' (mem_univ k'))
    omega
  · intro same
    simp only [same _ 0, sum_const, card_univ, Fintype.card_fin, smul_eq_mul]
    exact le_of_eq (by ring)

lemma fairness_range (some : ∃ k, x k ≠ 0) : 5000 ≤ fairness x ∧ fairness x ≤ 100000 ∧
    (fairness x = 100000 ↔ ∀ k k', x k = x k') := by
  have pos := sum_sq_pos some
  have le := fairness_le (x := x)
  have ge : ∑ k, x k ^ 2 ≤ (∑ k, x k) ^ 2 := sum_sq_le_sq_sum_of_nonneg fun _ _ => Nat.zero_le _
  have equal := fairness_eq_iff (x := x)
  unfold fairness
  generalize ∑ k, x k ^ 2 = quadrado at *
  generalize (∑ k, x k) ^ 2 = square at *
  have low : 5000 ≤ 100000 * square / (20 * quadrado) := (Nat.le_div_iff_mul_le (by omega)).mpr (by omega)
  have high : 100000 * square / (20 * quadrado) ≤ 100000 := Nat.div_le_of_le_mul (by omega)
  refine ⟨low, high, ?_⟩
  have top : 100000 ≤ 100000 * square / (20 * quadrado) ↔ 100000 * (20 * quadrado) ≤ 100000 * square :=
    Nat.le_div_iff_mul_le (by omega)
  rw [← equal]
  omega

lemma justicaFim_eq (m : Metrics) (times : ∀ k, m.justica k = x k) (some : ∃ k, x k ≠ 0) (small : ∀ k, x k ≤ 46340) :
    justicaFim m = .ok (fairness x) := by
  have sums := justicas_eq x small
  have pos := sum_sq_pos some
  have high := (fairness_range some).2.1
  rw [← funext times] at sums
  unfold fairness at high ⊢
  rw [justicaFim, sums]
  generalize ∑ k, x k = soma at high ⊢
  generalize ∑ k, x k ^ 2 = quadrado at high pos ⊢
  change (div ((soma : Int) * soma * 100000) (20 * (quadrado : Int)) >>= _) = _
  have nominador : (soma : Int) * soma * 100000 = ((100000 * soma ^ 2 : Nat) : Int) := by
    push_cast
    ring
  have denominador : 20 * (quadrado : Int) = ((20 * quadrado : Nat) : Int) := by simp
  rw [nominador, denominador, div_eq (Int.natCast_nonneg _) (by omega), ← Int.natCast_ediv]
  generalize 100000 * soma ^ 2 / (20 * quadrado) = index at high ⊢
  change Except.ok (toInt _) = _
  rw [toInt_small (by omega) (by omega)]

/-- The program computes the fairness index just if every square fits in an `int`. -/
theorem justica_is_fairness_iff (m : Metrics) (x : Fin 20 → Nat) (times : ∀ k, m.justica k = x k)
    (some : ∃ k, x k ≠ 0) :
    (justicaFim m = .ok (fairness x) ∧ 5000 ≤ fairness x ∧ fairness x ≤ 100000 ∧
      (fairness x = 100000 ↔ ∀ k k', x k = x k')) ↔ ∀ k, x k ≤ 46340 := by
  refine ⟨fun ⟨eq, _⟩ k => ?_, fun small => ⟨justicaFim_eq m times some small, fairness_range some⟩⟩
  by_contra large
  have square : 2 ^ 31 ≤ m.justica k * m.justica k := by
    rw [times]
    exact not_lt.mp fun fits => large ((square_fits _).mp fits)
  rw [justicaFim, sumJusticas_large _ (List.mem_ofFn.mpr ⟨k, rfl⟩) square] at eq
  cases eq

theorem justica_is_fairness_unit : justicaFim unitMetrics = .ok (fairness fun _ => 1) ∧ 5000 ≤ fairness (fun _ => 1) ∧
    fairness (fun _ => 1) ≤ 100000 ∧ (fairness (fun _ => 1) = 100000 ↔ ∀ _ _ : Fin 20, 1 = 1) :=
  (justica_is_fairness_iff unitMetrics (fun _ => 1) (fun _ => rfl) ⟨0, one_ne_zero⟩).mpr fun _ => by decide

/-- Twenty equal times of 46341 ticks, the least whose square is no `int`. -/
theorem fairness_overflows :
    justicaFim { unitMetrics with justica := fun _ => 46341 } = .error .overflow ∧ fairness (fun _ => 46341) = 100000 :=
  ⟨by decide +kernel, by decide +kernel⟩

/-- The score is the mean of four figures, of which only the throughput can be negative. -/
lemma desempenho_eq {m : Metrics} {norm ef ov fim : Int} (throughput : vazaoNorm fuel ts = .ok norm)
    (efEq : eficienciaSoma m = .ok ef) (ef_pos : 0 < ef) (ovEq : overheadSoma m = .ok ov) (ov_pos : 0 < ov)
    (fimEq : justicaFim m = .ok fim) (fim_nonneg : 0 ≤ fim) (fim_le : fim ≤ 100000) (low : -2000000 ≤ norm)
    (high : norm ≤ 100000) : desempenho fuel ts m = .ok ((100000 / ov + 100000 / ef + norm + fim) / 4) := by
  obtain ⟨efDiv, ef_nonneg, ef_le⟩ := inverse_range ef_pos
  obtain ⟨ovDiv, ov_nonneg, ov_le⟩ := inverse_range ov_pos
  unfold desempenho
  rw [throughput, efEq, ovEq, fimEq]
  change (div 100000 ef >>= _) = _
  rw [efDiv]
  change (div 100000 ov >>= _) = _
  rw [ovDiv]
  generalize (100000 : Int) / ef = a at *
  generalize (100000 : Int) / ov = b at *
  change (sumInt [b, a, norm, fim] 0 >>= _) = _
  rw [sumInt_small _ ?_ 0 (by simp) (by simp)]
  · simp only [List.sum_cons, List.sum_nil, zero_add, add_zero, ← add_assoc]
    rfl
  · simp only [List.forall_mem_cons, List.not_mem_nil, false_implies, implies_true, and_true]
    omega

lemma Sane.desempenho {k : Fin 21} {norm : Int} {report : Fin 20 → Option Nat} {overhead justica : Fin 20 → Nat}
    (sane : Sane k report overhead justica) (heap) (throughput : vazaoNorm fuel ts = .ok norm) (low : -2000000 ≤ norm)
    (high : norm ≤ 100000) : desempenho fuel ts (left k report overhead justica heap) =
      .ok ((100000 / ((∑ k, overhead k : Nat) : Int) +
        100000 / (((ioBound k).map fun k => (report k).getD 0).sum : Nat) + norm + fairness justica) / 4) := by
  have fair := (fairness_range sane.justica_pos).2.1
  refine desempenho_eq throughput ((eficienciaSoma_ok_iff ..).mpr ⟨sane.marked, sane.eficiencia_fits, rfl⟩)
    (Int.natCast_pos.mpr sane.eficiencia_pos) ((overheadSoma_ok_iff ..).mpr ⟨sane.overhead_fits, rfl⟩)
    (Int.natCast_pos.mpr sane.overhead_pos) (justicaFim_eq _ (fun _ => rfl) sane.justica_pos sane.justica_fits)
    (Int.natCast_nonneg _) (by omega) low high

/-- Tables with which the score is a quarter of the throughput and of the least fairness. -/
def lone (k : Fin 20) : Nat := if k.val = 0 then 200000 else 0

lemma sane_lone : Sane 0 (fun k => some (lone k)) lone fun k => if k.val = 0 then 1 else 0 :=
  ⟨nofun, by decide, by decide, by decide, by decide, ⟨0, by decide⟩, by decide⟩

lemma lone_score {norm : Int} (throughput : vazaoNorm fuel ts = .ok norm) (low : -2000000 ≤ norm)
    (high : norm ≤ 100000) : desempenho fuel ts (left 0 (fun k => some (lone k)) lone
      (fun k => if k.val = 0 then 1 else 0) fun _ => 0) = .ok ((norm + 5000) / 4) := by
  have figures : (100000 : Int) / (∑ k, lone k : Nat) = 0 ∧
      (100000 : Int) / (((ioBound 0).map fun k => (some (lone k)).getD 0).sum : Nat) = 0 ∧
      (fairness fun k => if k.val = 0 then 1 else 0) = 5000 := by decide
  rw [sane_lone.desempenho (fun _ => 0) throughput low high, figures.1, figures.2.1, figures.2.2, zero_add, zero_add]
  rfl

/-- Of a round with uneven seconds that does not end at time 0, the throughput is in range just if the round is short
enough to be counted and `Balanced`. The score is in range for all tables that can be summed just if it is so up to
5000, the least fairness there is. -/
theorem score_in_range_iff (terminos : Fin 20 → Int) (mono : Monotone terminos) (nonneg : 0 ≤ terminos 0)
    (some : terminos (last 19) ≠ 0) (uneven : Uneven terminos) (fuel : Nat) (enough : 320 ≤ fuel) :
    ((∃ norm, vazaoNorm fuel terminos = .ok norm ∧ 0 ≤ norm ∧ norm ≤ 100000) ↔ Balanced terminos 0) ∧
    ((∀ x report overhead justica heap, Sane x report overhead justica →
      ∃ score, desempenho fuel terminos (left x report overhead justica heap) = .ok score ∧
        0 ≤ score ∧ score ≤ 100000) ↔
      Balanced terminos 5000) := by
  have pos : 0 < second (terminos (last 19)) := by
    have := nonneg.trans (mono (Fin.zero_le (last 19)))
    unfold second
    omega
  have short_of_ok : ∀ norm, vazaoNorm fuel terminos = .ok norm → terminos (last 19) ≤ 2990 := by
    intro norm eq
    cases counted : buckets fuel terminos with
    | ok pair => exact buckets_short counted
    | error fault =>
      rw [vazaoNorm, counted] at eq
      cases eq
  refine ⟨⟨?_, fun balanced => ?_⟩, fun all => ?_, fun balanced x report overhead justica heap sane => ?_⟩
  · rintro ⟨norm, eq, low, -⟩
    obtain ⟨_, eq', -, -, exact_⟩ := vazaoNorm_eq mono (short_of_ok norm eq) enough pos uneven
    obtain rfl := Except.ok.inj (eq.symm.trans eq')
    exact (exact_ 0).mp (by simpa using low)
  · obtain ⟨norm, eq, -, high, exact_⟩ := vazaoNorm_eq mono balanced.1 enough pos uneven
    exact ⟨norm, eq, by simpa using (exact_ 0).mpr balanced, high⟩
  · obtain ⟨score, eq, low, -⟩ := all 0 _ _ _ (fun _ => 0) sane_lone
    have short : terminos (last 19) ≤ 2990 := by
      cases throughput : vazaoNorm fuel terminos with
      | ok norm => exact short_of_ok norm throughput
      | error fault =>
        rw [desempenho, throughput] at eq
        cases eq
    obtain ⟨norm, throughput, least, high, exact_⟩ := vazaoNorm_eq mono short enough pos uneven
    obtain rfl := Except.ok.inj (eq.symm.trans (lone_score throughput least high))
    exact (exact_ 5000).mp (by omega)
  · obtain ⟨norm, throughput, least, high, exact_⟩ := vazaoNorm_eq mono balanced.1 enough pos uneven
    refine ⟨_, sane.desempenho heap throughput least high, ?_⟩
    have fair := fairness_range sane.justica_pos
    have bound := (exact_ 5000).mpr balanced
    have ef := (inverse_range (Int.natCast_pos.mpr sane.eficiencia_pos)).2
    have ov := (inverse_range (Int.natCast_pos.mpr sane.overhead_pos)).2
    generalize (100000 : Int) / _ = a at ef ⊢
    generalize (100000 : Int) / _ = b at ov ⊢
    omega

def ascending (j : Fin 20) : Int := if j.val = 0 then 0 else if j.val = 1 then 10 else 10 * (j.val - 1)

/-- One process ends at time 0, two in the first second and one in each of the others. -/
theorem score_in_range_ascending : (∃ norm, vazaoNorm 320 ascending = .ok norm ∧ 0 ≤ norm ∧ norm ≤ 100000) ∧
    ∀ x report overhead justica heap, Sane x report overhead justica →
      ∃ score, desempenho 320 ascending (left x report overhead justica heap) = .ok score ∧
        0 ≤ score ∧ score ≤ 100000 := by
  have mono : Monotone ascending := by
    intro j j' le
    have : j.val ≤ j'.val := le
    unfold ascending
    split_ifs <;> omega
  have uneven : Uneven ascending := ⟨0, 1, by decide, by decide, by decide⟩
  obtain ⟨norm, score⟩ := score_in_range_iff ascending mono (by decide) (by decide) uneven 320 le_rfl
  exact ⟨norm.mpr ⟨by decide, 1, 0, by decide, by decide, by decide⟩,
    score.mpr ⟨by decide, 1, 0, by decide, by decide, by decide⟩⟩

end Xv6.Experiment
