import Mathlib.Order.Interval.Finset.Nat
import Mathlib.Tactic.Ring
import Xv6.Distance

/-! The breadth-first search of `user/graphs.c`, the CPU-bound program of the experiment, with the
queue in an array. The source is not marked when it is queued, so a search that comes back to it
queues it once more and gives it a new distance. -/

namespace Xv6.Graphs

open Distance Function
open Finset (mem_Icc)

def inf : Nat := 100000
def maxVert : Nat := 200

/-- Where the search is: at the test of the outer loop, or at that of the inner loop with `j`. -/
inductive Pc
  | outer
  | inner (j : Nat)
  deriving DecidableEq, Repr

structure Search where
  distancia : Nat → Nat
  visitado : Nat → Bool
  fila : Nat → Nat
  esq : Nat
  dir : Nat
  atual : Nat
  pc : Pc

/-- The search starts at `u`; `fila` is not initialised. -/
def start (heap : Nat → Nat) (u : Nat) : Search where
  distancia := Function.update (fun _ => inf) u 0
  visitado _ := false
  fila := Function.update heap 0 u
  esq := 0
  dir := 0
  atual := 0
  pc := .outer

/-- One turn of a loop, in a graph with `n` vertices; none is left when the queue is empty. -/
def step (n : Nat) (matrix : Nat → Nat → Bool) (s : Search) : Option Search :=
  match s.pc with
  | .outer =>
    if s.esq ≤ s.dir then some { s with atual := s.fila s.esq, pc := .inner 0 }
    else none
  | .inner j =>
    if j < n then
      if matrix s.atual j && !s.visitado j then
        some { s with
          visitado := Function.update s.visitado j true
          distancia := Function.update s.distancia j (s.distancia s.atual + 1)
          dir := s.dir + 1
          fila := Function.update s.fila (s.dir + 1) j
          pc := .inner (j + 1) }
      else some { s with pc := .inner (j + 1) }
    else some { s with esq := s.esq + 1, pc := .outer }

def Reach (n : Nat) (matrix : Nat → Nat → Bool) : Search → Search → Prop :=
  Relation.ReflTransGen fun s t => step n matrix s = some t

def Edge (n : Nat) (matrix : Nat → Nat → Bool) (v w : Nat) : Prop := w < n ∧ matrix v w = true

section
variable {n : Nat} {matrix : Nat → Nat → Bool} {u : Nat} {s t : Search}

/-- The distance that the entry `i` of the queue was given when it was put there. -/
def label (s : Search) (i : Nat) : Nat := if i = 0 then 0 else s.distancia (s.fila i)

lemma label_zero (s : Search) : label s 0 = 0 := rfl

lemma label_pos (pos : 0 < i) : label s i = s.distancia (s.fila i) := if_neg pos.ne'

def Followed (n : Nat) (matrix : Nat → Nat → Bool) (s : Search) (v d j : Nat) : Prop :=
  ∀ b, b < j → Edge n matrix v b → s.visitado b = true ∧ s.distancia b ≤ d + 1

/-- The queue: after the source it holds the marked vertices once each, in the order of their labels,
which are lengths of walks from the source. -/
structure Queue (n : Nat) (matrix : Nat → Nat → Bool) (u : Nat) (s : Search) : Prop where
  source : s.fila 0 = u
  range : ∀ i, i ≤ s.dir → s.fila i < n
  marked : ∀ w, s.visitado w = true ↔ ∃ i, 0 < i ∧ i ≤ s.dir ∧ s.fila i = w
  once : ∀ i i', 0 < i → i ≤ s.dir → 0 < i' → i' ≤ s.dir → s.fila i = s.fila i' → i = i'
  unmarked : ∀ w, s.visitado w = false → s.distancia w = if w = u then 0 else inf
  positive : ∀ i, 0 < i → i ≤ s.dir → 0 < label s i
  walk : ∀ i, 0 < i → i ≤ s.dir → Walk (Edge n matrix) (label s i) u (s.fila i)
  mono : ∀ i i', i ≤ i' → i' ≤ s.dir → label s i ≤ label s i'
  done : ∀ i, i < s.esq → Followed n matrix s (s.fila i) (label s i) n

def At (n : Nat) (matrix : Nat → Nat → Bool) (s : Search) : Prop :=
  match s.pc with
  | .outer => s.esq ≤ s.dir + 1
  | .inner j => s.esq ≤ s.dir ∧ s.atual = s.fila s.esq ∧ j ≤ n ∧
      Followed n matrix s (s.fila s.esq) (label s s.esq) j

structure Inv (n : Nat) (matrix : Nat → Nat → Bool) (u : Nat) (s : Search) : Prop where
  queue : Queue n matrix u s
  place : At n matrix s
  span : ∀ i, s.esq ≤ s.dir → i ≤ s.dir → label s i ≤ label s s.esq + 1
  fresh : s.esq = 0 → s.visitado u = false

lemma Inv.initial (heap) (inside : u < n) : Inv n matrix u (start heap u) := by
  have zero : (start heap u).fila 0 = u := by simp [start]
  refine ⟨⟨zero, ?_, ?_, ?_, ?_, ?_, ?_, ?_, nofun⟩, Nat.zero_le _, ?_, fun _ => rfl⟩
  · intro i le
    rw [Nat.le_zero.mp le, zero]
    exact inside
  · intro w
    refine ⟨nofun, ?_⟩
    rintro ⟨i, pos, le, -⟩
    exact absurd (Nat.le_zero.mp le) pos.ne'
  · intro i i' pos le
    exact absurd (Nat.le_zero.mp le) pos.ne'
  · intro w _
    simp [start, update_apply]
  · intro i pos le
    exact absurd (Nat.le_zero.mp le) pos.ne'
  · intro i pos le
    exact absurd (Nat.le_zero.mp le) pos.ne'
  · intro i i' le le'
    rw [Nat.le_zero.mp le', Nat.le_zero.mp (le.trans le')]
  · intro i _ le
    rw [Nat.le_zero.mp le]
    exact Nat.zero_le _

/-- The vertex taken from the queue has the distance of its entry: a second entry of the source is
made only after the first one has been worked off. -/
lemma Inv.distancia_atual (h : Inv n matrix u s) : s.distancia (s.fila s.esq) = label s s.esq := by
  by_cases zero : s.esq = 0
  · have := h.queue.unmarked u (h.fresh zero)
    rw [zero, label_zero, h.queue.source, this, if_pos rfl]
  · rw [label_pos (pos_of_ne_zero zero)]

def found (s : Search) (j : Nat) : Search :=
  { s with
    visitado := Function.update s.visitado j true
    distancia := Function.update s.distancia j (s.distancia s.atual + 1)
    dir := s.dir + 1
    fila := Function.update s.fila (s.dir + 1) j
    pc := .inner (j + 1) }

section
variable {j : Nat}

lemma fila_old (le : i ≤ s.dir) : (found s j).fila i = s.fila i :=
  update_of_ne (ne_of_lt (Nat.lt_succ_of_le le)) ..

lemma fila_new : (found s j).fila (s.dir + 1) = j := update_self ..

lemma distancia_old (ne : w ≠ j) : (found s j).distancia w = s.distancia w := update_of_ne ne ..

lemma visitado_old (ne : w ≠ j) : (found s j).visitado w = s.visitado w := update_of_ne ne ..

lemma Queue.ne_of_unmarked (h : Queue n matrix u s) (new : s.visitado j = false) (pos : 0 < i)
    (le : i ≤ s.dir) : s.fila i ≠ j := by
  intro eq
  rw [(h.marked j).mpr ⟨i, pos, le, eq⟩] at new
  cases new

/-- A new entry leaves the labels of the others as they are, also if it is the source again. -/
lemma label_old (h : Queue n matrix u s) (new : s.visitado j = false) (le : i ≤ s.dir) :
    label (found s j) i = label s i := by
  by_cases zero : i = 0
  · rw [zero, label_zero, label_zero]
  · have pos := pos_of_ne_zero zero
    rw [label_pos pos, label_pos pos, fila_old le, distancia_old (h.ne_of_unmarked new pos le)]

lemma label_new : label (found s j) (s.dir + 1) = s.distancia s.atual + 1 := by
  rw [label_pos (Nat.succ_pos _), fila_new]
  exact update_self ..

lemma Followed.found (h : Followed n matrix s v d k) (new : s.visitado j = false) :
    Followed n matrix (found s j) v d k := by
  intro b lt edge
  obtain ⟨mark, le⟩ := h b lt edge
  have ne : b ≠ j := by
    rintro rfl
    rw [new] at mark
    cases mark
  rw [visitado_old ne, distancia_old ne]
  exact ⟨mark, le⟩

lemma Queue.marked_found (q : Queue n matrix u s) (w : Nat) :
    (found s j).visitado w = true ↔ ∃ i, 0 < i ∧ i ≤ s.dir + 1 ∧ (found s j).fila i = w := by
  by_cases eq : w = j
  · subst eq
    exact ⟨fun _ => ⟨s.dir + 1, Nat.succ_pos _, Nat.le_refl _, fila_new⟩, fun _ => update_self ..⟩
  · rw [visitado_old eq, q.marked w]
    constructor
    · rintro ⟨i, pos, le, eq'⟩
      exact ⟨i, pos, Nat.le_succ_of_le le, by rw [fila_old le, eq']⟩
    · rintro ⟨i, pos, le, eq'⟩
      rcases Nat.le_succ_iff.mp le with le | rfl
      · rw [fila_old le] at eq'
        exact ⟨i, pos, le, eq'⟩
      · rw [fila_new] at eq'
        exact absurd eq'.symm eq

lemma Queue.once_found (q : Queue n matrix u s) (new : s.visitado j = false) {i i' : Nat} (pos : 0 < i)
    (le : i ≤ s.dir + 1) (pos' : 0 < i') (le' : i' ≤ s.dir + 1) (eq : (found s j).fila i = (found s j).fila i') :
    i = i' := by
  rcases Nat.le_succ_iff.mp le with le | rfl <;> rcases Nat.le_succ_iff.mp le' with le' | rfl
  · rw [fila_old le, fila_old le'] at eq
    exact q.once i i' pos le pos' le' eq
  · rw [fila_old le, fila_new] at eq
    exact absurd eq (q.ne_of_unmarked new pos le)
  · rw [fila_new, fila_old le'] at eq
    exact absurd eq.symm (q.ne_of_unmarked new pos' le')
  · rfl

lemma Queue.unmarked_found (q : Queue n matrix u s) {w : Nat} (unmarked : (found s j).visitado w = false) :
    (found s j).distancia w = if w = u then 0 else inf := by
  have ne : w ≠ j := by
    rintro rfl
    rw [show (found s w).visitado w = true from update_self ..] at unmarked
    cases unmarked
  rw [visitado_old ne] at unmarked
  rw [distancia_old ne]
  exact q.unmarked w unmarked

lemma Queue.walk_next (q : Queue n matrix u s) (le : s.esq ≤ s.dir) (inside : j < n)
    (edge : matrix (s.fila s.esq) j = true) : Walk (Edge n matrix) (label s s.esq + 1) u j := by
  by_cases zero : s.esq = 0
  · rw [zero, q.source] at edge
    rw [zero, label_zero]
    exact .first ⟨inside, edge⟩
  · exact (q.walk s.esq (Nat.pos_of_ne_zero zero) le).step ⟨inside, edge⟩

/-- A new entry at the end of the queue, one step further than the vertex that is worked off. -/
lemma Queue.find (q : Queue n matrix u s) (new : s.visitado j = false) (le : s.esq ≤ s.dir) (inside : j < n)
    (edge : matrix (s.fila s.esq) j = true) (top : label (found s j) (s.dir + 1) = label s s.esq + 1)
    (span : ∀ i, i ≤ s.dir → label s i ≤ label s s.esq + 1) : Queue n matrix u (found s j) := by
  have old : ∀ {i}, i ≤ s.dir → label (found s j) i = label s i := fun le => label_old q new le
  refine ⟨?_, ?_, q.marked_found, fun _ _ => q.once_found new, fun _ => q.unmarked_found, ?_, ?_, ?_, ?_⟩
  · rw [fila_old (Nat.zero_le _), q.source]
  · intro i le'
    rcases Nat.le_succ_iff.mp le' with le' | rfl
    · rw [fila_old le']
      exact q.range i le'
    · rw [fila_new]
      exact inside
  · intro i pos le'
    rcases Nat.le_succ_iff.mp le' with le' | rfl
    · rw [old le']
      exact q.positive i pos le'
    · rw [top]
      exact Nat.succ_pos _
  · intro i pos le'
    rcases Nat.le_succ_iff.mp le' with le' | rfl
    · rw [old le', fila_old le']
      exact q.walk i pos le'
    · rw [top, fila_new]
      exact q.walk_next le inside edge
  · intro i i' le' le''
    rcases Nat.le_succ_iff.mp le'' with le'' | rfl
    · rw [old (le'.trans le''), old le'']
      exact q.mono i i' le' le''
    · rcases Nat.le_succ_iff.mp le' with le' | rfl
      · rw [old le', top]
        exact span i le'
      · exact Nat.le_refl _
  · intro i lt
    have le' : i ≤ s.dir := (Nat.le_of_lt lt).trans le
    rw [old le', fila_old le']
    exact (q.done i lt).found new

lemma Inv.find (h : Inv n matrix u s) (pc : s.pc = .inner j) (inside : j < n)
    (loopless : ∀ v, matrix v v = false) (edge : matrix s.atual j = true) (new : s.visitado j = false) :
    Inv n matrix u (found s j) := by
  have place := h.place
  rw [At, pc] at place
  obtain ⟨le, atual, -, followed⟩ := place
  have dist : s.distancia s.atual = label s s.esq := by rw [atual, h.distancia_atual]
  have top : label (found s j) (s.dir + 1) = label s s.esq + 1 := by rw [label_new, dist]
  have old : ∀ {i}, i ≤ s.dir → label (found s j) i = label s i := fun le => label_old h.queue new le
  rw [atual] at edge
  refine ⟨h.queue.find new le inside edge top fun i => h.span i le, ?_, ?_, ?_⟩
  · refine ⟨Nat.le_succ_of_le le, ?_, inside, ?_⟩
    · exact atual.trans (fila_old le).symm
    · change Followed n matrix (found s j) ((found s j).fila s.esq) (label (found s j) s.esq) _
      rw [fila_old le, old le]
      intro b lt edge'
      rcases Nat.lt_succ_iff_lt_or_eq.mp lt with lt | rfl
      · exact followed.found new b lt edge'
      · refine ⟨update_self .., ?_⟩
        rw [show (found s b).distancia b = s.distancia s.atual + 1 from update_self .., dist]
  · intro i _ le'
    change label (found s j) i ≤ label (found s j) s.esq + 1
    rw [old le]
    rcases Nat.le_succ_iff.mp le' with le' | rfl
    · rw [old le']
      exact h.span i le le'
    · rw [top]
  · intro none
    have zero : s.esq = 0 := none
    have ne : u ≠ j := by
      rintro rfl
      rw [zero, h.queue.source, loopless] at edge
      cases edge
    rw [visitado_old ne]
    exact h.fresh zero

end

lemma Inv.kept (loopless : ∀ v, matrix v v = false) (h : Inv n matrix u s) (eq : step n matrix s = some t) :
    Inv n matrix u t := by
  have place := h.place
  unfold step at eq
  cases pc : s.pc with
  | outer =>
    rw [pc] at eq
    dsimp only at eq
    split at eq
    · rename_i le
      cases eq
      exact ⟨{ h.queue with }, ⟨le, rfl, Nat.zero_le _, nofun⟩, h.span, h.fresh⟩
    · cases eq
  | inner j =>
    rw [At, pc] at place
    rw [pc] at eq
    dsimp only at eq
    split at eq
    · rename_i inside
      split at eq
      · rename_i new
        rw [Bool.and_eq_true, Bool.not_eq_true'] at new
        cases eq
        exact h.find pc inside loopless new.1 new.2
      · rename_i old
        cases eq
        obtain ⟨le, atual, -, followed⟩ := place
        refine ⟨{ h.queue with }, ⟨le, atual, inside, ?_⟩, h.span, h.fresh⟩
        intro b lt edge
        rcases Nat.lt_succ_iff_lt_or_eq.mp lt with lt | rfl
        · exact followed b lt edge
        · have mark : s.visitado b = true := by
            by_contra unmarked
            apply old
            rw [atual, edge.2, Bool.eq_false_of_not_eq_true unmarked]
            rfl
          refine ⟨mark, ?_⟩
          obtain ⟨i, pos, le', rfl⟩ := (h.queue.marked b).mp mark
          rw [← label_pos pos]
          exact h.span i le le'
    · rename_i past
      cases eq
      obtain ⟨le, atual, le', followed⟩ := place
      have all : j = n := Nat.le_antisymm le' (Nat.not_lt.mp past)
      subst all
      refine ⟨⟨h.queue.source, h.queue.range, h.queue.marked, h.queue.once, h.queue.unmarked, h.queue.positive,
        h.queue.walk,
        h.queue.mono, ?_⟩, Nat.succ_le_succ le, ?_, nofun⟩
      · intro i lt
        rcases Nat.lt_succ_iff_lt_or_eq.mp lt with lt | rfl
        · exact h.queue.done i lt
        · exact followed
      · intro i more le''
        exact (h.span i le le'').trans (Nat.succ_le_succ (h.queue.mono _ _ (Nat.le_succ _) more))

lemma Inv.reach (loopless : ∀ v, matrix v v = false) (h : Inv n matrix u s) (reach : Reach n matrix s t) :
    Inv n matrix u t := by
  induction reach with
  | refl => exact h
  | tail _ eq ih => exact ih.kept loopless eq

lemma Queue.dir_le (h : Queue n matrix u s) : s.dir ≤ n := by
  have card := Finset.card_le_card_of_injOn s.fila
    (fun i mem => Finset.mem_coe.mpr (Finset.mem_range.mpr (h.range i (mem_Icc.mp mem).2)))
    (fun i mem i' mem' eq => h.once i i' (mem_Icc.mp mem).1 (mem_Icc.mp mem).2
      (mem_Icc.mp mem').1 (mem_Icc.mp mem').2 eq)
  rwa [Nat.card_Icc, Finset.card_range, Nat.add_sub_cancel] at card

lemma Inv.closed (h : Inv n matrix u s) (halted : step n matrix s = none) :
    Closed (Edge n matrix) u (fun w => s.visitado w = true) s.distancia := by
  have empty : s.dir < s.esq := by
    unfold step at halted
    cases pc : s.pc with
    | outer =>
      rw [pc] at halted
      dsimp only at halted
      split at halted
      · cases halted
      · rename_i more
        exact not_le.mp more
    | inner j =>
      rw [pc] at halted
      dsimp only at halted
      split at halted
      · split at halted <;> cases halted
      · cases halted
  constructor
  · intro b edge
    have done := h.queue.done 0 (Nat.zero_lt_of_lt empty) b edge.1
    rw [h.queue.source, label_zero] at done
    exact done edge
  · intro c mark b edge
    obtain ⟨i, pos, le, rfl⟩ := (h.queue.marked c).mp mark
    have done := h.queue.done i (lt_of_le_of_lt le empty) b edge.1 edge
    rwa [label_pos pos] at done

def turns (n : Nat) (s : Search) : Nat :=
  match s.pc with
  | .outer => (n + 1 - s.esq) * (n + 2)
  | .inner j => (n - s.esq) * (n + 2) + (n + 1 - j)

lemma Inv.turns_lt (h : Inv n matrix u s) (eq : step n matrix s = some t) : turns n t < turns n s := by
  have place := h.place
  have bound := h.queue.dir_le
  unfold step at eq
  cases pc : s.pc with
  | outer =>
    rw [pc] at eq
    dsimp only at eq
    split at eq
    · rename_i le
      cases eq
      have next : n + 1 - s.esq = n - s.esq + 1 := by omega
      simp only [turns, pc, next, add_mul]
      omega
    · cases eq
  | inner j =>
    rw [At, pc] at place
    rw [pc] at eq
    dsimp only at eq
    split at eq
    · split at eq
      · cases eq
        simp only [turns, pc]
        omega
      · cases eq
        simp only [turns, pc]
        omega
    · cases eq
      have next : n + 1 - (s.esq + 1) = n - s.esq := by omega
      simp only [turns, pc, next]
      omega

lemma Inv.halts (loopless : ∀ v, matrix v v = false) (h : Inv n matrix u s) :
    ∃ t, Reach n matrix s t ∧ step n matrix t = none := by
  induction left : turns n s using Nat.strong_induction_on generalizing s with
  | _ k ih =>
    cases eq : step n matrix s with
    | none => exact ⟨s, .refl, eq⟩
    | some t =>
      obtain ⟨last, reach, halted⟩ := ih _ (left ▸ h.turns_lt eq) (h.kept loopless eq) rfl
      exact ⟨last, .head eq reach, halted⟩

lemma Inv.distancia (h : Inv n matrix u s) (halted : step n matrix s = none) (ne : u ≠ w) :
    (∀ d, IsDistance (Edge n matrix) u w d → s.distancia w = d) ∧
      ((∀ k, ¬ Walk (Edge n matrix) k u w) → s.distancia w = inf) := by
  have closed := h.closed halted
  cases mark : s.visitado w with
  | true =>
    obtain ⟨i, pos, le, rfl⟩ := (h.queue.marked w).mp mark
    have walk := h.queue.walk i pos le
    rw [label_pos pos] at walk
    exact ⟨fun d dist => (closed.isDistance ne walk).unique dist, fun none => absurd walk (none _)⟩
  | false =>
    refine ⟨fun d dist => absurd dist.1 (closed.no_walk ne ?_ d), fun _ => ?_⟩
    · rw [mark]
      exact Bool.false_ne_true
    · rw [h.queue.unmarked w mark, if_neg ne.symm]

end

/-- The search stays inside its arrays and ends with the distances of all vertices but the source. -/
theorem search_finds_distances (n : Nat) (small : n ≤ maxVert) (matrix : Nat → Nat → Bool)
    (loopless : ∀ v, matrix v v = false) (heap : Nat → Nat) (u : Nat) (inside : u < n) :
    (∀ s, Reach n matrix (start heap u) s → s.dir ≤ n ∧ s.dir < 2 * maxVert) ∧
    ∃ s, Reach n matrix (start heap u) s ∧ step n matrix s = none ∧ ∀ w, w < n → w ≠ u →
      (∀ d, IsDistance (Edge n matrix) u w d → s.distancia w = d) ∧
        ((∀ k, ¬ Walk (Edge n matrix) k u w) → s.distancia w = inf) := by
  have init : Inv n matrix u (start heap u) := .initial heap inside
  constructor
  · intro s reach
    have bound := (init.reach loopless reach).queue.dir_le
    exact ⟨bound, by unfold maxVert at *; omega⟩
  · obtain ⟨s, reach, halted⟩ := init.halts loopless
    exact ⟨s, reach, halted, fun w _ ne => (init.reach loopless reach).distancia halted ne.symm⟩

def pair (v w : Nat) : Bool := v = 0 && w = 1 || v = 1 && w = 0

theorem search_finds_distances_pair :
    ∃ s, Reach 2 pair (start (fun _ => 0) 0) s ∧ step 2 pair s = none ∧ s.distancia 1 = 1 := by
  obtain ⟨-, s, reach, halted, dist⟩ := search_finds_distances 2 (by decide) pair
    (fun v => by by_cases zero : v = 0 <;> simp [pair, zero]) (fun _ => 0) 0 (by decide)
  refine ⟨s, reach, halted, (dist 1 (by decide) (by decide)).1 1 ⟨.first ⟨by decide, by decide⟩, ?_⟩⟩
  intro k walk
  cases k with
  | zero => cases walk
  | succ k => exact Nat.succ_le_succ (Nat.zero_le k)

section
variable {n : Nat} {matrix : Nat → Nat → Bool} {u : Nat} {s : Search}

/-- A search that cannot come back to the source never marks it. -/
lemma Queue.source_unmarked (h : Queue n matrix u s)
    (acyclic : ∀ k, ¬ Walk (Edge n matrix) (k + 1) u u) : s.visitado u = false := by
  by_contra mark
  obtain ⟨i, pos, le, eq⟩ := (h.marked u).mp (Bool.eq_true_of_not_eq_false mark)
  have walk := h.walk i pos le
  obtain ⟨k, label⟩ := Nat.exists_eq_succ_of_ne_zero (h.positive i pos le).ne'
  rw [label, eq] at walk
  exact acyclic k walk

section
variable (h : Inv n matrix u s) (acyclic : ∀ k, ¬ Walk (Edge n matrix) (k + 1) u u)
include h acyclic

lemma Inv.distancia_source : s.distancia u = 0 := by
  rw [h.queue.unmarked u (h.queue.source_unmarked acyclic), if_pos rfl]

lemma Inv.distancia_label (i) : s.distancia (s.fila i) = label s i := by
  by_cases zero : i = 0
  · rw [zero, label_zero, h.queue.source, h.distancia_source acyclic]
  · rw [label_pos (pos_of_ne_zero zero)]

lemma Inv.fila_once (lt : i < i') (le : i' ≤ s.dir) : s.fila i ≠ s.fila i' := by
  intro eq
  by_cases zero : i = 0
  · have mark := (h.queue.marked u).mpr ⟨i', Nat.zero_lt_of_lt lt, le, by rw [← eq, zero, h.queue.source]⟩
    rw [h.queue.source_unmarked acyclic] at mark
    cases mark
  · exact lt.ne (h.queue.once i i' (pos_of_ne_zero zero) (lt.le.trans le) (Nat.zero_lt_of_lt lt) le eq)

end

def after (n : Nat) (matrix : Nat → Nat → Bool) : Nat → Search → Search
  | 0, s => s
  | k + 1, s => after n matrix k ((step n matrix s).getD s)

lemma reach_after (k) (s : Search) : Reach n matrix s (after n matrix k s) := by
  induction k generalizing s with
  | zero => exact .refl
  | succ k ih =>
    cases eq : step n matrix s with
    | none =>
      rw [after, eq]
      exact ih s
    | some t =>
      rw [after, eq]
      exact .head eq (ih t)

/-- The source keeps its distance, no vertex is put into the queue twice and the distances in the queue
rise by at most 1, all through the search, just if no walk leads from the source back to it. -/
theorem source_kept (n : Nat) (matrix : Nat → Nat → Bool) (loopless : ∀ v, matrix v v = false) (heap : Nat → Nat)
    (u : Nat) (inside : u < n) :
    (∀ s, Reach n matrix (start heap u) s →
      s.distancia u = 0 ∧ (∀ i i', i < i' → i' ≤ s.dir → s.fila i ≠ s.fila i') ∧
      ∀ i i', s.esq ≤ i → i ≤ i' → i' ≤ s.dir → s.distancia (s.fila i) ≤ s.distancia (s.fila i') ∧
        s.distancia (s.fila i') ≤ s.distancia (s.fila i) + 1) ↔
    ∀ k, ¬ Walk (Edge n matrix) (k + 1) u u := by
  have init : Inv n matrix u (start heap u) := .initial heap inside
  constructor
  · -- At its end the search has followed the walk, and the source is in the queue again.
    intro kept k walk
    obtain ⟨s, reach, halted⟩ := init.halts loopless
    have h := init.reach loopless reach
    obtain ⟨i, pos, le, again⟩ := (h.queue.marked u).mp ((h.closed halted).walk k walk).1
    exact (kept s reach).2.1 0 i pos le (h.queue.source.trans again.symm)
  · intro acyclic s reach
    have h := init.reach loopless reach
    refine ⟨h.distancia_source acyclic, fun i i' lt le => h.fila_once acyclic lt le, ?_⟩
    intro i i' from_ le last
    have first : label s s.esq ≤ label s i := h.queue.mono _ _ from_ (le.trans last)
    have span := h.span i' (from_.trans (le.trans last)) last
    rw [h.distancia_label acyclic, h.distancia_label acyclic]
    exact ⟨h.queue.mono i i' le last, span.trans (Nat.succ_le_succ first)⟩

def arrow (v w : Nat) : Bool := v = 0 && w = 1

theorem source_kept_arrow : (after 2 arrow 6 (start (fun _ => 0) 0)).distancia 0 = 0 := by
  refine ((source_kept 2 arrow (fun v => by by_cases zero : v = 0 <;> simp [arrow, zero]) (fun _ => 0) 0
    (by decide)).mpr ?_ _ (reach_after 6 _)).1
  rintro k ⟨c, -, -, edge⟩
  simp [arrow] at edge

/-- With an edge each way the source is found from its neighbour, at distance 2. -/
theorem source_relabelled : ∃ s, Reach 2 pair (start (fun _ => 0) 0) s ∧ s.distancia 0 = 2 ∧
    s.dir = 2 ∧ s.fila 0 = s.fila 2 :=
  ⟨after 2 pair 8 (start (fun _ => 0) 0), reach_after 8 _, by decide, by decide, by decide⟩

end

end Xv6.Graphs
