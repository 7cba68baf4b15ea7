import Mathlib.Logic.Relation

/-! Distances in a directed graph, given as a relation. A labelling that is closed along the edges
bounds the length of every walk from below, so labels that are lengths of walks are distances. -/

namespace Xv6.Distance

variable {V : Type*} {edge : V → V → Prop} {a b : V}

/-- There is a walk of `k` edges. -/
def Walk (edge : V → V → Prop) : Nat → V → V → Prop
  | 0, a, b => a = b
  | k + 1, a, b => ∃ c, Walk edge k a c ∧ edge c b

/-- The number of edges of a shortest walk. -/
def IsDistance (edge : V → V → Prop) (a b : V) (d : Nat) : Prop :=
  Walk edge d a b ∧ ∀ k, Walk edge k a b → d ≤ k

lemma Walk.step {c : V} {k : Nat} (walk : Walk edge k a c) (last : edge c b) : Walk edge (k + 1) a b :=
  ⟨c, walk, last⟩

lemma Walk.first (h : edge a b) : Walk edge 1 a b := ⟨a, rfl, h⟩

/-- The marked vertices are labelled so that no label jumps along an edge; what is next to `a` is
marked with at most 1. -/
structure Closed (edge : V → V → Prop) (a : V) (marked : V → Prop) (label : V → Nat) : Prop where
  source : ∀ b, edge a b → marked b ∧ label b ≤ 1
  next : ∀ c, marked c → ∀ b, edge c b → marked b ∧ label b ≤ label c + 1

section
variable {marked : V → Prop} {label : V → Nat} (closed : Closed edge a marked label)
include closed

lemma Closed.walk (k) (walk : Walk edge (k + 1) a b) : marked b ∧ label b ≤ k + 1 := by
  induction k generalizing b with
  | zero =>
    obtain ⟨c, rfl, last⟩ := walk
    exact closed.source b last
  | succ k ih =>
    obtain ⟨c, walk, last⟩ := walk
    obtain ⟨mark, le⟩ := ih walk
    obtain ⟨mark', le'⟩ := closed.next c mark b last
    exact ⟨mark', Nat.le_trans le' (Nat.add_le_add_right le 1)⟩

lemma Closed.isDistance (ne : a ≠ b) (walk : Walk edge (label b) a b) : IsDistance edge a b (label b) := by
  refine ⟨walk, fun k other => ?_⟩
  cases k with
  | zero => exact absurd other ne
  | succ k => exact (closed.walk k other).2

lemma Closed.no_walk (ne : a ≠ b) (unmarked : ¬ marked b) (k) : ¬ Walk edge k a b := by
  intro walk
  cases k with
  | zero => exact ne walk
  | succ k => exact unmarked (closed.walk k walk).1

end

lemma IsDistance.unique {d d' : Nat} (h : IsDistance edge a b d) (h' : IsDistance edge a b d') : d = d' :=
  Nat.le_antisymm (h.2 d' h'.1) (h'.2 d h.1)

end Xv6.Distance
