import Mathlib.Data.List.Nodup

/-! Redo records over a map: lists of writes, at most one to each address. Any write of a record may
be done early, any number of times and in any order, without changing what applying the whole
record gives. -/

namespace Xv6.RedoLog

open Function
open Prod (fst)

variable {α β : Type*} [DecidableEq α]

def redo (r : List (α × β)) (m : α → β) : α → β :=
  r.foldl (fun m w => Function.update m w.1 w.2) m

def redoAll (rs : List (List (α × β))) (m : α → β) : α → β :=
  rs.foldl (fun m r => redo r m) m

@[simp] lemma redoAll_nil (m : α → β) : redoAll [] m = m := rfl

@[simp] lemma redo_nil (m : α → β) : redo [] m = m := rfl

section
variable (r : List (α × β))
include r

lemma redo_other (m a) (h : a ∉ r.map fst) : redo r m a = m a := by
  induction r generalizing m with
  | nil => rfl
  | cons w r ih =>
    simp only [List.map_cons, List.mem_cons, not_or] at h
    change redo r (update m w.1 w.2) a = m a
    rw [ih _ h.2, update_of_ne h.1]

lemma redo_mem (m a v) (once : (r.map fst).Nodup) (h : (a, v) ∈ r) : redo r m a = v := by
  induction r generalizing m with
  | nil => simp at h
  | cons w r ih =>
    simp only [List.map_cons, List.nodup_cons] at once
    change redo r (update m w.1 w.2) a = v
    rcases List.mem_cons.mp h with rfl | h
    · rw [redo_other _ _ _ once.1, update_self]
    · exact ih _ once.2 h

lemma redo_congr (m m' a) (h : a ∈ r.map fst ∨ m a = m' a) (once : (r.map fst).Nodup) :
    redo r m a = redo r m' a := by
  by_cases ha : a ∈ r.map fst
  · obtain ⟨⟨b, v⟩, hw, rfl⟩ := List.mem_map.mp ha
    rw [redo_mem r m b v once hw, redo_mem r m' b v once hw]
  · rw [redo_other _ _ _ ha, redo_other _ _ _ ha]
    exact h.resolve_left ha

lemma redo_early (m a v) (once : (r.map fst).Nodup) (h : (a, v) ∈ r) : redo r (update m a v) = redo r m := by
  funext b
  apply redo_congr _ _ _ _ _ once
  by_cases hb : b = a
  · subst hb
    exact .inl (List.mem_map.mpr ⟨_, h, rfl⟩)
  · exact .inr (update_of_ne hb _ _)

lemma redo_done (m) (once : (r.map fst).Nodup) (h : ∀ w ∈ r, m w.1 = w.2) : redo r m = m := by
  funext a
  by_cases ha : a ∈ r.map fst
  · obtain ⟨w, hw, rfl⟩ := List.mem_map.mp ha
    rw [redo_mem r m w.1 w.2 once hw, h w hw]
  · exact redo_other _ _ _ ha

end

end Xv6.RedoLog
