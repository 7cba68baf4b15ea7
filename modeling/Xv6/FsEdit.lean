import Xv6.FsTree

/-! What one call does to the directory tree. Before and after its own change, the
references that it drops may free inodes without links; the change itself adds or
removes one entry and adjusts the link counts. -/

namespace Xv6.FsEdit

open FsMachine FsTree Function

def withEntry (T : Tree) (d : Nat) (e : Dirent) : List Dirent :=
  putEnt (T.ents d) (freeIdx (T.ents d)) e

/-- The changes that `link`, `create` and `unlink` make. -/
inductive Edit (T : Tree) : Tree → Prop
  | link (d i : Nat) (name : List UInt8) : T.typ d = .dir → T.typ i ≠ .dir → T.typ i ≠ .free →
      find (T.ents d) name = none →
      Edit T ((T.setNlink i (T.nlink i + 1)).setEnts d (withEntry T d ⟨i, cstr name⟩))
  | make (d i : Nat) (name : List UInt8) (type : FType) : T.typ d = .dir → T.typ i = .free →
      i ≠ 0 → type ≠ .free → type ≠ .dir → find (T.ents d) name = none →
      Edit T ((T.make i type).setEnts d (withEntry T d ⟨i, cstr name⟩))
  | mkdir (d i : Nat) (name : List UInt8) : T.typ d = .dir → T.typ i = .free → i ≠ 0 →
      find (T.ents d) name = none →
      Edit T ((((T.make i .dir).setEnts i [⟨i, dot⟩, ⟨d, dotdot⟩]).setEnts d
        (withEntry T d ⟨i, cstr name⟩)).setNlink d (T.nlink d + 1))
  | unlink (d i j : Nat) (name : List UInt8) : T.typ d = .dir → i ≠ d → i ≠ 0 →
      find (T.ents d) name = some j → (T.ents d)[j]? = some ⟨i, cstr name⟩ →
      cstr name ≠ dot → cstr name ≠ dotdot → T.typ i ≠ .free → 1 ≤ T.nlink i →
      (T.typ i = .dir → isEmpty (T.ents i) = true) →
      Edit T (((T.setEnts d (putEnt (T.ents d) j ⟨0, []⟩)).setNlink d
        (if T.typ i = .dir then T.nlink d - 1 else T.nlink d)).setNlink i (T.nlink i - 1))

/-- Unused inodes are freed, there is at most one change, and unused inodes are freed. -/
def Outcome (keep : Nat → Prop) (S T : Tree) : Prop :=
  ∃ S' T', Reaps keep S S' ∧ (T' = S' ∨ Edit S' T') ∧ Reaps keep T' T

variable {S T U X : Tree} {i : Nat}

lemma Outcome.of_reaps (h : Reaps keep S T) : Outcome keep S T := ⟨S, S, .refl, .inl rfl, h⟩

lemma Outcome.of_edit (h : Edit S T) : Outcome keep S T := ⟨S, T, .refl, .inr h, .refl⟩

lemma Outcome.before (h : Reaps keep S T) (h' : Outcome keep T U) : Outcome keep S U := by
  obtain ⟨S', T', first, edit, last⟩ := h'
  exact ⟨S', T', h.trans first, edit, last⟩

lemma Outcome.after (h : Outcome keep S T) (h' : Reaps keep T U) : Outcome keep S U := by
  obtain ⟨S', T', first, edit, last⟩ := h
  exact ⟨S', T', first, edit, last.trans h'⟩

lemma Outcome.mono (h : Outcome keep S T) (sub : ∀ i, keep' i → keep i) : Outcome keep' S T := by
  obtain ⟨S', T', first, edit, last⟩ := h
  exact ⟨S', T', first.mono sub, edit, last.mono sub⟩

lemma setNlink_self : S.setNlink i (S.nlink i) = S := by rw [Tree.setNlink, update_eq_self]

lemma setNlink_idem (v w : Int16) : (S.setNlink i v).setNlink i w = S.setNlink i w := by simp [Tree.setNlink]

lemma reaps_setNlink (h : Reaps keep S T) (inKeep : keep i) (v : Int16) :
    Reaps keep (S.setNlink i v) (T.setNlink i v) := by
  obtain ⟨gone, ok, rfl⟩ := h
  have here : gone i ≠ true := fun bad => (ok i bad).2 inKeep
  refine ⟨gone, fun j freed => ?_, ?_⟩
  · have ne : j ≠ i := by
      rintro rfl
      exact here freed
    refine ⟨?_, (ok j freed).2⟩
    simp only [Tree.setNlink, update_of_ne ne]
    exact (ok j freed).1
  · apply Tree.ext
    · intro j
      rfl
    · intro j
      by_cases hj : j = i
      · subst hj
        simp [Tree.setNlink, Tree.free, here]
      · simp [Tree.setNlink, Tree.free, hj]
    · intro j
      rfl

lemma reaps_forget (other : ∀ j, j ≠ i → X.typ j = S.typ j ∧ X.nlink j = S.nlink j ∧
      X.ents j = S.ents j) (was : S.typ i = .free ∧ S.nlink i = 0 ∧ S.ents i = [])
    (made : X.typ i ≠ .free) (freed : T.typ i = .free) (h : Reaps keep X T) : Reaps keep S T := by
  obtain ⟨gone, ok, rfl⟩ := h
  have here : gone i = true := by
    by_contra no
    simp only [Tree.free, no, if_false] at freed
    exact made freed
  refine ⟨fun j => gone j && decide (j ≠ i), fun j both => ?_, ?_⟩
  · obtain ⟨gone', ne⟩ : gone j = true ∧ j ≠ i := by simpa using both
    obtain ⟨zero, out⟩ := ok j gone'
    exact ⟨by rw [← (other j ne).2.1]; exact zero, out⟩
  · apply Tree.ext
    all_goals
      intro j
      by_cases hj : j = i
      · subst hj
        simp [Tree.free, here, was]
      · obtain ⟨typ, nlink, ents⟩ := other j hj
        simp [Tree.free, hj, typ, nlink, ents]

lemma Outcome.typ (h : Outcome keep S T) (inKeep : keep i) (used : S.typ i ≠ .free) : T.typ i = S.typ i := by
  obtain ⟨S', T', first, edit, last⟩ := h
  have before := (first.kept inKeep).1
  have after := (last.kept inKeep).1
  rw [after, ← before]
  rcases edit with rfl | edit
  · rfl
  · rw [← before] at used
    cases edit with
    | link d j name => rfl
    | make d j name type _ free =>
      exact update_of_ne (fun eq => used (by rw [eq]; exact free)) ..
    | mkdir d j name _ free =>
      exact update_of_ne (fun eq => used (by rw [eq]; exact free)) ..
    | unlink d j _ name => rfl

end Xv6.FsEdit
