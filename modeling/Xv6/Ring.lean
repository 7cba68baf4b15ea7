import Mathlib.Data.List.Nodup

/-! Circular doubly linked lists. The two pointers of every node are two maps;
`Circle k h l` says that following them from the node `h` visits the nodes of
`l` in order, or in reverse, and comes back to `h`. -/

namespace Xv6.Ring

open Function List

variable {α : Type*} {f g : α → α} {u v w x : α} {l m : List α}

/-- Following `f` from `u` visits the nodes of the list and then `v`. -/
def Path (f : α → α) (u : α) : List α → α → Prop
  | [], v => f u = v
  | x :: l, v => f u = x ∧ Path f x l v

lemma Path.append : Path f u (l ++ x :: m) v ↔ Path f u l x ∧ Path f x m v := by
  induction l generalizing u with
  | nil => simp [Path]
  | cons y l ih => simp [Path, ih, and_assoc]

lemma Path.congr (h : Path f u l v) (first : g w = f u) (rest : ∀ x ∈ l, g x = f x) : Path g w l v := by
  induction l generalizing u w with
  | nil => exact first.trans h
  | cons x l ih =>
    exact ⟨first.trans h.1, ih h.2 (rest x (by simp)) fun y hy => rest y (by simp [hy])⟩

lemma Path.first (h : Path f u l v) : f u = (v :: l.reverse).getLast (by simp) := by
  cases l with
  | nil => exact h
  | cons x l => simpa using h.1

/-- The search that starts behind `u` and stops at `v`. -/
def walk [DecidableEq α] (f : α → α) (v : α) (p : α → Bool) : Nat → α → Option α
  | 0, _ => none
  | fuel + 1, x => if x = v then none else if p x then some x else walk f v p fuel (f x)

lemma Path.walk_eq [DecidableEq α] (path : Path f u l v) (away : v ∉ l) (p)
    {fuel : Nat} (enough : l.length < fuel) : walk f v p fuel (f u) = l.find? p := by
  induction l generalizing u fuel with
  | nil =>
    obtain ⟨fuel, rfl⟩ := Nat.exists_eq_add_one_of_ne_zero (Nat.ne_of_gt enough)
    have back : f u = v := path
    rw [walk, if_pos back, find?_nil]
  | cons x l ih =>
    obtain ⟨fuel, rfl⟩ := Nat.exists_eq_add_one_of_ne_zero (Nat.ne_of_gt (Nat.zero_lt_of_lt enough))
    have other : x ≠ v := fun e => away (by simp [e])
    rw [path.1, walk, if_neg other, find?_cons]
    cases hit : p x with
    | true => simp
    | false =>
      simp only [Bool.false_eq_true, if_false]
      exact ih path.2 (fun hv => away (by simp [hv])) (by simpa using enough)

variable [DecidableEq α]

lemma Path.redirect (h : Path f u l v) (once : (u :: l).Nodup) (w) :
    Path (update f ((u :: l).getLast (by simp)) w) u l w := by
  induction l generalizing u with
  | nil => simp [Path]
  | cons x l ih =>
    have tail := nodup_cons.mp once
    have away : u ≠ (x :: l).getLast (by simp) := fun e => tail.1 (e ▸ getLast_mem _)
    rw [getLast_cons (by simp)]
    exact ⟨(update_of_ne away ..).trans h.1, ih h.2 tail.2⟩

/-- The pointers of all nodes. -/
structure Links (α : Type*) where
  next : α → α
  prev : α → α

namespace Links
variable (k : Links α) (h b : α)

def unlink : Links α :=
  let k := { k with prev := Function.update k.prev (k.next b) (k.prev b) }
  { k with next := Function.update k.next (k.prev b) (k.next b) }

def insertAfter : Links α :=
  let k := { k with next := Function.update k.next b (k.next h) }
  let k := { k with prev := Function.update k.prev b h }
  let k := { k with prev := Function.update k.prev (k.next h) b }
  { k with next := Function.update k.next h b }

end Links

omit [DecidableEq α] in
lemma last_ne (once : (u :: (l ++ m)).Nodup) (mem : x ∈ m) : x ≠ (u :: l).getLast (by simp) := by
  rintro e
  exact (disjoint_of_nodup_append once) (getLast_mem _) (e ▸ mem)

lemma Path.skip (path : Path f u (l ++ x :: m) u) (once : (u :: (l ++ x :: m)).Nodup) :
    Path (update f ((u :: l).getLast (by simp)) (f x)) u (l ++ m) u := by
  obtain ⟨left, right⟩ := Path.append.mp path
  have turned := left.redirect (once.sublist (by simp)) (f x)
  cases m with
  | nil =>
    have back : f x = u := right
    simpa [back] using turned
  | cons y m =>
    obtain ⟨first, rest⟩ := right
    rw [first] at turned ⊢
    have kept : ∀ z ∈ y :: m, update f ((u :: l).getLast (by simp)) y z = f z :=
      fun z hz => update_of_ne (last_ne once (mem_cons_of_mem x hz)) ..
    exact Path.append.mpr ⟨turned, rest.congr (kept y (by simp)) fun z hz => kept z (by simp [hz])⟩

/-- The nodes of `l` behind `h`, in both directions. -/
structure Circle (k : Links α) (h : α) (l : List α) : Prop where
  once : (h :: l).Nodup
  next : Path k.next h l h
  prev : Path k.prev h l.reverse h

namespace Circle
variable {k : Links α} {h b : α}

omit [DecidableEq α] in
lemma empty (next : k.next h = h) (prev : k.prev h = h) : Circle k h [] := ⟨by simp, next, prev⟩

lemma unlink (c : Circle k h (l ++ b :: m)) : Circle (k.unlink b) h (l ++ m) := by
  have next := c.next
  have prev := c.prev
  rw [reverse_append, reverse_cons, append_assoc, singleton_append] at prev
  have once' : (h :: (m.reverse ++ b :: l.reverse)).Nodup := by
    have turned := c.once
    simp only [nodup_cons, mem_append, mem_cons, mem_reverse] at turned ⊢
    refine ⟨fun hm => turned.1 (by tauto), ?_⟩
    have rev := nodup_reverse.mpr turned.2
    simpa using rev
  -- the neighbours of `b` are the last node before it in either direction
  have before : k.prev b = (h :: l).getLast (by simp) := by simpa using (Path.append.mp prev).2.first
  have after : k.next b = (h :: m.reverse).getLast (by simp) := (Path.append.mp next).2.first
  have apart : b ≠ k.next b := by
    rw [after]
    exact last_ne once' (by simp)
  refine ⟨?_, ?_, ?_⟩
  · refine c.once.sublist ?_
    simp
  · simp only [Links.unlink, update_of_ne apart]
    rw [before]
    exact next.skip c.once
  · rw [reverse_append]
    simp only [Links.unlink, after]
    exact prev.skip once'

lemma insertAfter (c : Circle k h l) (fresh : b ∉ h :: l) : Circle (k.insertAfter h b) h (b :: l) := by
  have other : b ≠ h := fun e => fresh (by simp [e])
  have back := c.next.first
  have away : b ≠ k.next h := by
    rw [back]
    intro e
    have mem := getLast_mem (l := h :: l.reverse) (by simp)
    rw [← e] at mem
    exact fresh (by simpa using mem)
  have turned := c.prev.redirect (by simpa using c.once) b
  have prev : (k.insertAfter h b).prev = update (update k.prev b h) (k.next h) b := by
    simp [Links.insertAfter, update_of_ne other.symm]
  have kept : ∀ x ∈ h :: l, (k.insertAfter h b).prev x = update k.prev (k.next h) b x := by
    intro x hx
    have inner : x ≠ b := fun e => fresh (e ▸ hx)
    simp [prev, update_apply, inner]
  rw [← back] at turned
  refine ⟨?_, ?_, ?_⟩
  · have once := c.once
    simp only [nodup_cons, mem_cons, not_or] at once fresh ⊢
    exact ⟨⟨Ne.symm other, once.1⟩, fresh.2, once.2⟩
  · refine ⟨update_self .., c.next.congr ?_ fun x hx => ?_⟩
    · simp [Links.insertAfter, update_of_ne other]
    · have inner : x ≠ b := fun e => fresh (by simp [← e, hx])
      have inner' : x ≠ h := fun e => (nodup_cons.mp c.once).1 (e ▸ hx)
      simp [Links.insertAfter, update_of_ne inner, update_of_ne inner']
  · rw [reverse_cons]
    refine Path.append.mpr ⟨turned.congr (kept h (by simp)) fun x hx => ?_, ?_⟩
    · exact kept x (by simp [mem_reverse.mp hx])
    · change (k.insertAfter h b).prev b = h
      rw [prev, update_of_ne away, update_self]

end Circle

end Xv6.Ring
