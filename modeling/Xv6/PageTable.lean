import Mathlib.Data.Nat.Bitwise
import Xv6.VmMachine

/-! Sv39 page tables as finite maps. `Space` is what a page table stands for: the page-table
page of each level and index, and the leaf of each virtual page. -/

namespace Xv6.PageTable

open ByteFields VmMachine Function

section

def tablePte (page : Nat) : Nat := pa2pte page ||| pteV

structure Leaf where
  pa : Nat
  flags : Nat

def leafPte (leaf : Leaf) : Nat := pa2pte leaf.pa ||| leaf.flags ||| pteV

def PageAddr (pa : Nat) : Prop := pa % pgsize = 0 ∧ pa < physTop

def LeafFlags (flags : Nat) : Prop :=
  flags < 1024 ∧ flags &&& (pteR ||| pteW ||| pteX) ≠ 0

lemma pa2pte_add_eq_or (h : flags < 1024) : pa2pte pa ||| flags = pa2pte pa + flags := by
  have e := Nat.two_pow_add_eq_or_of_lt (i := 10) h (pa / 4096)
  unfold pa2pte
  rw [mul_comm]
  exact e.symm

lemma or_pteV_lt (h : flags < 1024) : flags ||| pteV < 1024 := Nat.or_lt_two_pow (n := 10) h (by decide)

lemma leafPte_eq (h : leaf.flags < 1024) : leafPte leaf = pa2pte leaf.pa + (leaf.flags ||| pteV) := by
  unfold leafPte
  rw [Nat.or_assoc, pa2pte_add_eq_or (or_pteV_lt h)]

lemma tablePte_eq (page) : tablePte page = pa2pte page + pteV := pa2pte_add_eq_or (by decide)

lemma pte2pa_add (aligned : pa % pgsize = 0) (h : flags < 1024) : pte2pa (pa2pte pa + flags) = pa := by
  unfold pte2pa pa2pte
  unfold pgsize at aligned
  omega

lemma and_flags (h : flags < 1024) (hm : m < 1024) : (pa2pte pa + flags) &&& m = flags &&& m := by
  have small : (pa2pte pa + flags) &&& m < 2 ^ 10 := lt_of_le_of_lt Nat.and_le_right hm
  rw [← Nat.mod_eq_of_lt small, Nat.and_mod_two_pow, Nat.mod_eq_of_lt hm]
  congr 1
  unfold pa2pte
  omega

lemma pteFlags_add (h : flags < 1024) : pteFlags (pa2pte pa + flags) = flags := by
  unfold pteFlags
  rw [and_flags h (by decide)]
  exact (Nat.and_two_pow_sub_one_eq_mod flags 10).trans (Nat.mod_eq_of_lt h)

lemma entry_lt (addr : pa < physTop) (h : flags < 1024) : pa2pte pa + flags < 256 ^ 8 := by
  unfold pa2pte
  unfold physTop kernBase at addr
  omega

lemma or_pteV_and_pteV (flags) : (flags ||| pteV) &&& pteV = pteV := by
  unfold pteV
  rw [Nat.and_or_distrib_right, Nat.and_one_is_mod]
  rcases Nat.mod_two_eq_zero_or_one flags with h | h <;> rw [h] <;> rfl

lemma or_pteV_and_rwx (flags) : (flags ||| pteV) &&& (pteR ||| pteW ||| pteX) = flags &&& (pteR ||| pteW ||| pteX) := by
  rw [Nat.and_or_distrib_right]
  have none_ : pteV &&& (pteR ||| pteW ||| pteX) = 0 := by decide
  rw [none_, Nat.or_zero]

section

lemma tablePte_valid (page) : tablePte page &&& pteV ≠ 0 := by
  rw [tablePte_eq, and_flags (by decide) (by decide)]
  decide

lemma tablePte_not_leaf (page) : tablePte page &&& (pteR ||| pteW ||| pteX) = 0 := by
  rw [tablePte_eq, and_flags (by decide) (by decide)]
  decide

lemma pte2pa_tablePte (h : PageAddr pa) : pte2pa (tablePte pa) = pa := by
  rw [tablePte_eq, pte2pa_add h.1 (by decide)]

end

section
lemma leafPte_valid (h : LeafFlags leaf.flags) : leafPte leaf &&& pteV ≠ 0 := by
  rw [leafPte_eq h.1, and_flags (or_pteV_lt h.1) (by decide), or_pteV_and_pteV]
  decide

lemma pteFlags_leafPte (h : LeafFlags leaf.flags) : pteFlags (leafPte leaf) = leaf.flags ||| pteV := by
  rw [leafPte_eq h.1, pteFlags_add (or_pteV_lt h.1)]

lemma pteFlags_leafPte_ne (h : LeafFlags leaf.flags) : pteFlags (leafPte leaf) ≠ pteV := by
  rw [pteFlags_leafPte h]
  intro e
  have none_ : (leaf.flags ||| pteV) &&& (pteR ||| pteW ||| pteX) = 0 := by
    rw [e]
    decide
  rw [or_pteV_and_rwx] at none_
  exact h.2 none_

lemma pte2pa_leafPte (addr : PageAddr leaf.pa) (h : LeafFlags leaf.flags) : pte2pa (leafPte leaf) = leaf.pa := by
  rw [leafPte_eq h.1, pte2pa_add addr.1 (or_pteV_lt h.1)]

end

end

lemma pteAt_setField (hi : i < 512) (hv : v < 256 ^ 8) :
    pteAt (setField page (8 * i) 8 v) j = if j = i then v else pteAt page j := by
  unfold pteAt
  split_ifs with e
  · subst e
    rw [field_setField_same _ _ _ _ (by unfold pgsize; omega), Nat.mod_eq_of_lt hv]
  · exact field_set_other (by omega)

@[simp] lemma pteAt_zeros (i) : pteAt (fill 0) i = 0 := field_zeros (8 * i) 8

/-- What a page table stands for: its page-table pages by level and index, and
its leaves by virtual page number. While a table is torn down, `hole` names the
one whose entry in its parent is stale. -/
structure Space where
  table : Nat → Nat → Option Nat
  leaf : Nat → Option Leaf
  hole : Option (Nat × Nat) := none

namespace Space

def setTable (sp : Space) (l v : Nat) (page : Option Nat) : Space :=
  { sp with table := fun l' v' => if l' = l ∧ v' = v then page else sp.table l' v' }

def setLeaf (sp : Space) (u : Nat) (leaf : Option Leaf) : Space :=
  { sp with leaf := fun u' => if u' = u then leaf else sp.leaf u' }

section
variable (sp : Space)
include sp

@[simp] lemma setTable_hole (l v page) : (sp.setTable l v page).hole = sp.hole := rfl

@[simp] lemma setLeaf_hole (u leaf) : (sp.setLeaf u leaf).hole = sp.hole := rfl

@[simp] lemma setTable_leaf (l v page) : (sp.setTable l v page).leaf = sp.leaf := rfl

@[simp] lemma setLeaf_table (u leaf) : (sp.setLeaf u leaf).table = sp.table := rfl

lemma setTable_same (l v page) : (sp.setTable l v page).table l v = page := by simp [setTable]

lemma setTable_other (page) (ne : ¬ (l' = l ∧ v' = v)) : (sp.setTable l v page).table l' v' = sp.table l' v' := by
  simp [setTable, ne]

end

end Space

structure Laid (mem : Nat → Bytes pgsize) (sp : Space) : Prop where
  top : ∀ l v x, sp.table l v = some x → l ≤ 2 ∧ (l = 2 → v = 0)
  up : ∀ l v x, sp.table l v = some x → l < 2 → (sp.table (l + 1) (v / 512)).isSome
  inj : ∀ l v l' v' x, sp.table l v = some x → sp.table l' v' = some x → l = l' ∧ v = v'
  addr : ∀ l v x, sp.table l v = some x → PageAddr x
  leafUp : ∀ u, (sp.leaf u).isSome → (sp.table 0 (u / 512)).isSome
  leafOk : ∀ u leaf, sp.leaf u = some leaf → PageAddr leaf.pa ∧ LeafFlags leaf.flags
  node : ∀ l v x j, sp.table (l + 1) v = some x → j < 512 → sp.hole ≠ some (l, v * 512 + j) →
    pteAt (mem x) j = (sp.table l (v * 512 + j)).elim 0 tablePte
  leaves : ∀ v x k, sp.table 0 v = some x → k < 512 →
    pteAt (mem x) k = (sp.leaf (v * 512 + k)).elim 0 leafPte

lemma Laid.congr (h : Laid mem sp) (same : ∀ l v x, sp.table l v = some x → mem' x = mem x) : Laid mem' sp where
  __ := h
  node l v x j hx hj hh := by
    rw [same _ _ _ hx]
    exact h.node l v x j hx hj hh
  leaves v x k hx hk := by
    rw [same _ _ _ hx]
    exact h.leaves v x k hx hk

lemma px_lt (level va) : px level va < 512 := Nat.mod_lt _ (by decide)

lemma index_px (l va) : va / pgsize / 512 ^ (l + 1) * 512 + px l va = va / pgsize / 512 ^ l := by
  rw [pow_succ, ← Nat.div_div_eq_div_mul]
  exact Nat.div_add_mod' _ _

lemma index_px_zero (va) : va / pgsize / 512 * 512 + px 0 va = va / pgsize := by
  have step := index_px 0 va
  rwa [zero_add, pow_one, pow_zero, Nat.div_one] at step

lemma root_index (h : va < maxVa) : va / pgsize / 512 ^ 3 = 0 := by
  rw [Nat.div_div_eq_div_mul]
  refine Nat.div_eq_of_lt (lt_of_lt_of_le h ?_)
  decide

lemma Laid.entry (h : Laid mem sp) (whole : sp.hole = none)
    (hx : sp.table (l + 1) (va / pgsize / 512 ^ (l + 2)) = some x) :
    pteAt (mem x) (px (l + 1) va) = (sp.table l (va / pgsize / 512 ^ (l + 1))).elim 0 tablePte := by
  have e := h.node l _ x (px (l + 1) va) hx (px_lt _ _) (by simp [whole])
  rwa [index_px] at e

lemma Laid.leaf_entry (h : Laid mem sp) (hx : sp.table 0 (va / pgsize / 512) = some x) :
    pteAt (mem x) (px 0 va) = (sp.leaf (va / pgsize)).elim 0 leafPte := by
  have e := h.leaves _ x (px 0 va) hx (px_lt _ _)
  rw [index_px_zero] at e
  exact e

lemma Laid.none_below (h : Laid mem sp) : ∀ {l : Nat}, l ≤ 2 → sp.table l (va / pgsize / 512 ^ (l + 1)) = none →
    sp.table 0 (va / pgsize / 512) = none := by
  intro l
  induction l with
  | zero =>
    intro _ absent
    rwa [zero_add, pow_one] at absent
  | succ l ih =>
    intro low absent
    refine ih (by omega) ?_
    cases below : sp.table l (va / pgsize / 512 ^ (l + 1)) with
    | none => rfl
    | some x =>
      have up := h.up _ _ _ below (by omega)
      rw [Nat.div_div_eq_div_mul _ (512 ^ (l + 1)) 512, ← pow_succ, absent] at up
      exact absurd up (by simp)

def putPte (page : Bytes pgsize) (i pte : Nat) : Bytes pgsize := setField page (8 * i) 8 pte

lemma tablePte_lt (h : PageAddr x) : tablePte x < 256 ^ 8 := by
  rw [tablePte_eq]
  exact entry_lt h.2 (by decide)

lemma leafPte_lt (addr : PageAddr leaf.pa) (h : LeafFlags leaf.flags) : leafPte leaf < 256 ^ 8 := by
  rw [leafPte_eq h.1]
  exact entry_lt addr.2 (or_pteV_lt h.1)

lemma Laid.link (h : Laid mem sp) (hy : sp.table (l + 1) v = some y)
    (hj : j < 512) (absent : sp.table l (v * 512 + j) = none)
    (fresh : ∀ l v, sp.table l v ≠ some x) (addr : PageAddr x) (zero : mem x = fill 0) :
    Laid (update mem y (putPte (mem y) j (tablePte x))) (sp.setTable l (v * 512 + j) (some x)) := by
  have ne : x ≠ y := by
    rintro rfl
    exact fresh _ _ hy
  have old : ∀ l' v' x', (sp.setTable l (v * 512 + j) (some x)).table l' v' = some x' →
    (l' = l ∧ v' = v * 512 + j ∧ x' = x) ∨ (¬ (l' = l ∧ v' = v * 512 + j) ∧ sp.table l' v' = some x') := by
    intro l' v' x' hx
    by_cases here : l' = l ∧ v' = v * 512 + j
    · obtain ⟨rfl, rfl⟩ := here
      rw [sp.setTable_same] at hx
      exact .inl ⟨rfl, rfl, (Option.some.inj hx).symm⟩
    · rw [sp.setTable_other _ here] at hx
      exact .inr ⟨here, hx⟩
  have more : ∀ l' v', (sp.table l' v').isSome → ((sp.setTable l (v * 512 + j) (some x)).table l' v').isSome := by
    intro l' v' some_
    by_cases here : l' = l ∧ v' = v * 512 + j
    · obtain ⟨rfl, rfl⟩ := here
      simp [sp.setTable_same]
    · rwa [sp.setTable_other _ here]
  refine ⟨fun l' v' x' hx => ?_, fun l' v' x' hx lt => ?_, fun l1 v1 l2 v2 x' h1 h2 => ?_,
    fun l' v' x' hx => ?_, fun u some_ => more _ _ (h.leafUp u some_), h.leafOk,
    fun l' v' x' j' hx hj' hole => ?_, fun v' x' k hx hk => ?_⟩
  · rcases old l' v' x' hx with ⟨rfl, rfl, rfl⟩ | ⟨-, hx⟩
    · have high := h.top _ _ _ hy
      omega
    · exact h.top l' v' x' hx
  · rcases old l' v' x' hx with ⟨rfl, rfl, rfl⟩ | ⟨-, hx⟩
    · have up : (v * 512 + j) / 512 = v := by omega
      rw [up]
      exact more _ _ (by simp [hy])
    · exact more _ _ (h.up l' v' x' hx lt)
  · rcases old l1 v1 x' h1 with ⟨rfl, rfl, rfl⟩ | ⟨-, was1⟩
    · rcases old l2 v2 _ h2 with ⟨rfl, rfl, -⟩ | ⟨-, was2⟩
      · exact ⟨rfl, rfl⟩
      · exact absurd was2 (fresh _ _)
    · rcases old l2 v2 x' h2 with ⟨rfl, rfl, rfl⟩ | ⟨-, was2⟩
      · exact absurd was1 (fresh _ _)
      · exact h.inj _ _ _ _ _ was1 was2
  · rcases old l' v' x' hx with ⟨rfl, rfl, rfl⟩ | ⟨-, hx⟩
    · exact addr
    · exact h.addr l' v' x' hx
  · rcases old _ v' x' hx with ⟨rfl, rfl, rfl⟩ | ⟨-, was⟩
    · rw [update_of_ne ne, zero, pteAt_zeros, sp.setTable_other _ (by omega)]
      cases below : sp.table l' ((v * 512 + j) * 512 + j') with
      | none => rfl
      | some z =>
        have up := h.up _ _ _ below (by have := h.top _ _ _ hy; omega)
        have index : ((v * 512 + j) * 512 + j') / 512 = v * 512 + j := by omega
        rw [index, absent] at up
        exact absurd up (by simp)
    · by_cases parent : x' = y
      · subst parent
        obtain ⟨el, rfl⟩ := h.inj _ _ _ _ _ was hy
        obtain rfl : l' = l := by omega
        rw [update_self, putPte, pteAt_setField hj (tablePte_lt addr)]
        by_cases slot : j' = j
        · subst slot
          simp [sp.setTable_same]
        · rw [if_neg slot, sp.setTable_other _ (by omega)]
          exact h.node l' v' x' j' was hj' hole
      · rw [update_of_ne parent, sp.setTable_other _ ?_]
        · exact h.node l' v' x' j' was hj' hole
        · rintro ⟨rfl, index⟩
          obtain rfl : v' = v := by omega
          exact parent (Option.some.inj (was.symm.trans hy))
  · rcases old 0 v' x' hx with ⟨rfl, rfl, rfl⟩ | ⟨-, hx⟩
    · rw [update_of_ne ne, zero, pteAt_zeros]
      cases below : (sp.setTable 0 (v * 512 + j) (some x')).leaf ((v * 512 + j) * 512 + k) with
      | none => rfl
      | some leaf =>
        have up := h.leafUp ((v * 512 + j) * 512 + k) (by
          rw [Space.setTable_leaf] at below
          simp [below])
        have index : ((v * 512 + j) * 512 + k) / 512 = v * 512 + j := by omega
        rw [index, absent] at up
        exact absurd up (by simp)
    · have level : x' ≠ y := by
        rintro rfl
        have el := (h.inj _ _ _ _ _ hx hy).1
        omega
      rw [update_of_ne level]
      exact h.leaves v' x' k hx hk

lemma Laid.putLeaf (h : Laid mem sp) (hb : sp.table 0 v = some b) (hk : k < 512)
    (ok : ∀ lf, leaf = some lf → PageAddr lf.pa ∧ LeafFlags lf.flags) :
    Laid (update mem b (putPte (mem b) k (leaf.elim 0 leafPte))) (sp.setLeaf (v * 512 + k) leaf) := by
  have fits : leaf.elim 0 leafPte < 256 ^ 8 := by
    cases leaf with
    | none => decide
    | some lf => exact leafPte_lt (ok lf rfl).1 (ok lf rfl).2
  refine ⟨h.top, h.up, h.inj, h.addr, fun u some_ => ?_, fun u lf hlf => ?_,
    fun l' v' x' j' hx hj' hole => ?_, fun v' x' k' hx hk' => ?_⟩
  · by_cases here : u = v * 512 + k
    · have index : u / 512 = v := by omega
      simp [index, hb]
    · simp only [Space.setLeaf, here, if_false] at some_
      exact h.leafUp u some_
  · by_cases here : u = v * 512 + k
    · simp only [Space.setLeaf, here, if_true] at hlf
      exact ok lf hlf
    · simp only [Space.setLeaf, here, if_false] at hlf
      exact h.leafOk u lf hlf
  · have level : x' ≠ b := by
      rintro rfl
      have el := (h.inj _ _ _ _ _ hx hb).1
      omega
    rw [update_of_ne level]
    exact h.node l' v' x' j' hx hj' hole
  · by_cases here : x' = b
    · subst here
      obtain rfl := (h.inj _ _ _ _ _ hx hb).2
      rw [update_self, putPte, pteAt_setField hk fits]
      by_cases slot : k' = k
      · subst slot
        simp [Space.setLeaf]
      · have other : v' * 512 + k' ≠ v' * 512 + k := by omega
        simp only [Space.setLeaf, other, slot, if_false]
        exact h.leaves v' x' k' hx hk'
    · have other : v' * 512 + k' ≠ v * 512 + k := by
        intro e
        obtain rfl : v' = v := by omega
        exact here (Option.some.inj (hx.symm.trans hb))
      rw [update_of_ne here]
      simp only [Space.setLeaf, other, if_false]
      exact h.leaves v' x' k' hx hk'

lemma Laid.drop (h : Laid mem sp) (hx : sp.table l v = some x) (whole : sp.hole = none)
    (children : ∀ l' j, l = l' + 1 → j < 512 → sp.table l' (v * 512 + j) = none)
    (empty : ∀ k, l = 0 → k < 512 → sp.leaf (v * 512 + k) = none) (page : Bytes pgsize) :
    Laid (update mem x page) { sp.setTable l v none with hole := some (l, v) } := by
  have old : ∀ l' v' x', (sp.setTable l v none).table l' v' = some x' →
    ¬ (l' = l ∧ v' = v) ∧ sp.table l' v' = some x' := by
    intro l' v' x' hx'
    by_cases here : l' = l ∧ v' = v
    · obtain ⟨rfl, rfl⟩ := here
      rw [sp.setTable_same] at hx'
      exact absurd hx' (by simp)
    · rw [sp.setTable_other _ here] at hx'
      exact ⟨here, hx'⟩
  have apart : ∀ l' v' x', ¬ (l' = l ∧ v' = v) → sp.table l' v' = some x' → x' ≠ x := by
    rintro l' v' x' other hx' rfl
    exact other (h.inj _ _ _ _ _ hx' hx)
  refine ⟨fun l' v' x' hx' => h.top l' v' x' (old l' v' x' hx').2, fun l' v' x' hx' lt => ?_,
    fun l1 v1 l2 v2 x' h1 h2 => h.inj _ _ _ _ _ (old _ _ _ h1).2 (old _ _ _ h2).2,
    fun l' v' x' hx' => h.addr l' v' x' (old l' v' x' hx').2, fun u some_ => ?_, h.leafOk,
    fun l' v' x' j hx' hj hole => ?_, fun v' x' k hx' hk => ?_⟩
  · have here := (old l' v' x' hx').2
    rw [Space.setTable_other _ _ ?_]
    · exact h.up l' v' x' here lt
    · rintro ⟨rfl, rfl⟩
      have index : v' / 512 * 512 + v' % 512 = v' := by omega
      have none_ := children l' (v' % 512) rfl (Nat.mod_lt _ (by decide))
      rw [index, here] at none_
      exact absurd none_ (by simp)
  · rw [Space.setTable_other _ _ ?_]
    · exact h.leafUp u some_
    · rintro ⟨rfl, rfl⟩
      have index : u / 512 * 512 + u % 512 = u := by omega
      have none_ := empty (u % 512) rfl (Nat.mod_lt _ (by decide))
      rw [index] at none_
      simp [none_] at some_
  · obtain ⟨other, here⟩ := old _ v' x' hx'
    rw [update_of_ne (apart _ _ _ other here), Space.setTable_other]
    · exact h.node l' v' x' j here hj (by simp [whole])
    · rintro ⟨rfl, rfl⟩
      exact hole rfl
  · obtain ⟨other, here⟩ := old 0 v' x' hx'
    rw [update_of_ne (apart _ _ _ other here)]
    exact h.leaves v' x' k here hk

lemma Laid.unlink (h : Laid mem sp) (hy : sp.table (l + 1) v = some y)
    (hj : j < 512) (hole : sp.hole = some (l, v * 512 + j))
    (gone : sp.table l (v * 512 + j) = none) :
    Laid (update mem y (putPte (mem y) j 0)) { sp with hole := none } := by
  refine ⟨h.top, h.up, h.inj, h.addr, h.leafUp, h.leafOk, fun l' v' x' j' hx' hj' _ => ?_, fun v' x' k hx' hk => ?_⟩
  · by_cases parent : x' = y
    · subst parent
      obtain ⟨el, rfl⟩ := h.inj _ _ _ _ _ hx' hy
      obtain rfl : l' = l := by omega
      rw [update_self, putPte, pteAt_setField hj (by decide)]
      by_cases slot : j' = j
      · subst slot
        simp [gone]
      · rw [if_neg slot]
        exact h.node l' v' x' j' hx' hj' (by simp [hole]; omega)
    · rw [update_of_ne parent]
      refine h.node l' v' x' j' hx' hj' ?_
      rw [hole]
      intro e
      obtain ⟨rfl, index⟩ := Prod.mk.inj (Option.some.inj e)
      obtain rfl : v' = v := by omega
      exact parent (Option.some.inj (hx'.symm.trans hy))
  · have level : x' ≠ y := by
      rintro rfl
      have el := (h.inj _ _ _ _ _ hx' hy).1
      omega
    rw [update_of_ne level]
    exact h.leaves v' x' k hx' hk

end Xv6.PageTable
