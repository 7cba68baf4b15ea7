import Xv6.PageWalk

/-! A page table from its first page to its last: `uvmcreate`, `freewalk` and
`uvmfree`. -/

namespace Xv6.PageFree

open ByteFields VmMachine PageTable PageOwner PageWalk Total

variable {n : Nat} {B : Board} {g g' : Ghost n} {s t : Kernel n} {x : Nat} {id : TableId n}

def single (x : Nat) : Space where
  table l v := if l = 2 ∧ v = 0 then some x else none
  leaf _ := none

lemma single_table : (single x).table l v = some y ↔ (l = 2 ∧ v = 0) ∧ x = y := by
  by_cases root : l = 2 ∧ v = 0 <;> simp [single, root]

lemma laid_single (addr : PageAddr x) (zero : mem x = fill 0) : Laid mem (single x) where
  top l v y hy := by
    obtain ⟨⟨rfl, rfl⟩, -⟩ := single_table.mp hy
    simp
  up l v y hy low := by
    have root := (single_table.mp hy).1
    omega
  inj l v l' v' y hy hy' := by
    obtain ⟨⟨rfl, rfl⟩, -⟩ := single_table.mp hy
    obtain ⟨⟨rfl, rfl⟩, -⟩ := single_table.mp hy'
    exact ⟨rfl, rfl⟩
  addr l v y hy := by
    obtain ⟨-, rfl⟩ := single_table.mp hy
    exact addr
  leafUp u some_ := by simp [single] at some_
  leafOk u leaf hl := by simp [single] at hl
  node l v y j hy hj _ := by
    obtain ⟨⟨root, -⟩, rfl⟩ := single_table.mp hy
    have below : (single x).table l (v * 512 + j) = none := if_neg (by omega)
    rw [zero, pteAt_zeros, below]
    rfl
  leaves v y k hy _ := by
    have root := (single_table.mp hy).1
    omega

lemma Sound.create (h : Sound B g s) (absent : g.space id = none) (own : g.owner x = .temp) (zero : s.mem x = fill 0) :
    Sound B ((g.give x (.table id 2 0)).setSpace id (some (single x))) s where
  managed y := by
    rw [space_owner, ← h.managed]
    rcases eq_or_ne y x with rfl | ne
    · simp [own]
    · rw [give_other ne]
  free := by
    obtain ⟨l, chain, nodup, mem⟩ := h.free
    refine ⟨l, chain, nodup, fun y => (mem y).trans ?_⟩
    rw [space_owner]
    rcases eq_or_ne y x with rfl | ne
    · simp [own]
    · rw [give_other ne]
  laid id' sp hsp := by
    rcases eq_or_ne id' id with rfl | ne
    · rw [space_same] at hsp
      obtain rfl := Option.some.inj hsp
      exact laid_single (h.managed_of (by simp [own])).pageAddr zero
    · rw [space_other _ ne] at hsp
      exact h.laid id' sp hsp
  tables id' l v y := by
    rw [space_owner]
    unfold Ghost.table
    rcases eq_or_ne id' id with rfl | ne
    · rw [space_same, Option.bind_some, single_table]
      rcases eq_or_ne y x with rfl | other
      · simp [eq_comm]
      · rw [give_other other, h.tables]
        simp [Ghost.table, absent, other.symm]
    · rw [space_other _ ne]
      rcases eq_or_ne y x with rfl | other
      · have before := h.tables id' l v y
        simp only [own, reduceCtorEq, false_iff] at before
        simp only [give_same, Owner.table.injEq, ne.symm, false_and, false_iff]
        exact before
      · rw [give_other other]
        exact h.tables id' l v y
  rest := h.rest
  frozen y page hy := by
    rw [space_owner] at hy
    rcases eq_or_ne y x with rfl | ne
    · simp at hy
    · rw [give_other ne] at hy
      exact h.frozen y page hy

def NoTable (g : Ghost n) (id : TableId n) : Prop :=
  g.space id = none ∧ ∀ x u, g.owner x ≠ .user id u

lemma uvmcreate_returns (h : Sound B g s) (absent : NoTable g id) :
    Returns (uvmcreate B) s fun r t => r = 0 ∧ Sound B g t ∨
      r ≠ 0 ∧ ∃ g', HasTable B g' t id r P (fun _ => False) (fun _ => none) ∧ Keeps id g g' := by
  refine (kalloc_returns h).bind fun r t got => ?_
  rcases got with ⟨rfl, same⟩ | ⟨own, taken⟩
  · exact returns_pure (.inl ⟨rfl, same⟩)
  · have pos := managed_pos (h.managed_of (x := r) (by simp [own]))
    rw [if_neg pos]
    refine memset_bind (returns_pure (.inr ⟨pos, ?_⟩))
    have zeroed := taken.store (x := r) (fill 0) (by simp)
    have created := Sound.create (x := r) zeroed absent.1 (by simp) (by simp [Kernel.store])
    refine ⟨_, ⟨created, single r, space_same _, rfl, rfl, fun _ => False.elim, fun y u hy => ?_,
      fun _ _ => rfl, fun _ => False.elim⟩, ?_⟩
    · rw [space_owner] at hy
      rcases eq_or_ne y r with rfl | ne
      · simp at hy
      · rw [give_other ne, give_other ne] at hy
        exact absurd hy (absent.2 y u)
    · have first : Keeps id g (g.give r (.table id 2 0)) := keeps_give (by simp [own, Family]) rfl
      rw [give_give]
      exact first.trans (keeps_setSpace _)

variable {sp sp' : Space} {l v : Nat}

/-- What `freewalk` does at the table of level `l` and index `v`: tables are
removed, and none of that level or above but that one. -/
structure Shrinks (id : TableId n) (gone : Nat → Nat → Prop) (sp sp' : Space) (g g' : Ghost n) :
    Prop where
  space : g'.space = Function.update g.space id (some sp')
  rest : g'.rest = g.rest
  leaf : sp'.leaf = sp.leaf
  tables : ∀ l v, ¬ gone l v → sp'.table l v = sp.table l v
  owner : ∀ z, g'.owner z = g.owner z ∨ (∃ l v, g.owner z = .table id l v) ∧ g'.owner z = .free

lemma Shrinks.refl (hsp : g.space id = some sp) : Shrinks id gone sp sp g g :=
  ⟨by simp [← hsp], rfl, rfl, fun _ _ _ => rfl, fun _ => .inl rfl⟩

section
variable (h : Shrinks id gone sp sp' g g')
include h

lemma Shrinks.space_eq : g'.space id = some sp' := by rw [h.space, Function.update_self]

lemma Shrinks.trans (h' : Shrinks id gone' sp' sp'' g' g'')
    (more : ∀ l v, gone' l v → gone l v) : Shrinks id gone sp sp'' g g'' where
  space := by rw [h'.space, h.space, Function.update_idem]
  rest := h'.rest.trans h.rest
  leaf := h'.leaf.trans h.leaf
  tables l v keep := (h'.tables l v fun lost => keep (more l v lost)).trans (h.tables l v keep)
  owner z := by
    rcases h'.owner z with e | ⟨⟨l, v, was⟩, e⟩
    · rw [e]
      exact h.owner z
    · rcases h.owner z with e' | ⟨-, e'⟩
      · exact .inr ⟨⟨l, v, e'.symm.trans was⟩, e⟩
      · simp [was] at e'

lemma Shrinks.keeps : Keeps id g g' where
  rest := h.rest
  space id' ne := by rw [h.space, Function.update_of_ne ne]
  owner x o other := by
    rcases h.owner x with e | ⟨⟨l, v, was⟩, e⟩
    · rw [e]
    · rw [e, was]
      refine ⟨fun eq => ?_, fun eq => ?_⟩ <;> rw [← eq] at other <;> simp [Family] at other

end

def Under (l v l' v' : Nat) : Prop := l' < l ∨ l' = l ∧ v' = v

def Frees (B : Board) (id : TableId n) (l : Nat) (child : Nat → K n Unit) : Prop :=
  ∀ {v x : Nat} {g : Ghost n} {s : Kernel n} {sp : Space}, Sound B g s →
    g.space id = some sp → sp.hole = none → (∀ u, sp.leaf u = none) → sp.table l v = some x →
    Returns (child x) s fun _ t => ∃ g' sp', Sound B g' t ∧ Shrinks id (Under l v) sp sp' g g' ∧
      sp'.hole = some (l, v) ∧ sp'.table l v = none

lemma freeEntries_returns (frees : Frees B id l child) :
    ∀ {i : Nat} {g : Ghost n} {s : Kernel n} {sp : Space}, i + m = 512 → Sound B g s →
      g.space id = some sp → sp.hole = none → (∀ u, sp.leaf u = none) →
      sp.table (l + 1) v = some x → (∀ j, j < i → sp.table l (v * 512 + j) = none) →
      Returns (freeEntries child x m i) s fun _ t => ∃ g' sp', Sound B g' t ∧
        Shrinks id (fun l' _ => l' ≤ l) sp sp' g g' ∧ sp'.hole = none ∧
        ∀ j, j < 512 → sp'.table l (v * 512 + j) = none := by
  induction m with
  | zero =>
    intro i g s sp last h hsp whole bare hx done
    exact returns_pure ⟨g, sp, h, .refl hsp, whole, fun j hj => done j (by omega)⟩
  | succ m ih =>
    intro i g s sp last h hsp whole bare hx done
    have laid := h.laid id sp hsp
    have word := laid.node l v x i hx (by omega) (by simp [whole])
    refine readPte_bind ?_
    cases here : sp.table l (v * 512 + i) with
    | none =>
      rw [here, Option.elim_none] at word
      rw [word, Nat.zero_and, if_neg (by simp), if_neg (by simp)]
      refine ih (by omega) h hsp whole bare hx fun j hj => ?_
      rcases Nat.lt_succ_iff_lt_or_eq.mp hj with low | rfl
      · exact done j low
      · exact here
    | some y =>
      rw [here, Option.elim_some] at word
      rw [word, if_pos ⟨tablePte_valid y, tablePte_not_leaf y⟩, pte2pa_tablePte (laid.addr _ _ _ here)]
      refine (frees h hsp whole bare here).bind ?_
      rintro - t ⟨g1, sp1, sound, shrinks, hole, gone⟩
      have hx1 : sp1.table (l + 1) v = some x := by rw [shrinks.tables _ _ (by unfold Under; omega), hx]
      refine writePte_bind ?_
      have cleared := sound.unlink shrinks.space_eq hx1 (by omega) hole gone
      have step : Shrinks id (fun l' _ => l' ≤ l) sp { sp1 with hole := none } g
        (g1.setSpace id (some { sp1 with hole := none })) := by
        refine ⟨?_, shrinks.rest, shrinks.leaf, fun l' v' keep => ?_, shrinks.owner⟩
        · rw [Ghost.setSpace, shrinks.space, Function.update_idem]
        · exact shrinks.tables l' v' (by unfold Under; omega)
      refine (ih (by omega) cleared (space_same _) rfl (fun u => ?_) hx1 fun j hj => ?_).mono ?_
      · exact (congrFun shrinks.leaf u).trans (bare u)
      · rcases Nat.lt_succ_iff_lt_or_eq.mp hj with low | rfl
        · exact (shrinks.tables _ _ (by unfold Under; omega)).trans (done j low)
        · exact gone
      · rintro - t' ⟨g', sp', sound', shrinks', whole', all⟩
        exact ⟨g', sp', sound', step.trans shrinks' (fun _ _ low => low), whole', all⟩

lemma freeEntries_leaves (h : Sound B g s)
    (hsp : g.space id = some sp) (bare : ∀ u, sp.leaf u = none) (hx : sp.table 0 v = some x) :
    ∀ {i : Nat}, i + m = 512 → Returns (freeEntries child x m i) s fun _ t => t = s := by
  induction m with
  | zero => exact fun _ => returns_pure rfl
  | succ m ih =>
    intro i last
    have word := (h.laid id sp hsp).leaves v x i hx (by omega)
    rw [bare, Option.elim_none] at word
    refine readPte_bind ?_
    rw [word, Nat.zero_and, if_neg (by simp), if_neg (by simp)]
    exact ih (by omega)

lemma kfree_shrinks (h : Sound B g s) (hsp : g.space id = some sp) (whole : sp.hole = none) (hx : sp.table l v = some x)
    (children : ∀ l' j, l = l' + 1 → j < 512 → sp.table l' (v * 512 + j) = none)
    (bare : ∀ u, sp.leaf u = none) :
    Returns (kfree B x) s fun _ t => ∃ g' sp', Sound B g' t ∧
      Shrinks id (Under l v) sp sp' g g' ∧ sp'.hole = some (l, v) ∧ sp'.table l v = none := by
  refine (kfree_table_returns h hsp hx whole children (fun k _ _ => bare _)).mono fun _ t sound => ?_
  refine ⟨_, _, sound, ⟨rfl, rfl, rfl, fun l' v' keep => ?_, fun z => ?_⟩, rfl, sp.setTable_same l v none⟩
  · exact sp.setTable_other none fun same => keep (.inr same)
  · rcases eq_or_ne z x with rfl | ne
    · exact .inr ⟨⟨l, v, h.owner_table hsp hx⟩, by simp⟩
    · left
      rw [space_owner, give_other ne]

lemma freewalk_frees : ∀ l, Frees B id l (freewalk B (l + 1)) := by
  intro l
  induction l with
  | zero =>
    intro v x g s sp h hsp whole bare hx
    refine (freeEntries_leaves h hsp bare hx rfl).bind ?_
    rintro - t rfl
    exact kfree_shrinks h hsp whole hx (fun _ _ e => absurd e (by simp)) bare
  | succ l ih =>
    intro v x g s sp h hsp whole bare hx
    refine (freeEntries_returns ih rfl h hsp whole bare hx (fun j hj => absurd hj j.not_lt_zero)).bind ?_
    rintro - t ⟨g1, sp1, sound, shrinks, whole1, gone⟩
    have hx1 : sp1.table (l + 1) v = some x := by rw [shrinks.tables _ _ (by omega), hx]
    have bare1 : ∀ u, sp1.leaf u = none := fun u => (congrFun shrinks.leaf u).trans (bare u)
    refine (kfree_shrinks sound shrinks.space_eq whole1 hx1 (fun l' j e hj => ?_) bare1).mono ?_
    · obtain rfl : l = l' := by omega
      exact gone j hj
    · rintro - t' ⟨g', sp', sound', shrinks', hole, none_⟩
      refine ⟨g', sp', sound', ?_, hole, none_⟩
      have wider : Shrinks id (Under (l + 1) v) sp sp1 g g1 :=
        ⟨shrinks.space, shrinks.rest, shrinks.leaf,
          fun l' v' keep => shrinks.tables l' v' fun low => keep (.inl (by omega)), shrinks.owner⟩
      exact wider.trans shrinks' fun _ _ low => low

lemma no_tables (h : Laid mem sp) (root : sp.table 2 0 = none) : ∀ l v, sp.table l v = none := by
  have upper : ∀ d l v, l + d = 2 → sp.table l v = none := by
    intro d
    induction d with
    | zero =>
      intro l v top
      cases here : sp.table l v with
      | none => rfl
      | some x =>
        obtain rfl : l = 2 := top
        rw [(h.top 2 v x here).2 rfl, root] at here
        exact here.symm
    | succ d ih =>
      intro l v below
      cases here : sp.table l v with
      | none => rfl
      | some x =>
        have up := h.up l v x here (by omega)
        rw [ih (l + 1) (v / 512) (by omega)] at up
        exact absurd up (by simp)
  intro l v
  cases here : sp.table l v with
  | none => rfl
  | some x =>
    rw [upper (2 - l) l v (by have := (h.top l v x here).1; omega)] at here
    exact here.symm

lemma freewalk_returns (h : HasTable B g s id root P (fun _ => False) (fun _ => none)) :
    Returns (freewalk B 3 root) s fun _ t => ∃ g', Sound B g' t ∧ NoTable g' id ∧ Keeps id g g' := by
  obtain ⟨sp, hsp, whole, hroot, cov⟩ := h.space
  have bare : ∀ u, sp.leaf u = none := fun u => cov.fixed u not_false
  refine (freewalk_frees 2 h.sound hsp whole bare hroot).mono ?_
  rintro - t ⟨g', sp', sound, shrinks, -, gone⟩
  have empty := no_tables (sound.laid id sp' shrinks.space_eq) gone
  refine ⟨_, sound.forget shrinks.space_eq empty, ⟨space_same _, fun y u hy => ?_⟩,
    shrinks.keeps.trans (keeps_setSpace _)⟩
  rw [space_owner] at hy
  rcases shrinks.owner y with e | ⟨-, e⟩
  · rw [e] at hy
    exact (cov.only y u hy).1
  · simp [hy] at e

end Xv6.PageFree
