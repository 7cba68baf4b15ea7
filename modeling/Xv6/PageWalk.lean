import Xv6.PageOwner

/-! `walk`, `mappages` and `uvmunmap` over owned pages. `HasTable` describes one
page table between two such calls: the virtual pages in `S` are mapped to pages
of their own, and every other virtual page is mapped as `F` says. -/

namespace Xv6.PageWalk

open ByteFields VmMachine PageTable PageOwner Total Function Option

variable {n : Nat} {B : Board} {g g' : Ghost n} {s t : Kernel n} {x : Nat} {id : TableId n}

variable {α : Type}

lemma readPte_bind (h : Returns (k (pteAt (s.mem pagetable) i)) s R) : Returns (readPte pagetable i >>= k) s R := by
  have read : Returns (readPte pagetable i) s fun r t => r = pteAt (s.mem pagetable) i ∧ t = s :=
    ⟨pteAt (s.mem pagetable) i, s, rfl, rfl, rfl⟩
  refine read.bind fun r t same => ?_
  rw [same.1, same.2]
  exact h

lemma writePte_bind (h : Returns (k ()) (s.store pagetable (putPte (s.mem pagetable) i pte)) R) :
    Returns (writePte pagetable i pte >>= k) s R :=
  h

lemma memset_bind (h : Returns (k ()) (s.store x (fill c)) R) : Returns (memset x c >>= k) s R := h

variable {sp : Space}

/-- What `walk` does with `alloc` set: page-table pages are added to the space
of `id`, and nothing else changes. -/
structure Grows (id : TableId n) (sp sp' : Space) (g g' : Ghost n) : Prop where
  space : g'.space = Function.update g.space id (some sp')
  rest : g'.rest = g.rest
  leaf : sp'.leaf = sp.leaf
  hole : sp'.hole = none
  tables : ∀ l v x, sp.table l v = some x → sp'.table l v = some x
  owner : ∀ z, g'.owner z = g.owner z ∨ g.owner z = .free ∧ ∃ l v, g'.owner z = .table id l v

lemma Grows.refl (hsp : g.space id = some sp) (whole : sp.hole = none) : Grows id sp sp g g :=
  ⟨by simp [← hsp], rfl, rfl, whole, fun _ _ _ hx => hx, fun _ => .inl rfl⟩

lemma Grows.space_eq (h : Grows id sp sp' g g') : g'.space id = some sp' := by rw [h.space, update_self]

lemma Grows.trans (h : Grows id sp sp' g g') (h' : Grows id sp' sp'' g' g'') : Grows id sp sp'' g g'' where
  space := by rw [h'.space, h.space, update_idem]
  rest := h'.rest.trans h.rest
  leaf := h'.leaf.trans h.leaf
  hole := h'.hole
  tables l v x hx := h'.tables l v x (h.tables l v x hx)
  owner z := by
    rcases h'.owner z with e | ⟨free, l, v, e⟩
    · rw [e]
      exact h.owner z
    · rcases h.owner z with e' | ⟨free', l', v', e'⟩
      · exact .inr ⟨e'.symm.trans free, l, v, e⟩
      · simp [free] at e'

lemma walkFrom_returns (h : Sound B g s) (hsp : g.space id = some sp) (whole : sp.hole = none) :
    ∀ {level page : Nat}, sp.table level (va / pgsize / 512 ^ (level + 1)) = some page →
      Returns (walkFrom B va false level page) s fun r t =>
        t = s ∧ r = sp.table 0 (va / pgsize / 512) := by
  intro level
  induction level with
  | zero =>
    intro page hp
    exact returns_pure ⟨rfl, hp.symm⟩
  | succ level ih =>
    intro page hp
    have laid := h.laid id sp hsp
    have word := laid.entry whole hp
    refine readPte_bind ?_
    cases child : sp.table level (va / pgsize / 512 ^ (level + 1)) with
    | none =>
      rw [child, elim_none] at word
      rw [word, Nat.zero_and, if_neg (by simp), if_neg (by simp)]
      exact returns_pure ⟨rfl, (laid.none_below (by have := laid.top _ _ _ hp; omega) child).symm⟩
    | some y =>
      rw [child, elim_some] at word
      rw [word, if_pos (tablePte_valid y), pte2pa_tablePte (laid.addr _ _ _ child)]
      exact ih child

lemma grows_link (id : TableId n) (whole : sp.hole = none) (own : g.owner x = .free) (absent : sp.table l v = none) :
    Grows id sp (sp.setTable l v (some x)) g
      (((g.give x .temp).give x (.table id l v)).setSpace id (some (sp.setTable l v (some x)))) where
  space := rfl
  rest := rfl
  leaf := rfl
  hole := whole
  tables l' v' y hy := by
    rw [sp.setTable_other]
    · exact hy
    · rintro ⟨rfl, rfl⟩
      simp [absent] at hy
  owner z := by
    rcases eq_or_ne z x with rfl | ne
    · exact .inr ⟨own, l, v, by simp⟩
    · left
      rw [space_owner, give_other ne, give_other ne]

lemma walkFrom_alloc_returns : ∀ {level page : Nat} {g : Ghost n} {s : Kernel n} {sp : Space}, Sound B g s →
    g.space id = some sp → sp.hole = none →
    sp.table level (va / pgsize / 512 ^ (level + 1)) = some page →
    Returns (walkFrom B va true level page) s fun r t => ∃ g' sp', Sound B g' t ∧
      Grows id sp sp' g g' ∧ ∀ b, r = some b → sp'.table 0 (va / pgsize / 512) = some b := by
  intro level
  induction level with
  | zero =>
    intro page g s sp h hsp whole hp
    rw [zero_add, pow_one] at hp
    refine returns_pure ⟨g, sp, h, .refl hsp whole, fun b hb => ?_⟩
    exact hp.trans hb
  | succ level ih =>
    intro page g s sp h hsp whole hp
    have laid := h.laid id sp hsp
    have word := laid.entry whole hp
    refine readPte_bind ?_
    cases child : sp.table level (va / pgsize / 512 ^ (level + 1)) with
    | some y =>
      rw [child, elim_some] at word
      rw [word, if_pos (tablePte_valid y), pte2pa_tablePte (laid.addr _ _ _ child)]
      exact ih h hsp whole child
    | none =>
      rw [child, elim_none] at word
      rw [word, Nat.zero_and, if_neg (by simp), if_pos rfl]
      refine (kalloc_returns h).bind fun r t got => ?_
      rcases got with ⟨rfl, same⟩ | ⟨own, taken⟩
      · exact returns_pure ⟨g, sp, same, .refl hsp whole, nofun⟩
      · have managed := h.managed_of (x := r) (by simp [own])
        rw [if_neg (managed_pos managed)]
        refine memset_bind (writePte_bind ?_)
        have zeroed := taken.store (x := r) (fill 0) (by simp)
        have index := index_px (level + 1) va
        have linked := zeroed.link (x := r) hsp hp (px_lt _ _)
          (by rw [index, child]) (by simp) (by simp [Kernel.store])
        rw [index] at linked
        have grown := grows_link id whole own child
        have here : (sp.setTable level (va / pgsize / 512 ^ (level + 1)) (some r)).table level
          (va / pgsize / 512 ^ (level + 1)) = some r := sp.setTable_same _ _ _
        refine (ih linked grown.space_eq whole here).mono ?_
        rintro b u ⟨g', sp', sound, grows, found⟩
        exact ⟨g', sp', sound, grown.trans grows, found⟩

def Family (id : TableId n) : Owner n → Prop
  | .free => True
  | .table id' _ _ | .user id' _ => id' = id
  | _ => False

/-- Nothing changes but the page table `id`, its user pages and free pages. -/
structure Keeps (id : TableId n) (g g' : Ghost n) : Prop where
  rest : g'.rest = g.rest
  space : ∀ id', id' ≠ id → g'.space id' = g.space id'
  owner : ∀ x o, ¬ Family id o → (g'.owner x = o ↔ g.owner x = o)

lemma Keeps.refl (id : TableId n) (g : Ghost n) : Keeps id g g := ⟨rfl, fun _ _ => rfl, fun _ _ _ => Iff.rfl⟩

lemma Keeps.trans (h : Keeps id g g') (h' : Keeps id g' g'') : Keeps id g g'' where
  rest := h'.rest.trans h.rest
  space id' ne := (h'.space id' ne).trans (h.space id' ne)
  owner x o other := (h'.owner x o other).trans (h.owner x o other)

lemma Grows.keeps (h : Grows id sp sp' g g') : Keeps id g g' where
  rest := h.rest
  space id' ne := by rw [h.space, update_of_ne ne]
  owner x o other := by
    rcases h.owner x with e | ⟨free, l, v, e⟩
    · rw [e]
    · rw [e, free]
      refine ⟨fun eq => ?_, fun eq => ?_⟩ <;> rw [← eq] at other <;> simp [Family] at other

lemma keeps_give (before : Family id (g.owner x)) (after : Family id o) : Keeps id g (g.give x o) where
  rest := rfl
  space _ _ := rfl
  owner y o' other := by
    rcases eq_or_ne y x with rfl | ne
    · rw [give_same]
      refine ⟨fun eq => ?_, fun eq => ?_⟩
      · rw [eq] at after
        exact absurd after other
      · rw [eq] at before
        exact absurd before other
    · rw [give_other ne]

lemma keeps_setSpace (sp) : Keeps id g (g.setSpace id sp) where
  rest := rfl
  space _ ne := space_other sp ne
  owner _ _ _ := Iff.rfl

/-- The virtual pages in `S` have pages of their own, with flags in `P`; the
others are as in `F`. -/
structure Covers (g : Ghost n) (id : TableId n) (sp : Space) (P S : Nat → Prop)
    (F : Nat → Option Leaf) : Prop where
  own : ∀ u, S u → ∃ leaf, sp.leaf u = some leaf ∧ g.owner leaf.pa = .user id u ∧ P leaf.flags
  only : ∀ x u, g.owner x = .user id u → S u ∧ ∃ leaf, sp.leaf u = some leaf ∧ leaf.pa = x
  fixed : ∀ u, ¬ S u → sp.leaf u = F u
  apart : ∀ u, S u → F u = none

abbrev Table (g : Ghost n) (id : TableId n) (root : Nat) (P S : Nat → Prop)
    (F : Nat → Option Leaf) : Prop :=
  ∃ sp, g.space id = some sp ∧ sp.hole = none ∧ sp.table 2 0 = some root ∧ Covers g id sp P S F

/-- The leaf of a page that is not one of `S` changes. -/
lemma Covers.setFixed (cov : Covers g id sp P S F) (unmapped : ¬ S u) (v) :
    Covers (g.setSpace id sp') id (sp.setLeaf u v) P S (update F u v) := by
  have away : ∀ u', S u' → u' ≠ u := by
    rintro u' has rfl
    exact unmapped has
  refine ⟨fun u' has => ?_, fun y u' own => ?_, fun u' out => ?_, fun u' has => ?_⟩
  · simpa [Space.setLeaf, away u' has] using cov.own u' has
  · obtain ⟨has, found⟩ := cov.only y u' own
    exact ⟨has, by simpa [Space.setLeaf, away u' has] using found⟩
  · by_cases here : u' = u
    · subst here
      simp [Space.setLeaf]
    · simp only [Space.setLeaf, here, if_false, update_of_ne here]
      exact cov.fixed u' out
  · rw [update_of_ne (away u' has)]
    exact cov.apart u' has

structure HasTable (B : Board) (g : Ghost n) (s : Kernel n) (id : TableId n) (root : Nat)
    (P S : Nat → Prop) (F : Nat → Option Leaf) : Prop where
  sound : Sound B g s
  space : Table g id root P S F

lemma Covers.grows (h : Covers g id sp P S F) (grows : Grows id sp sp' g g') : Covers g' id sp' P S F := by
  have same : ∀ x u, g'.owner x = .user id u ↔ g.owner x = .user id u := by
    intro x u
    rcases grows.owner x with e | ⟨free, l, v, e⟩
    · rw [e]
    · simp [e, free]
  refine ⟨fun u hu => ?_, fun x u hx => ?_, fun u hu => ?_, h.apart⟩
  · obtain ⟨leaf, hl, own, flags⟩ := h.own u hu
    exact ⟨leaf, by rw [grows.leaf, hl], (same _ _).mpr own, flags⟩
  · rw [grows.leaf]
    exact h.only x u ((same x u).mp hx)
  · rw [grows.leaf]
    exact h.fixed u hu

lemma Covers.congr_owner (h : Covers g id sp P S F)
    (same : ∀ x u, g'.owner x = .user id u ↔ g.owner x = .user id u) : Covers g' id sp P S F where
  __ := h
  own u hu := by
    obtain ⟨leaf, hl, own, flags⟩ := h.own u hu
    exact ⟨leaf, hl, (same _ _).mpr own, flags⟩
  only x u hx := h.only x u ((same x u).mp hx)

section
lemma root_table (hroot : sp.table 2 0 = some root) (low : va < maxVa) :
    sp.table 2 (va / pgsize / 512 ^ (2 + 1)) = some root := by
  rw [root_index low]
  exact hroot

lemma walk_lookup (h : HasTable B g s id root P S F) (low : va < maxVa) :
    Returns (walk B root va false) s fun r t => t = s ∧ ∀ sp, g.space id = some sp →
      r = (sp.table 0 (va / pgsize / 512)).map fun b => (b, px 0 va) := by
  obtain ⟨sp, hsp, whole, hroot, -⟩ := h.space
  unfold walk
  rw [if_neg (by omega)]
  refine (walkFrom_returns h.sound hsp whole (root_table hroot low)).bind ?_
  rintro r t ⟨rfl, rfl⟩
  refine returns_pure ⟨rfl, fun sp' hsp' => ?_⟩
  rw [hsp] at hsp'
  rw [some.inj hsp']

lemma page_index (u) : u * pgsize / pgsize = u := Nat.mul_div_cancel u (by decide)

lemma page_low (low : u < maxVa / pgsize) : u * pgsize < maxVa :=
  (Nat.lt_div_iff_mul_lt' (by decide) u).mp low |> fun h => by rwa [mul_comm] at h

section
variable (h : HasTable B g s id root P S F)
include h

lemma walk_leaf (hsp : g.space id = some sp) (low : u < maxVa / pgsize) (hl : sp.leaf u = some leaf) :
    ∃ b, sp.table 0 (u / 512) = some b ∧ pteAt (s.mem b) (px 0 (u * pgsize)) = leafPte leaf ∧
      Returns (walk B root (u * pgsize) false) s fun r t =>
        t = s ∧ r = some (b, px 0 (u * pgsize)) := by
  have laid := h.sound.laid id sp hsp
  obtain ⟨b, hb⟩ := isSome_iff_exists.mp (laid.leafUp u (by simp [hl]))
  have last : sp.table 0 (u * pgsize / pgsize / 512) = some b := by rw [page_index, hb]
  have word := laid.leaf_entry last
  rw [page_index, hl, elim_some] at word
  refine ⟨b, hb, word, (walk_lookup h (page_low low)).mono ?_⟩
  rintro r t ⟨same, found⟩
  refine ⟨same, ?_⟩
  rw [found sp hsp, page_index, hb]
  rfl

lemma walk_alloc_returns (low : va < maxVa) :
    Returns (walk B root va true) s fun r t => ∃ g' sp', Sound B g' t ∧ Keeps id g g' ∧
      g'.space id = some sp' ∧ sp'.hole = none ∧ sp'.table 2 0 = some root ∧
      Covers g' id sp' P S F ∧
      (r = none ∨ ∃ b, r = some (b, px 0 va) ∧ sp'.table 0 (va / pgsize / 512) = some b) := by
  obtain ⟨sp, hsp, whole, hroot, cov⟩ := h.space
  unfold walk
  rw [if_neg (by omega)]
  refine (walkFrom_alloc_returns h.sound hsp whole (root_table hroot low)).bind ?_
  rintro r t ⟨g', sp', sound, grows, found⟩
  refine returns_pure ⟨g', sp', sound, grows.keeps, grows.space_eq, grows.hole,
    grows.tables 2 0 root hroot, cov.grows grows, ?_⟩
  cases r with
  | none => exact .inl rfl
  | some b => exact .inr ⟨b, rfl, found b rfl⟩

section
variable (low : u < maxVa / pgsize) (unmapped : ¬ S u) (none_ : F u = none)
include low unmapped none_

lemma mappages_returns (addr : PageAddr pa) (flags : LeafFlags perm) :
    Returns (mappages B root (u * pgsize) pgsize pa perm) s fun ok t => ∃ g' sp',
      Keeps id g g' ∧ g'.space id = some sp' ∧ sp'.hole = none ∧ sp'.table 2 0 = some root ∧
      Covers g' id sp' P S F ∧ (ok = false ∧ Sound B g' t ∨ ok = true ∧
        Sound B (g'.setSpace id (some (sp'.setLeaf u (some ⟨pa, perm⟩)))) t) := by
  unfold mappages
  rw [if_neg (by simp), if_neg (by simp), if_neg (by decide), Nat.div_self (by decide), Nat.add_sub_cancel]
  unfold mapFrom
  refine (walk_alloc_returns h (page_low low)).bind ?_
  rintro r t ⟨g', sp', sound, keeps, hsp, whole, hroot, cov, rfl | ⟨b, rfl, hb⟩⟩
  · exact returns_pure ⟨g', sp', keeps, hsp, whole, hroot, cov, .inl ⟨rfl, sound⟩⟩
  · have word := (sound.laid id sp' hsp).leaf_entry hb
    rw [page_index, cov.fixed u unmapped, none_, elim_none] at word
    rw [page_index] at hb
    refine readPte_bind ?_
    rw [word, Nat.zero_and, if_neg (by simp)]
    refine writePte_bind ?_
    rw [if_pos rfl]
    refine returns_pure ⟨g', sp', keeps, hsp, whole, hroot, cov, .inr ⟨rfl, ?_⟩⟩
    have index := index_px_zero (u * pgsize)
    have put := sound.putLeaf (some ⟨pa, perm⟩) hsp hb (px_lt 0 (u * pgsize)) (by
      rintro lf e
      obtain rfl := some.inj e
      exact ⟨addr, flags⟩)
    rw [page_index] at index
    rwa [index] at put

lemma mappages_user_returns (own : g.owner x = .temp) (flags : LeafFlags perm) (ok : P perm) :
    Returns (mappages B root (u * pgsize) pgsize x perm) s fun ok t => ∃ g',
      ok = false ∧ HasTable B g' t id root P S F ∧ Keeps id g g' ∨
      ok = true ∧ HasTable B g' t id root P (fun u' => S u' ∨ u' = u) F ∧
        Keeps id (g.give x (.user id u)) g' ∧ g'.owner x = .user id u := by
  have addr := (h.sound.managed_of (x := x) (by simp [own])).pageAddr
  refine (mappages_returns h low unmapped none_ addr flags).mono ?_
  rintro r t ⟨g', sp', keeps, hsp, whole, hroot, cov, ⟨rfl, sound⟩ | ⟨rfl, sound⟩⟩
  · exact ⟨g', .inl ⟨rfl, ⟨sound, sp', hsp, whole, hroot, cov⟩, keeps⟩⟩
  · have own' : g'.owner x = .temp := (keeps.owner x .temp (by simp [Family])).mpr own
    refine ⟨(g'.setSpace id (some (sp'.setLeaf u (some ⟨x, perm⟩)))).give x (.user id u),
      .inr ⟨rfl, ⟨?_, sp'.setLeaf u (some ⟨x, perm⟩), by simp, whole, hroot, ?_⟩, ?_, by simp⟩⟩
    · exact sound.reassign (by simp [own']) (by simp)
    · refine ⟨fun u' hu' => ?_, fun y u' hy => ?_, fun u' hu' => ?_, fun u' hu' => ?_⟩
      · by_cases here : u' = u
        · subst here
          exact ⟨⟨x, perm⟩, by simp [Space.setLeaf], by simp, ok⟩
        · obtain ⟨leaf, hl, mine, ok'⟩ := cov.own u' (hu'.resolve_right here)
          refine ⟨leaf, by simp [Space.setLeaf, here, hl], ?_, ok'⟩
          rw [give_other]
          · exact mine
          · rintro e
            rw [e, own'] at mine
            simp at mine
      · rcases eq_or_ne y x with rfl | ne
        · rw [give_same] at hy
          obtain rfl : u = u' := by simpa using hy
          exact ⟨.inr rfl, ⟨y, perm⟩, by simp [Space.setLeaf], rfl⟩
        · rw [give_other ne] at hy
          obtain ⟨hu', leaf, hl, e⟩ := cov.only y u' hy
          have here : u' ≠ u := by
            rintro rfl
            exact unmapped hu'
          exact ⟨.inl hu', leaf, by simp [Space.setLeaf, here, hl], e⟩
      · have here : u' ≠ u := fun e => hu' (.inr e)
        simp only [Space.setLeaf, here, if_false]
        exact cov.fixed u' (fun hs => hu' (.inl hs))
      · rcases hu' with hs | rfl
        · exact cov.apart u' hs
        · exact none_
    · refine ⟨keeps.rest, fun id' ne => ?_, fun y o other => ?_⟩
      · rw [give_space, space_other _ ne, keeps.space id' ne]
        rfl
      · rcases eq_or_ne y x with rfl | ne
        · simp
        · rw [give_other ne, give_other ne]
          exact keeps.owner y o other

lemma mappages_fixed_returns (addr : PageAddr pa) (flags : LeafFlags perm) :
    Returns (mappages B root (u * pgsize) pgsize pa perm) s fun ok t => ∃ g', Keeps id g g' ∧
      (ok = false ∧ HasTable B g' t id root P S F ∨
        ok = true ∧ HasTable B g' t id root P S (update F u (some ⟨pa, perm⟩))) := by
  refine (mappages_returns h low unmapped none_ addr flags).mono ?_
  rintro ok t ⟨g', sp', keeps, hsp, whole, hroot, cov, ⟨rfl, sound⟩ | ⟨rfl, sound⟩⟩
  · exact ⟨g', keeps, .inl ⟨rfl, sound, sp', hsp, whole, hroot, cov⟩⟩
  · exact ⟨_, keeps.trans (keeps_setSpace _), .inr ⟨rfl, sound, _, space_same _, whole, hroot,
      cov.setFixed unmapped _⟩⟩

end

lemma unmap_step (hsp : g.space id = some sp) (low : u < maxVa / pgsize) (hl : sp.leaf u = some leaf)
    (g1 : Ghost n) (space : g1.space id = some sp) {R : Unit → Kernel n → Prop}
    (freed : Returns (if doFree = true then kfree B leaf.pa else pure ()) s fun _ => Sound B g1)
    (rest : ∀ t, Sound B (g1.setSpace id (some (sp.setLeaf u none))) t →
      Returns (unmapFrom B root doFree m ((u + 1) * pgsize)) t R) :
    Returns (unmapFrom B root doFree (m + 1) (u * pgsize)) s R := by
  have laid := h.sound.laid id sp hsp
  obtain ⟨addr, flags⟩ := laid.leafOk u leaf hl
  obtain ⟨b, hb, word, walked⟩ := walk_leaf h hsp low hl
  unfold unmapFrom
  refine walked.bind ?_
  rintro r t ⟨rfl, rfl⟩
  refine readPte_bind ?_
  rw [word, if_neg (leafPte_valid flags), if_neg (pteFlags_leafPte_ne flags), pte2pa_leafPte addr flags]
  have next := Nat.succ_mul u pgsize
  have index := index_px_zero (u * pgsize)
  rw [page_index] at index
  have finish : ∀ t', Sound B g1 t' → Returns (writePte b (px 0 (u * pgsize)) 0 >>= fun _ =>
    unmapFrom B root doFree m (u * pgsize + pgsize)) t' R := by
    intro t' sound
    refine writePte_bind ?_
    rw [← next]
    refine rest _ ?_
    have put := sound.putLeaf none space hb (px_lt 0 (u * pgsize)) nofun
    rwa [index] at put
  cases doFree with
  | false =>
    obtain ⟨_, t', same, sound⟩ := freed
    cases same
    exact finish _ sound
  | true =>
    exact freed.bind fun _ t' sound => finish t' sound

end

lemma unmap_user_returns {m : Nat} :
    ∀ {lo : Nat} {g : Ghost n} {s : Kernel n} {S : Nat → Prop}, HasTable B g s id root P S F →
      (∀ u, lo ≤ u → u < lo + m → S u) → lo + m ≤ maxVa / pgsize →
      Returns (unmapFrom B root true m (lo * pgsize)) s fun _ t => ∃ g',
        HasTable B g' t id root P (fun u => S u ∧ ¬ (lo ≤ u ∧ u < lo + m)) F ∧ Keeps id g g' := by
  induction m with
  | zero =>
    intro lo g s S h _ _
    refine returns_pure ⟨g, ?_, .refl id g⟩
    have same : (fun u => S u ∧ ¬ (lo ≤ u ∧ u < lo + 0)) = S := by
      funext u
      simp only [eq_iff_iff, and_iff_left_iff_imp]
      omega
    rwa [same]
  | succ m ih =>
    intro lo g s S h range low
    obtain ⟨sp, hsp, whole, hroot, cov⟩ := h.space
    obtain ⟨leaf, hl, own, -⟩ := cov.own lo (range lo le_rfl (by omega))
    have freed := kfree_returns h.sound (x := leaf.pa) (by simp [own])
    refine unmap_step h hsp (by omega) hl (g.give leaf.pa .free) hsp freed fun t sound => ?_
    have cleared : HasTable B ((g.give leaf.pa .free).setSpace id (some (sp.setLeaf lo none))) t
      id root P (fun u => S u ∧ u ≠ lo) F := by
      refine ⟨sound, sp.setLeaf lo none, space_same _, whole, hroot, fun u hu => ?_,
        fun y u hy => ?_, fun u hu => ?_, fun u hu => cov.apart u hu.1⟩
      · obtain ⟨leaf', hl', own', flags⟩ := cov.own u hu.1
        refine ⟨leaf', by simp [Space.setLeaf, hu.2, hl'], ?_, flags⟩
        rw [space_owner, give_other]
        · exact own'
        · intro e
          rw [e, own] at own'
          exact hu.2 (by simpa using own'.symm)
      · rw [space_owner] at hy
        have ne : y ≠ leaf.pa := by
          rintro rfl
          simp at hy
        rw [give_other ne] at hy
        obtain ⟨hu, leaf', hl', e⟩ := cov.only y u hy
        have other : u ≠ lo := by
          rintro rfl
          rw [hl] at hl'
          exact ne (by rw [← e, some.inj hl'])
        exact ⟨⟨hu, other⟩, leaf', by simp [Space.setLeaf, other, hl'], e⟩
      · by_cases here : u = lo
        · subst here
          simp only [Space.setLeaf, if_true]
          exact (cov.apart u (range u le_rfl (by omega))).symm
        · simp only [Space.setLeaf, here, if_false]
          exact cov.fixed u (fun hs => hu ⟨hs, here⟩)
    refine (ih cleared (fun u lo' hi => ⟨range u (by omega) (by omega), by omega⟩) (by omega)).mono ?_
    rintro _ t' ⟨g', table, keeps⟩
    refine ⟨g', ?_, ?_⟩
    · have same : (fun u => (S u ∧ u ≠ lo) ∧ ¬ (lo + 1 ≤ u ∧ u < lo + 1 + m)) =
        fun u => S u ∧ ¬ (lo ≤ u ∧ u < lo + (m + 1)) := by
        funext u
        simp only [eq_iff_iff, and_assoc, and_congr_right_iff]
        omega
      rwa [same] at table
    · have first : Keeps id g (g.give leaf.pa .free) := keeps_give (by simp [own, Family]) trivial
      exact (first.trans (keeps_setSpace _)).trans keeps

lemma unmap_fixed_returns (h : HasTable B g s id root P S F) {u : Nat} {leaf : Leaf}
    (low : u < maxVa / pgsize) (unmapped : ¬ S u) (hl : F u = some leaf) :
    Returns (uvmunmap B root (u * pgsize) 1 false) s fun _ t => ∃ g',
      HasTable B g' t id root P S (update F u none) ∧ Keeps id g g' := by
  obtain ⟨sp, hsp, whole, hroot, cov⟩ := h.space
  have found := (cov.fixed u unmapped).trans hl
  unfold uvmunmap
  rw [if_neg (by simp)]
  refine unmap_step h hsp low found g hsp (returns_pure h.sound) fun t sound => ?_
  exact returns_pure ⟨_, ⟨sound, sp.setLeaf u none, space_same _, whole, hroot, cov.setFixed unmapped _⟩,
    keeps_setSpace _⟩

end

end Xv6.PageWalk
