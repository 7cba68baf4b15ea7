import Xv6.PageOwner

/-! A page table as a finite map from virtual pages to entries, whatever the words in it: `tableAt`
reads the page-table pages off memory, by depth under the root and index there, `leafAt` the valid
entries at the last level. -/

namespace Xv6.PageMap

open ByteFields VmMachine PageTable PageOwner Total Function Option

def valid (page : Bytes pgsize) (i : Nat) : Option Nat :=
  if pteAt page i &&& pteV ≠ 0 then some (pteAt page i) else none

def tableAt (mem : Nat → Bytes pgsize) (root : Nat) : Nat → Nat → Option Nat
  | 0, v => if v = 0 then some root else none
  | d + 1, v => (tableAt mem root d (v / 512)).bind fun x => (valid (mem x) (v % 512)).map pte2pa

def leafAt (mem : Nat → Bytes pgsize) (root u : Nat) : Option Nat :=
  (tableAt mem root 2 (u / 512)).bind fun x => valid (mem x) (u % 512)

def InTree (mem : Nat → Bytes pgsize) (root x : Nat) : Prop :=
  ∃ d v, d ≤ 2 ∧ tableAt mem root d v = some x

def Tree (mem : Nat → Bytes pgsize) (root : Nat) : Prop :=
  ∀ d v d' v' x, d ≤ 2 → d' ≤ 2 → tableAt mem root d v = some x → tableAt mem root d' v' = some x →
    d = d' ∧ v = v'

def physLimit : Nat := 2 ^ 56

def Frame (x : Nat) : Prop := x % pgsize = 0 ∧ x < physLimit

variable {mem mem' : Nat → Bytes pgsize} {root x y d v u j w : Nat}

lemma valid_zeros (i) : valid (fill 0) i = none := by simp [valid]

lemma valid_putPte (hj : j < 512) (hw : w < 256 ^ 8) : valid (putPte page j w) i =
    if i = j then (if w &&& pteV ≠ 0 then some w else none) else valid page i := by
  unfold valid putPte
  rw [pteAt_setField hj hw]
  split_ifs <;> rfl

lemma entry_lt_word (addr : x < physLimit) (h : flags < 1024) : pa2pte x + flags < 256 ^ 8 := by
  unfold physLimit at addr
  unfold pa2pte
  omega

lemma tableAt_congr (same : ∀ x, InTree mem root x → mem' x = mem x) (hd : d ≤ 2) (v) :
    tableAt mem' root d v = tableAt mem root d v := by
  induction d generalizing v with
  | zero => rfl
  | succ d ih =>
    unfold tableAt
    rw [ih (by omega)]
    cases here : tableAt mem root d (v / 512) with
    | none => simp only [bind_none]
    | some x => rw [bind_some, bind_some, same x ⟨d, _, by omega, here⟩]

lemma leafAt_congr (same : ∀ x, InTree mem root x → mem' x = mem x) (u) : leafAt mem' root u = leafAt mem root u := by
  unfold leafAt
  rw [tableAt_congr same le_rfl]
  cases here : tableAt mem root 2 (u / 512) with
  | none => simp only [bind_none]
  | some x => rw [bind_some, bind_some, same x ⟨2, _, le_rfl, here⟩]

lemma Tree.congr (h : Tree mem root)
    (same : ∀ d v, d ≤ 2 → tableAt mem' root d v = tableAt mem root d v) : Tree mem' root := by
  intro d v d' v' x hd hd' hx hx'
  rw [same d v hd] at hx
  rw [same d' v' hd'] at hx'
  exact h d v d' v' x hd hd' hx hx'

lemma inTree_congr (same : ∀ d v, d ≤ 2 → tableAt mem' root d v = tableAt mem root d v) :
    InTree mem' root x ↔ InTree mem root x := by
  constructor <;> rintro ⟨d, v, hd, hx⟩
  · exact ⟨d, v, hd, by rwa [same d v hd] at hx⟩
  · exact ⟨d, v, hd, by rwa [same d v hd]⟩

section
/-- Memory after the page-table page `x` has been entered in the page `y`. -/
def linked (mem : Nat → Bytes pgsize) (y j x : Nat) : Nat → Bytes pgsize :=
  Function.update mem y (putPte (mem y) j (tablePte x))

lemma valid_link (hj : j < 512) (addr : Frame x) : (valid (putPte page j (tablePte x)) i).map pte2pa =
    if i = j then some x else (valid page i).map pte2pa := by
  have small : tablePte x < 256 ^ 8 := by
    rw [tablePte_eq]
    exact entry_lt_word addr.2 (by decide)
  rw [valid_putPte hj small, if_pos (tablePte_valid x)]
  split_ifs
  · rw [map_some, tablePte_eq, pte2pa_add addr.1 (by decide)]
  · rfl

lemma tableAt_absent (hy : tableAt mem root d v = some y) (hj : j < 512)
    (absent : valid (mem y) j = none) : tableAt mem root (d + 1) (v * 512 + j) = none := by
  have up : (v * 512 + j) / 512 = v := by omega
  have last : (v * 512 + j) % 512 = j := by omega
  unfold tableAt
  rw [up, last, hy, bind_some, absent, map_none]

section
variable (tree : Tree mem root) (hy : tableAt mem root d v = some y) (hd : d < 2) (hj : j < 512)
  (absent : valid (mem y) j = none) (fresh : ¬ InTree mem root x) (zero : mem x = fill 0)
  (addr : Frame x)
include tree hy hd hj absent fresh zero addr

lemma tableAt_link (hd' : d' ≤ 2) (v') : tableAt (linked mem y j x) root d' v' =
    if d' = d + 1 ∧ v' = v * 512 + j then some x else tableAt mem root d' v' := by
  have ne : x ≠ y := by
    rintro rfl
    exact fresh ⟨d, v, by omega, hy⟩
  induction d' generalizing v' with
  | zero =>
    rw [if_neg (by omega)]
    rfl
  | succ e ih =>
    have step : tableAt (linked mem y j x) root (e + 1) v' =
      (tableAt (linked mem y j x) root e (v' / 512)).bind fun p =>
        (valid (linked mem y j x p) (v' % 512)).map pte2pa := rfl
    rw [step, ih (by omega)]
    by_cases under : e = d + 1 ∧ v' / 512 = v * 512 + j
    · -- the entries of the new page are all invalid, and there was no page before
      obtain ⟨rfl, index⟩ := under
      have old : tableAt mem root (d + 1 + 1) v' = none := by
        unfold tableAt
        rw [index, tableAt_absent hy hj absent, bind_none]
      rw [if_pos ⟨rfl, index⟩, if_neg (by omega), bind_some, linked, update_of_ne ne, zero, valid_zeros, old, map_none]
    · rw [if_neg under]
      have parent : tableAt mem root (e + 1) v' = (tableAt mem root e (v' / 512)).bind fun p =>
        (valid (mem p) (v' % 512)).map pte2pa := rfl
      cases here : tableAt mem root e (v' / 512) with
      | none =>
        rw [if_neg, parent, here, bind_none, bind_none]
        rintro ⟨same, rfl⟩
        obtain rfl : e = d := by omega
        have up : (v * 512 + j) / 512 = v := by omega
        rw [up, hy] at here
        cases here
      | some p =>
        rw [bind_some]
        by_cases hp : p = y
        · subst hp
          obtain ⟨rfl, rfl⟩ := tree _ _ _ _ _ (by omega) (by omega) here hy
          rw [linked, update_self, valid_link hj addr, parent, here, bind_some]
          by_cases last : v' % 512 = j
          · rw [if_pos last, if_pos ⟨rfl, by omega⟩]
          · rw [if_neg last, if_neg (by omega)]
        · rw [linked, update_of_ne hp, if_neg, parent, here, bind_some]
          rintro ⟨same, rfl⟩
          obtain rfl : e = d := by omega
          have up : (v * 512 + j) / 512 = v := by omega
          rw [up, hy] at here
          exact hp (some.inj here).symm

lemma leafAt_link (u) : leafAt (linked mem y j x) root u = leafAt mem root u := by
  have ne : x ≠ y := by
    rintro rfl
    exact fresh ⟨d, v, by omega, hy⟩
  unfold leafAt
  rw [tableAt_link tree hy hd hj absent fresh zero addr le_rfl]
  split_ifs with here
  · have old := tableAt_absent hy hj absent
    rw [here.1, here.2, old, bind_some, linked, update_of_ne ne, zero, valid_zeros, bind_none]
  · cases at_ : tableAt mem root 2 (u / 512) with
    | none => simp only [bind_none]
    | some p =>
      have hp : p ≠ y := by
        rintro rfl
        have := (tree _ _ _ _ _ le_rfl (by omega) at_ hy).1
        omega
      rw [bind_some, bind_some, linked, update_of_ne hp]

lemma inTree_link (h : InTree (linked mem y j x) root z) : InTree mem root z ∨ z = x := by
  obtain ⟨d', v', hd', hz⟩ := h
  rw [tableAt_link tree hy hd hj absent fresh zero addr hd'] at hz
  split_ifs at hz
  · exact .inr (some.inj hz).symm
  · exact .inl ⟨d', v', hd', hz⟩

lemma Tree.link : Tree (linked mem y j x) root := by
  intro d1 v1 d2 v2 z hd1 hd2 h1 h2
  rw [tableAt_link tree hy hd hj absent fresh zero addr hd1] at h1
  rw [tableAt_link tree hy hd hj absent fresh zero addr hd2] at h2
  split_ifs at h1 h2 with new1 new2 new2
  · exact ⟨new1.1.trans new2.1.symm, new1.2.trans new2.2.symm⟩
  · cases h1
    exact absurd ⟨d2, v2, hd2, h2⟩ fresh
  · cases h2
    exact absurd ⟨d1, v1, hd1, h1⟩ fresh
  · exact tree _ _ _ _ _ hd1 hd2 h1 h2

end

end

variable {k : Nat}

lemma tableAt_setLeaf (tree : Tree mem root) (hy : tableAt mem root 2 v = some y)
    (hd : d ≤ 2) (v') : tableAt (update mem y (putPte (mem y) k w)) root d v' = tableAt mem root d v' := by
  induction d generalizing v' with
  | zero => rfl
  | succ d ih =>
    unfold tableAt
    rw [ih (by omega)]
    cases here : tableAt mem root d (v' / 512) with
    | none => simp only [bind_none]
    | some p =>
      have hp : p ≠ y := by
        rintro rfl
        have := (tree _ _ _ _ _ (by omega) le_rfl here hy).1
        omega
      rw [bind_some, bind_some, update_of_ne hp]

lemma leafAt_setLeaf (tree : Tree mem root) (hy : tableAt mem root 2 v = some y) (hk : k < 512) (hw : w < 256 ^ 8) (u) :
    leafAt (update mem y (putPte (mem y) k w)) root u =
      if u = v * 512 + k then (if w &&& pteV ≠ 0 then some w else none) else leafAt mem root u := by
  unfold leafAt
  rw [tableAt_setLeaf tree hy le_rfl]
  cases here : tableAt mem root 2 (u / 512) with
  | none =>
    rw [if_neg, bind_none, bind_none]
    rintro rfl
    have up : (v * 512 + k) / 512 = v := by omega
    rw [up, hy] at here
    cases here
  | some p =>
    rw [bind_some, bind_some]
    by_cases hp : p = y
    · subst hp
      obtain ⟨-, rfl⟩ := tree _ _ _ _ _ le_rfl le_rfl here hy
      rw [update_self, valid_putPte hk hw]
      by_cases last : u % 512 = k
      · have here : u = u / 512 * 512 + k := by omega
        rw [if_pos last, if_pos here]
      · rw [if_neg last, if_neg (by omega)]
    · rw [update_of_ne hp, if_neg]
      rintro rfl
      have up : (v * 512 + k) / 512 = v := by omega
      rw [up, hy] at here
      exact hp (some.inj here).symm

section
variable {n : Nat} {B : Board} {s t : Kernel n} {E : String → Prop}

/-- The pages in `held` and those on the free list are distinct pages outside the tree. -/
def Apart (s : Kernel n) (root : Nat) (held : List Nat) : Prop :=
  ∃ l, Chain s.mem s.freelist l ∧ (held ++ l).Nodup ∧
    ∀ x ∈ held ++ l, Frame x ∧ ¬ InTree s.mem root x

/-- A tree of distinct page-table pages, none of which `kalloc` will return. -/
structure Shape (s : Kernel n) (root : Nat) : Prop where
  tree : Tree s.mem root
  apart : Apart s root []

def lookup (B : Board) (s : Kernel n) (root va : Nat) : Option Nat :=
  match walk B root va false s with
  | .ok (some (table, i), t) =>
    if pteAt (t.mem table) i &&& pteV ≠ 0 then some (pteAt (t.mem table) i) else none
  | _ => none

lemma safe_readPte_bind {k : Nat → K n α}
    (h : Safe E (k (pteAt (s.mem x) i)) s R) : Safe E (readPte x i >>= k) s R := by
  have read : Safe E (readPte x i) s fun r t => r = pteAt (s.mem x) i ∧ t = s := safe_of_eq rfl ⟨rfl, rfl⟩
  refine read.bind fun r t same => ?_
  rw [same.1, same.2]
  exact h

lemma safe_writePte_bind {k : Unit → K n α}
    (h : Safe E (k ()) (s.store x (putPte (s.mem x) i pte)) R) : Safe E (writePte x i pte >>= k) s R :=
  h

lemma valid_eq_none : valid page i = none ↔ pteAt page i &&& pteV = 0 := by simp [valid]

lemma valid_inv (h : valid page i = some w) : pteAt page i = w ∧ w &&& pteV ≠ 0 := by
  unfold valid at h
  split_ifs at h with ok
  have eq := some.inj h
  rw [eq] at ok
  exact ⟨eq, ok⟩

lemma index_div (va level) : va / pgsize / 512 ^ (level + 1) / 512 = va / pgsize / 512 ^ (level + 2) := by
  rw [Nat.div_div_eq_div_mul, ← pow_succ]

lemma walkFrom_lookup (hl : level ≤ 2)
    (hx : tableAt s.mem root (2 - level) (va / pgsize / 512 ^ (level + 1)) = some x) :
    walkFrom B va false level x s = .ok (tableAt s.mem root 2 (va / pgsize / 512), s) := by
  induction level generalizing x with
  | zero =>
    rw [zero_add, pow_one] at hx
    rw [hx]
    rfl
  | succ level ih =>
    have depth : 2 - level = 2 - (level + 1) + 1 := by omega
    have down : tableAt s.mem root (2 - level) (va / pgsize / 512 ^ (level + 1)) =
      (valid (s.mem x) (px (level + 1) va)).map pte2pa := by
      rw [depth]
      unfold tableAt
      rw [index_div, hx, bind_some, px]
    have run : walkFrom B va false (level + 1) x s = (if pteAt (s.mem x) (px (level + 1) va) &&& pteV ≠ 0 then
      walkFrom B va false level (pte2pa (pteAt (s.mem x) (px (level + 1) va)))
      else pure none : K n (Option Nat)) s := by
      rfl
    rw [run]
    cases entry : valid (s.mem x) (px (level + 1) va) with
    | none =>
      rw [valid_eq_none.mp entry, if_neg (by simp)]
      rw [entry] at down
      -- nothing lies under an invalid entry
      have under : tableAt s.mem root 2 (va / pgsize / 512) = none := by
        have cases : level = 0 ∨ level = 1 := by omega
        rcases cases with rfl | rfl
        · simpa using down
        · unfold tableAt
          have up : va / pgsize / 512 / 512 = va / pgsize / 512 ^ 2 := by rw [Nat.div_div_eq_div_mul, pow_two]
          rw [up]
          rw [down, map_none, bind_none]
      rw [under]
      rfl
    | some w =>
      obtain ⟨word, ok⟩ := valid_inv entry
      rw [word, if_pos ok]
      exact ih (by omega) (by rw [down, entry, map_some])

lemma root_at (low : va < maxVa) (mem) : tableAt mem root (2 - 2) (va / pgsize / 512 ^ (2 + 1)) = some root := by
  rw [root_index low]
  rfl

lemma walk_lookup (low : va < maxVa) : walk B root va false s =
    .ok ((tableAt s.mem root 2 (va / pgsize / 512)).map fun x => (x, px 0 va), s) := by
  unfold walk
  rw [if_neg (by omega)]
  exact bind_of_eq (walkFrom_lookup le_rfl (root_at low s.mem))

lemma px_zero (va) : px 0 va = va / pgsize % 512 := by simp [px]

lemma lookup_eq (low : va < maxVa) : lookup B s root va = leafAt s.mem root (va / pgsize) := by
  unfold lookup leafAt
  rw [walk_lookup low]
  cases tableAt s.mem root 2 (va / pgsize / 512) with
  | none => rfl
  | some x =>
    rw [← px_zero, bind_some, valid]
    rfl

section

lemma kalloc_safe (h : Shape s root) : Safe E (kalloc B) s fun r t => (∀ x, InTree s.mem root x → t.mem x = s.mem x) ∧
    (r = 0 ∧ Apart t root [] ∨ r ≠ 0 ∧ Apart t root [r]) := by
  obtain ⟨l, chain, nodup, outside⟩ := h.apart
  apply safe_get
  dsimp only
  split_ifs with fails
  · exact ⟨fun _ _ => rfl, .inl ⟨rfl, l, chain, nodup, outside⟩⟩
  · cases l with
    | nil => exact absurd (.inr chain) fails
    | cons x l =>
      obtain ⟨head, pos, tail⟩ := chain
      have fresh := outside s.freelist (by simp [head])
      have same : ∀ y, InTree s.mem root y → (update s.mem s.freelist (fill 5)) y = s.mem y := by
        intro y hy
        rw [update_of_ne]
        rintro rfl
        exact fresh.2 hy
      refine ⟨same, .inr ⟨by rwa [head], l, ?_, ?_, ?_⟩⟩
      · have later : Chain s.mem (field (s.mem s.freelist) 0 8) l := by rwa [head]
        refine later.congr fun y hy => ?_
        have ne : y ≠ s.freelist := by
          rintro rfl
          rw [head] at hy
          exact (List.nodup_cons.mp nodup).1 hy
        simp [Kernel.store, ne]
      · rw [head]
        exact nodup
      · intro y hy
        obtain ⟨frame, out⟩ := outside y (by rw [head] at hy; exact hy)
        refine ⟨frame, fun inside => out ?_⟩
        exact (inTree_congr fun d v hd => tableAt_congr same hd v).mp inside

structure Extends (root : Nat) (s t : Kernel n) : Prop where
  shape : Shape t root
  leaf : ∀ u, leafAt t.mem root u = leafAt s.mem root u

lemma walkFrom_alloc_safe {va : Nat} {level x : Nat} (hl : level ≤ 2) (h : Shape s root)
    (hx : tableAt s.mem root (2 - level) (va / pgsize / 512 ^ (level + 1)) = some x) :
    Safe E (walkFrom B va true level x) s fun r t => Extends root s t ∧
      ∀ b, r = some b → tableAt t.mem root 2 (va / pgsize / 512) = some b := by
  induction level generalizing s x with
  | zero =>
    refine safe_pure ⟨⟨h, fun _ => rfl⟩, fun b hb => ?_⟩
    rw [← some.inj hb]
    exact hx
  | succ level ih =>
    have depth : 2 - level = 2 - (level + 1) + 1 := by omega
    have down (mem : Nat → Bytes pgsize)
      (hx : tableAt mem root (2 - (level + 1)) (va / pgsize / 512 ^ (level + 2)) = some x) :
      tableAt mem root (2 - level) (va / pgsize / 512 ^ (level + 1)) =
        (valid (mem x) (px (level + 1) va)).map pte2pa := by
      rw [depth]
      unfold tableAt
      rw [index_div, hx, bind_some, px]
    apply safe_readPte_bind
    cases entry : valid (s.mem x) (px (level + 1) va) with
    | some w =>
      obtain ⟨word, ok⟩ := valid_inv entry
      rw [word, if_pos ok]
      exact ih (by omega) h (by rw [down s.mem hx, entry, map_some])
    | none =>
      rw [valid_eq_none.mp entry, if_neg (by simp), if_pos rfl]
      apply Safe.bind (kalloc_safe h)
      rintro r t ⟨same, ⟨rfl, apart⟩ | ⟨pos, l, chain, nodup, outside⟩⟩
      · refine safe_pure ⟨⟨⟨h.tree.congr fun d v hd => tableAt_congr same hd v, apart⟩,
          fun u => leafAt_congr same u⟩, nofun⟩
      · -- the new page is zeroed and entered in `x`
        have frame := (outside r (by simp)).1
        have fresh := (outside r (by simp)).2
        have inside : InTree s.mem root x := ⟨_, _, by omega, hx⟩
        obtain ⟨mem, hmem⟩ : ∃ mem, mem = update t.mem r (fill 0) := ⟨_, rfl⟩
        have sames : ∀ y, InTree s.mem root y → mem y = s.mem y := by
          intro y hy
          rw [hmem, update_of_ne, same y hy]
          rintro rfl
          exact fresh ((inTree_congr fun d v hd => tableAt_congr same hd v).mpr hy)
        have tables := fun d v (hd : d ≤ 2) => tableAt_congr sames hd v
        have tree := h.tree.congr tables
        have hx' : tableAt mem root (2 - (level + 1)) (va / pgsize / 512 ^ (level + 2)) = some x := by
          rw [tables _ _ (by omega)]
          exact hx
        have absent : valid (mem x) (px (level + 1) va) = none := by
          rw [sames x inside]
          exact entry
        have fresh' : ¬ InTree mem root r := by
          intro hr
          exact fresh ((inTree_congr fun d v hd => tableAt_congr same hd v).mpr ((inTree_congr tables).mp hr))
        have zero : mem r = fill 0 := by rw [hmem, update_self]
        have index := index_px (level + 1) va
        rw [if_neg pos]
        apply safe_mod
        apply safe_writePte_bind
        have here : ((t.store r (fill 0)).store x (putPte ((t.store r (fill 0)).mem x)
          (px (level + 1) va) (pa2pte r ||| pteV))).mem = linked mem x (px (level + 1) va) r := by
          rw [hmem]
          rfl
        have shape : Shape ((t.store r (fill 0)).store x (putPte ((t.store r (fill 0)).mem x)
          (px (level + 1) va) (pa2pte r ||| pteV))) root := by
          refine ⟨?_, l, ?_, by simpa using (List.nodup_cons.mp nodup).2, fun y hy => ?_⟩
          · rw [here]
            exact tree.link hx' (by omega) (px_lt _ _) absent fresh' zero frame
          · refine chain.congr fun y hy => ?_
            have free := (outside y (by simp [hy])).2
            have hyx : y ≠ x := by
              rintro rfl
              exact free ((inTree_congr fun d v hd => tableAt_congr same hd v).mpr inside)
            have hyr : y ≠ r := by
              rintro rfl
              exact (List.nodup_cons.mp nodup).1 hy
            rw [here, linked, update_of_ne hyx, hmem, update_of_ne hyr]
          · rw [List.nil_append] at hy
            obtain ⟨frame', out⟩ := outside y (by simp [hy])
            refine ⟨frame', fun inside' => ?_⟩
            rw [here] at inside'
            rcases inTree_link tree hx' (by omega) (px_lt _ _) absent fresh' zero frame inside' with
              old | rfl
            · exact out ((inTree_congr fun d v hd => tableAt_congr same hd v).mpr ((inTree_congr tables).mp old))
            · exact (List.nodup_cons.mp nodup).1 hy
        have at_ : tableAt (linked mem x (px (level + 1) va) r) root (2 - level)
          (va / pgsize / 512 ^ (level + 1)) = some r := by
          rw [tableAt_link tree hx' (by omega) (px_lt _ _) absent fresh' zero frame (by omega),
            if_pos ⟨depth, index.symm⟩]
        apply (ih (by omega) shape (by rw [here]; exact at_)).mono
        rintro b u ⟨later, found⟩
        refine ⟨⟨later.shape, fun w => ?_⟩, found⟩
        rw [later.leaf, here, leafAt_link tree hx' (by omega) (px_lt _ _) absent fresh' zero frame]
        exact leafAt_congr sames w

lemma walk_alloc_safe (h : Shape s root) (high : maxVa ≤ va → E "walk") :
    Safe E (walk B root va true) s fun r t => va < maxVa ∧ Extends root s t ∧
      ∀ b, r = some b → ∃ x, b = (x, px 0 va) ∧ tableAt t.mem root 2 (va / pgsize / 512) = some x := by
  unfold walk
  split_ifs with out
  · exact high out
  · apply Safe.bind (walkFrom_alloc_safe le_rfl h (root_at (by omega) s.mem))
    rintro r t ⟨later, found⟩
    refine safe_pure ⟨by omega, later, fun b hb => ?_⟩
    obtain ⟨x, rfl, rfl⟩ := map_eq_some_iff.mp hb
    exact ⟨x, rfl, found x rfl⟩

end

section

-- `walk` compares addresses with `maxVa`, which must not be computed with
attribute [local irreducible] walk

def mapPte (pa perm : Nat) : Nat := pa2pte pa ||| perm ||| pteV

lemma mapPte_eq (h : perm < 1024) : mapPte pa perm = pa2pte pa + (perm ||| pteV) := by
  unfold mapPte
  rw [Nat.or_assoc, pa2pte_add_eq_or (or_pteV_lt h)]

lemma mapPte_lt (addr : pa < physLimit) (h : perm < 1024) : mapPte pa perm < 256 ^ 8 := by
  rw [mapPte_eq h]
  exact entry_lt_word addr (or_pteV_lt h)

lemma mapPte_valid (h : perm < 1024) : mapPte pa perm &&& pteV ≠ 0 := by
  rw [mapPte_eq h, and_flags (or_pteV_lt h) (by decide), or_pteV_and_pteV]
  decide

lemma pte2pa_mapPte (aligned : pa % pgsize = 0) (h : perm < 1024) : pte2pa (mapPte pa perm) = pa := by
  rw [mapPte_eq h, pte2pa_add aligned (or_pteV_lt h)]

lemma pteFlags_mapPte (h : perm < 1024) : pteFlags (mapPte pa perm) = perm ||| pteV := by
  rw [mapPte_eq h, pteFlags_add (or_pteV_lt h)]

lemma Shape.setLeaf (h : Shape s root) (hy : tableAt s.mem root 2 v = some y) :
    Shape (s.store y (putPte (s.mem y) k w)) root := by
  have tables := fun d v' (hd : d ≤ 2) => tableAt_setLeaf (k := k) (w := w) h.tree hy hd v'
  obtain ⟨l, chain, nodup, outside⟩ := h.apart
  refine ⟨h.tree.congr tables, l, chain.congr fun x hx => ?_, nodup, fun x hx => ?_⟩
  · have ne : x ≠ y := by
      rintro rfl
      exact (outside x hx).2 ⟨2, v, le_rfl, hy⟩
    exact update_of_ne ne ..
  · obtain ⟨frame, out⟩ := outside x hx
    exact ⟨frame, fun inside => out ((inTree_congr tables).mp inside)⟩

/-- The entries after `mappages` has gone through `m` pages from page `u₀` on. -/
def mapped (old : Nat → Option Nat) (u₀ m pa perm u : Nat) : Option Nat :=
  if u₀ ≤ u ∧ u < u₀ + m then some (mapPte (pa + (u - u₀) * pgsize) perm) else old u

lemma next_page (a) : (a + pgsize) / pgsize = a / pgsize + 1 := Nat.add_div_right a (by decide)

lemma mapStep_safe {rest : K n Bool} {R : Bool → Kernel n → Prop}
    (flags : perm < 1024) (h : Shape s root) (small : pa < physLimit) (high : maxVa ≤ a → E "walk")
    (taken : leafAt s.mem root (a / pgsize) ≠ none → E "mappages: remap")
    (fails : ∀ t, Extends root s t → R false t)
    (goes : ∀ t, a < maxVa → Shape t root → (∀ u, leafAt t.mem root u =
      if u = a / pgsize then some (mapPte pa perm) else leafAt s.mem root u) → Safe E rest t R) :
    Safe E (do
      match ← walk B root a true with
      | none => return false
      | some (table, i) =>
        let pte ← readPte table i
        if pte &&& pteV ≠ 0 then throw "mappages: remap"
        writePte table i (pa2pte pa ||| perm ||| pteV)
        rest) s R := by
  apply Safe.bind (walk_alloc_safe h high)
  rintro r t ⟨low, later, found⟩
  cases r with
  | none => exact safe_pure (fails t later)
  | some b =>
    obtain ⟨x, rfl, hx⟩ := found b rfl
    apply safe_readPte_bind
    by_cases isValid : pteAt (t.mem x) (px 0 a) &&& pteV ≠ 0
    · rw [if_pos isValid]
      refine safe_throw_bind (taken ?_)
      rw [← later.leaf, leafAt, hx, bind_some, ← px_zero, valid, if_pos isValid]
      exact some_ne_none _
    · rw [if_neg isValid]
      apply safe_writePte_bind
      refine goes _ low (later.shape.setLeaf hx) fun u => ?_
      have leaf := leafAt_setLeaf later.shape.tree hx (px_lt 0 a) (mapPte_lt small flags) u
      rw [index_px_zero, if_pos (mapPte_valid flags), later.leaf] at leaf
      exact leaf

lemma mapFrom_safe {perm : Nat} (flags : perm < 1024) {m : Nat} (a pa) (h : Shape s root)
    (small : pa + m * pgsize < physLimit)
    (high : maxVa ≤ a + m * pgsize → E "walk")
    (taken : (∃ u, a / pgsize ≤ u ∧ u ≤ a / pgsize + m ∧ leafAt s.mem root u ≠ none) → E "mappages: remap") :
    Safe E (mapFrom B root (a + m * pgsize) perm (m + 1) a pa) s fun ok t => Shape t root ∧
      (ok = true → a + m * pgsize < maxVa ∧ ∀ u, leafAt t.mem root u =
        mapped (leafAt s.mem root) (a / pgsize) (m + 1) pa perm u) ∧
      ∀ u, (u < a / pgsize ∨ a / pgsize + m < u) → leafAt t.mem root u = leafAt s.mem root u := by
  induction m generalizing s a pa with
  | zero =>
    refine mapStep_safe flags h (by omega) (fun out => high (by omega)) (fun some => taken ⟨_, le_rfl, le_rfl, some⟩)
      (fun t later => ⟨later.shape, nofun, fun u _ => later.leaf u⟩) fun t low shape leaf => ?_
    rw [if_pos (by omega)]
    refine safe_pure ⟨shape, fun _ => ⟨by omega, fun u => ?_⟩, fun u out => ?_⟩
    · rw [leaf]
      unfold mapped
      by_cases here : u = a / pgsize
      · subst here
        rw [if_pos rfl, if_pos (by omega), Nat.sub_self, zero_mul, add_zero]
      · rw [if_neg here, if_neg (by omega)]
    · rw [leaf, if_neg (by omega)]
  | succ m ih =>
    have size : (m + 1) * pgsize = m * pgsize + pgsize := Nat.succ_mul ..
    have page : 0 < pgsize := by decide
    have last : a + (m + 1) * pgsize = a + pgsize + m * pgsize := by omega
    have next := next_page a
    refine mapStep_safe flags h (by omega) (fun out => high (by omega)) (fun some => taken ⟨_, le_rfl, by omega, some⟩)
      (fun t later => ⟨later.shape, nofun, fun u _ => later.leaf u⟩) fun t low shape leaf => ?_
    rw [if_neg (by omega), last]
    refine (ih (a + pgsize) (pa + pgsize) shape (by omega) (fun out => high (by omega)) ?_).mono ?_
    · rw [next]
      rintro ⟨u, lo, hi, some⟩
      refine taken ⟨u, by omega, by omega, fun none => some ?_⟩
      rw [leaf, if_neg (by omega), none]
    · rw [next]
      rintro ok v ⟨shape', done, kept⟩
      refine ⟨shape', fun yes => ⟨(done yes).1, fun u => ?_⟩, fun u out => ?_⟩
      · rw [(done yes).2 u]
        unfold mapped
        by_cases here : u = a / pgsize
        · subst here
          rw [if_neg (by omega), if_pos (by omega), Nat.sub_self, zero_mul, add_zero, leaf, if_pos rfl]
        · by_cases inside : a / pgsize + 1 ≤ u ∧ u < a / pgsize + 1 + (m + 1)
          · have dist : u - a / pgsize = u - (a / pgsize + 1) + 1 := by omega
            have addr : pa + pgsize + (u - (a / pgsize + 1)) * pgsize = pa + (u - a / pgsize) * pgsize := by
              rw [dist, Nat.succ_mul]
              omega
            rw [if_pos inside, if_pos (by omega), addr]
          · rw [if_neg inside, if_neg (by omega), leaf, if_neg here]
      · rw [kept u (by omega), leaf, if_neg (by omega)]

end

section

lemma kfree_safe (out : ¬ InTree s.mem root pa) (bad : (pa % pgsize ≠ 0 ∨ pa < B.end_ ∨ physTop ≤ pa) → E "kfree") :
    Safe E (kfree B pa) s fun _ t => ∀ x, InTree s.mem root x → t.mem x = s.mem x := by
  unfold kfree
  split_ifs with wrong
  · exact bad wrong
  · intro x inside
    refine update_of_ne ?_ ..
    rintro rfl
    exact out inside

/-- What `uvmunmap` needs of the `m` pages from page `u₀` on, in memory `mem`: the pages
it frees are no page-table pages. -/
def Freeable (mem : Nat → Bytes pgsize) (root u₀ m : Nat) : Prop :=
  ∀ u pte, u₀ ≤ u → u < u₀ + m → u * pgsize < maxVa → leafAt mem root u = some pte →
    ¬ InTree mem root (pte2pa pte)

structure UnmapPanics (E : String → Prop) (B : Board) (old : Nat → Option Nat) (u₀ m : Nat)
    (doFree : Bool) : Prop where
  walk : maxVa < (u₀ + m) * pgsize → E "walk"
  unmapped : (∃ u, u₀ ≤ u ∧ u < u₀ + m ∧ old u = none) →
    E "uvmunmap: walk" ∧ E "uvmunmap: not mapped"
  table : (∃ u pte, u₀ ≤ u ∧ u < u₀ + m ∧ old u = some pte ∧ pteFlags pte = pteV) →
    E "uvmunmap: not a leaf"
  free : doFree = true → (∃ u pte, u₀ ≤ u ∧ u < u₀ + m ∧ old u = some pte ∧
    (pte2pa pte % pgsize ≠ 0 ∨ pte2pa pte < B.end_ ∨ physTop ≤ pte2pa pte)) → E "kfree"

lemma UnmapPanics.tail (h : UnmapPanics E B old u0 (m + 1) doFree) (same : ∀ u, u0 < u → new u = old u) :
    UnmapPanics E B new (u0 + 1) m doFree := by
  refine ⟨fun out => h.walk ?_, ?_, ?_, fun yes => ?_⟩
  · rwa [show u0 + (m + 1) = u0 + 1 + m by omega]
  · rintro ⟨u, lo, hi, none⟩
    exact h.unmapped ⟨u, by omega, by omega, by rw [← same u (by omega), none]⟩
  · rintro ⟨u, pte, lo, hi, at_, flags⟩
    exact h.table ⟨u, pte, by omega, by omega, by rw [← same u (by omega), at_], flags⟩
  · rintro ⟨u, pte, lo, hi, at_, bad⟩
    exact h.free yes ⟨u, pte, by omega, by omega, by rw [← same u (by omega), at_], bad⟩

lemma clear_leaf (tree : Tree mem root) (hx : tableAt mem root 2 (va / pgsize / 512) = some x) (u) :
    leafAt (update mem x (putPte (mem x) (px 0 va) 0)) root u =
      if u = va / pgsize then none else leafAt mem root u := by
  have leaf := leafAt_setLeaf (w := 0) tree hx (px_lt 0 va) (by decide) u
  rw [index_px_zero] at leaf
  simpa using leaf

lemma unmapFrom_safe {doFree : Bool} {m a : Nat} (tree : Tree s.mem root)
    (aligned : a % pgsize = 0) (free : doFree = true → Freeable s.mem root (a / pgsize) m)
    (panics : UnmapPanics E B (leafAt s.mem root) (a / pgsize) m doFree) :
    Safe E (unmapFrom B root doFree m a) s fun _ t => Tree t.mem root ∧ ∀ u, leafAt t.mem root u =
      if a / pgsize ≤ u ∧ u < a / pgsize + m then none else leafAt s.mem root u := by
  induction m generalizing s a with
  | zero => exact safe_pure ⟨tree, fun u => by rw [if_neg (by omega)]⟩
  | succ m ih =>
    unfold unmapFrom
    have page : a = a / pgsize * pgsize := by
      have := Nat.div_add_mod' a pgsize
      omega
    by_cases high : maxVa ≤ a
    · have out : walk B root a false s = .error "walk" := by
        unfold walk
        rw [if_pos high]
        rfl
      have all : E "walk" := by
        refine panics.walk ?_
        rw [add_mul, ← page, Nat.succ_mul]
        have : 0 < pgsize := by decide
        omega
      have run : Safe E (walk B root a false) s fun _ _ => False := by
        rw [Safe, out]
        exact all
      exact run.bind fun _ _ no => no.elim
    · apply safe_bind_eq (walk_lookup (by omega))
      cases hx : tableAt s.mem root 2 (a / pgsize / 512) with
      | none =>
        refine safe_throw (panics.unmapped ⟨a / pgsize, le_rfl, by omega, ?_⟩).1
        rw [leafAt, hx, bind_none]
      | some x =>
        rw [map_some]
        have entry : leafAt s.mem root (a / pgsize) = valid (s.mem x) (px 0 a) := by
          rw [leafAt, hx, bind_some, px_zero]
        apply safe_readPte_bind
        have rest : ∀ t : Kernel n, (∀ d v, d ≤ 2 → tableAt t.mem root d v = tableAt s.mem root d v) →
          (∀ u, leafAt t.mem root u = leafAt s.mem root u) →
          Safe E (do writePte x (px 0 a) 0; unmapFrom B root doFree m (a + pgsize)) t
            fun _ t => Tree t.mem root ∧ ∀ u, leafAt t.mem root u =
              if a / pgsize ≤ u ∧ u < a / pgsize + (m + 1) then none else leafAt s.mem root u := by
          intro t tables leaves
          have tree' := tree.congr tables
          have hx' : tableAt t.mem root 2 (a / pgsize / 512) = some x := by rw [tables _ _ le_rfl, hx]
          have next := next_page a
          have leaf : ∀ u, leafAt (t.store x (putPte (t.mem x) (px 0 a) 0)).mem root u =
            if u = a / pgsize then none else leafAt s.mem root u := by
            intro u
            rw [← leaves u]
            exact clear_leaf tree' hx' u
          have tables' : ∀ d v, d ≤ 2 → tableAt (t.store x (putPte (t.mem x) (px 0 a) 0)).mem root d v =
            tableAt s.mem root d v := by
            intro d v hd
            rw [← tables d v hd]
            exact tableAt_setLeaf tree' hx' hd v
          apply safe_writePte_bind
          apply (ih (tree.congr tables') (by rw [Nat.add_mod_right]; exact aligned) ?_ ?_).mono
          · rintro _ u ⟨tree'', gone⟩
            refine ⟨tree'', fun w => ?_⟩
            rw [gone, next, leaf]
            split_ifs <;> first | rfl | omega
          · intro yes u pte lo hi low at_ inside
            rw [leaf, if_neg (by omega)] at at_
            exact free yes u pte (by omega) (by omega) low at_ ((inTree_congr tables').mp inside)
          · rw [next]
            exact panics.tail fun u lt => by rw [leaf, if_neg (by omega)]
        by_cases invalid : pteAt (s.mem x) (px 0 a) &&& pteV = 0
        · rw [if_pos invalid]
          refine safe_throw_bind (panics.unmapped ⟨a / pgsize, le_rfl, by omega, ?_⟩).2
          rw [entry, valid_eq_none.mpr invalid]
        have at_ : leafAt s.mem root (a / pgsize) = some (pteAt (s.mem x) (px 0 a)) := by
          rw [entry, valid, if_pos invalid]
        rw [if_neg invalid]
        by_cases table : pteFlags (pteAt (s.mem x) (px 0 a)) = pteV
        · rw [if_pos table]
          exact safe_throw_bind (panics.table ⟨a / pgsize, _, le_rfl, by omega, at_, table⟩)
        rw [if_neg table]
        by_cases yes : doFree = true
        · rw [if_pos yes]
          apply Safe.bind (kfree_safe (free yes _ _ le_rfl (by omega) (by omega) at_) fun bad =>
            panics.free yes ⟨_, _, le_rfl, by omega, at_, bad⟩)
          intro _ t same
          exact rest t (fun d v hd => tableAt_congr same hd v) (leafAt_congr same)
        · rw [if_neg yes]
          exact rest s (fun _ _ _ => rfl) fun _ => rfl

end

section

lemma mappages_safe (h : Shape s root) (flags : perm < 1024)
    (small : pa + size ≤ physLimit) (bad : va % pgsize ≠ 0 → E "mappages: va not aligned")
    (odd : size % pgsize ≠ 0 → E "mappages: size not aligned") (zero : size = 0 → E "mappages: size")
    (high : maxVa < va + size → E "walk")
    (taken : (∃ u, va / pgsize ≤ u ∧ u < va / pgsize + size / pgsize ∧ leafAt s.mem root u ≠ none) →
      E "mappages: remap") :
    Safe E (mappages B root va size pa perm) s fun ok t => va % pgsize = 0 ∧ size % pgsize = 0 ∧ Shape t root ∧
      (ok = true → ∀ u, leafAt t.mem root u = mapped (leafAt s.mem root) (va / pgsize) (size / pgsize) pa perm u) ∧
      ∀ u, (u < va / pgsize ∨ va / pgsize + size / pgsize ≤ u) → leafAt t.mem root u = leafAt s.mem root u := by
  unfold mappages
  by_cases aligned : va % pgsize = 0
  swap
  · rw [if_pos aligned]
    exact safe_throw_bind (bad aligned)
  by_cases whole : size % pgsize = 0
  swap
  · rw [if_neg (not_not.mpr aligned), if_pos whole]
    exact safe_throw_bind (odd whole)
  by_cases none : size = 0
  · rw [if_neg (not_not.mpr aligned), if_neg (not_not.mpr whole), if_pos none]
    exact safe_throw_bind (zero none)
  rw [if_neg (not_not.mpr aligned), if_neg (not_not.mpr whole), if_neg none]
  obtain ⟨m, rfl⟩ : ∃ m, size = (m + 1) * pgsize := by
    refine ⟨size / pgsize - 1, ?_⟩
    unfold pgsize at *
    omega
  have page : 0 < pgsize := by decide
  have count : (m + 1) * pgsize / pgsize = m + 1 := Nat.mul_div_cancel _ page
  have size : (m + 1) * pgsize = m * pgsize + pgsize := Nat.succ_mul ..
  have last : va + (m + 1) * pgsize - pgsize = va + m * pgsize := by omega
  rw [count] at taken ⊢
  rw [last]
  refine (mapFrom_safe flags va pa h (by omega) (fun out => high (by omega)) ?_).mono ?_
  · rintro ⟨u, lo, hi, some⟩
    exact taken ⟨u, lo, by omega, some⟩
  · rintro ok t ⟨shape, done, kept⟩
    exact ⟨aligned, whole, shape, fun yes => (done yes).2, fun u out => kept u (by omega)⟩

lemma page_range (a) (aligned : va % pgsize = 0) (whole : size % pgsize = 0) :
    (va / pgsize ≤ a / pgsize ∧ a / pgsize < va / pgsize + size / pgsize) ↔ va ≤ a ∧ a < va + size := by
  unfold pgsize at *
  omega

lemma page_distance (aligned : va % pgsize = 0) (le : va ≤ a) : a / pgsize - va / pgsize = (a - va) / pgsize := by
  unfold pgsize at *
  omega

def MapsRange (old new : Nat → Option Nat) (va size pa perm : Nat) : Prop :=
  ∀ a, a < maxVa →
    (va ≤ a → a < va + size → ∃ pte, new a = some pte ∧
      pte2pa pte = pa + (a - va) / pgsize * pgsize ∧ pteFlags pte = perm ||| pteV) ∧
    ((a < va ∨ va + size ≤ a) → new a = old a)

lemma mapsRange_of_mapped (aligned : va % pgsize = 0)
    (whole : size % pgsize = 0) (frame : pa % pgsize = 0) (flags : perm < 1024)
    (done : ∀ u, leafAt t.mem root u = mapped (leafAt s.mem root) (va / pgsize) (size / pgsize) pa perm u) :
    MapsRange (lookup B s root) (lookup B t root) va size pa perm := by
  intro a low
  have range := page_range a aligned whole
  rw [lookup_eq low, lookup_eq low, done]
  unfold mapped
  refine ⟨fun lo hi => ?_, fun out => ?_⟩
  · rw [if_pos (range.mpr ⟨lo, hi⟩), page_distance aligned lo]
    refine ⟨_, rfl, pte2pa_mapPte ?_ flags, pteFlags_mapPte flags⟩
    rw [Nat.add_mul_mod_self_right]
    exact frame
  · rw [if_neg]
    intro inside
    omega

lemma uvmunmap_safe (tree : Tree s.mem root) (bad : va % pgsize ≠ 0 → E "uvmunmap: not aligned")
    (free : doFree = true → Freeable s.mem root (va / pgsize) npages)
    (panics : UnmapPanics E B (leafAt s.mem root) (va / pgsize) npages doFree) :
    Safe E (uvmunmap B root va npages doFree) s fun _ t => va % pgsize = 0 ∧ Tree t.mem root ∧
      ∀ u, leafAt t.mem root u =
        if va / pgsize ≤ u ∧ u < va / pgsize + npages then none else leafAt s.mem root u := by
  unfold uvmunmap
  by_cases aligned : va % pgsize = 0
  · rw [if_neg (not_not.mpr aligned)]
    exact (unmapFrom_safe tree aligned free panics).mono fun _ t post => ⟨aligned, post⟩
  · rw [if_pos aligned]
    exact safe_throw_bind (bad aligned)

def ClearsRange (old new : Nat → Option Nat) (va size : Nat) : Prop :=
  ∀ a, a < maxVa → new a = if va ≤ a ∧ a < va + size then none else old a

lemma page_in_range (aligned : va % pgsize = 0) (lo : va / pgsize ≤ u)
    (hi : u < va / pgsize + npages) : va ≤ u * pgsize ∧ u * pgsize < va + npages * pgsize := by
  unfold pgsize at *
  omega

lemma lookup_page (low : u * pgsize < maxVa) : lookup B s root (u * pgsize) = leafAt s.mem root u := by
  rw [lookup_eq low, Nat.mul_div_cancel _ (by decide)]

end

end

variable {n : Nat} {B : Board} {s : Kernel n}

def FreesNoTable (B : Board) (s : Kernel n) (root va size : Nat) : Prop :=
  ∀ a pte, va ≤ a → a < va + size → a < maxVa → lookup B s root a = some pte →
    ¬ InTree s.mem root (pte2pa pte)

lemma FreesNoTable.freeable (h : FreesNoTable B s root va (npages * pgsize))
    (aligned : va % pgsize = 0) : Freeable s.mem root (va / pgsize) npages := by
  intro u pte lo hi low at_
  have range := page_in_range aligned lo hi
  exact h (u * pgsize) pte range.1 range.2 low (by rw [lookup_page low, at_])

section
variable (shape : Shape s root)
include shape

lemma walk_refines (low : va < maxVa) : Returns (walk B root va true) s fun _ t => Shape t root ∧
    ∀ a, a < maxVa → lookup B t root a = lookup B s root a := by
  refine (walk_alloc_safe shape fun out => absurd out (by omega)).returns.mono ?_
  rintro r t ⟨-, later, -⟩
  refine ⟨later.shape, fun a ha => ?_⟩
  rw [lookup_eq ha, lookup_eq ha, later.leaf]

lemma mappages_refines (frame : pa % pgsize = 0) (small : pa + size ≤ physLimit) (flags : perm < 1024) :
    Ensures (mappages B root va size pa perm) s fun ok t => Shape t root ∧
      (ok = true → MapsRange (lookup B s root) (lookup B t root) va size pa perm) ∧
      ∀ a, a < maxVa → (a < va ∨ va + size ≤ a) → lookup B t root a = lookup B s root a := by
  have safe : Safe (fun _ => True) (mappages B root va size pa perm) s _ :=
    mappages_safe shape flags small (fun _ => trivial) (fun _ => trivial) (fun _ => trivial)
      (fun _ => trivial) (fun _ => trivial)
  refine fun ok t ran => ?_
  obtain ⟨aligned, whole, shape', done, kept⟩ := safe.ensures ok t ran
  refine ⟨shape', fun yes => mapsRange_of_mapped aligned whole frame flags (done yes), ?_⟩
  intro a low out
  have range := page_range a aligned whole
  rw [lookup_eq low, lookup_eq low]
  exact kept _ (by omega)

lemma mappages_returns (small : pa + size ≤ physLimit) (flags : perm < 1024) (aligned : va % pgsize = 0)
    (whole : size % pgsize = 0) (some : 0 < size) (low : va + size ≤ maxVa)
    (unmapped : ∀ a, va ≤ a → a < va + size → lookup B s root a = none) :
    Returns (mappages B root va size pa perm) s fun _ _ => True := by
  refine (mappages_safe shape flags small (absurd aligned) (absurd whole) (by omega) (by omega)
    ?_).returns.mono fun _ _ _ => trivial
  rintro ⟨u, lo, hi, mapped⟩
  have range := page_in_range aligned lo hi
  have size := Nat.div_mul_cancel (Nat.dvd_of_mod_eq_zero whole)
  rw [size] at range
  have gone := unmapped (u * pgsize) range.1 range.2
  rw [lookup_page (by omega)] at gone
  exact mapped gone

lemma uvmunmap_refines (free : doFree = true → FreesNoTable B s root va (npages * pgsize)) :
    Ensures (uvmunmap B root va npages doFree) s fun _ t => Tree t.mem root ∧
      ClearsRange (lookup B s root) (lookup B t root) va (npages * pgsize) := by
  intro r t ran
  by_cases aligned : va % pgsize = 0
  · have safe : Safe (fun _ => True) (uvmunmap B root va npages doFree) s _ :=
      uvmunmap_safe shape.tree (fun _ => trivial) (fun yes => (free yes).freeable aligned)
      ⟨fun _ => trivial, fun _ => ⟨trivial, trivial⟩, fun _ => trivial, fun _ _ => trivial⟩
    obtain ⟨-, tree, cleared⟩ := safe.ensures r t ran
    refine ⟨tree, fun a low => ?_⟩
    have page : 0 < pgsize := by decide
    have range := page_range a aligned (Nat.mul_mod_left npages pgsize)
    rw [Nat.mul_div_cancel _ page] at range
    rw [lookup_eq low, lookup_eq low, cleared]
    simp [range]
  · unfold uvmunmap at ran
    rw [if_pos aligned] at ran
    cases ran

lemma uvmunmap_returns (free : doFree = true → FreesNoTable B s root va (npages * pgsize))
    (aligned : va % pgsize = 0) (low : va + npages * pgsize ≤ maxVa)
    (mapped : ∀ a, va ≤ a → a < va + npages * pgsize → ∃ pte, lookup B s root a = some pte ∧
      pteFlags pte ≠ pteV ∧ (doFree = true → B.end_ ≤ pte2pa pte ∧ pte2pa pte < physTop)) :
    Returns (uvmunmap B root va npages doFree) s fun _ _ => True := by
  have entry : ∀ u, va / pgsize ≤ u → u < va / pgsize + npages → ∃ pte,
    leafAt s.mem root u = some pte ∧ pteFlags pte ≠ pteV ∧
      (doFree = true → B.end_ ≤ pte2pa pte ∧ pte2pa pte < physTop) := by
    intro u lo hi
    have range := page_in_range aligned lo hi
    have at_ := mapped (u * pgsize) range.1 range.2
    rwa [lookup_page (by omega)] at at_
  have none_ : ∀ u pte, va / pgsize ≤ u → u < va / pgsize + npages → leafAt s.mem root u = some pte →
    pteFlags pte ≠ pteV ∧ (doFree = true → B.end_ ≤ pte2pa pte ∧ pte2pa pte < physTop) := by
    intro u pte lo hi at_
    obtain ⟨pte', at', rest⟩ := entry u lo hi
    rw [at'] at at_
    rwa [← some.inj at_]
  refine (uvmunmap_safe shape.tree (absurd aligned) (fun yes => (free yes).freeable aligned)
    ⟨fun out => ?_, ?_, ?_, fun yes => ?_⟩).returns.mono fun _ _ _ => trivial
  · unfold pgsize at *
    omega
  · rintro ⟨u, lo, hi, gone⟩
    obtain ⟨pte, at_, -⟩ := entry u lo hi
    rw [gone] at at_
    cases at_
  · rintro ⟨u, pte, lo, hi, at_, flags⟩
    exact (none_ u pte lo hi at_).1 flags
  · rintro ⟨u, pte, lo, hi, at_, bad⟩
    have bounds := (none_ u pte lo hi at_).2 yes
    have multiple : pte2pa pte % pgsize = 0 := Nat.mul_mod_left ..
    omega

end

/-- `walk`, `mappages` and `uvmunmap` are operations on the finite map that `lookup`
reads from a tree of distinct page-table pages. -/
theorem page_table_refines_map {n : Nat} {B : Board} {s : Kernel n} {root : Nat} (shape : Shape s root) :
    (∀ va, va < maxVa → Returns (walk B root va true) s fun _ t => Shape t root ∧
      ∀ a, a < maxVa → lookup B t root a = lookup B s root a) ∧
    (∀ va size pa perm, pa % pgsize = 0 → pa + size ≤ physLimit → perm < 1024 →
      (Ensures (mappages B root va size pa perm) s fun ok t => Shape t root ∧
        (ok = true → MapsRange (lookup B s root) (lookup B t root) va size pa perm) ∧
        ∀ a, a < maxVa → (a < va ∨ va + size ≤ a) → lookup B t root a = lookup B s root a) ∧
      (va % pgsize = 0 → size % pgsize = 0 → 0 < size → va + size ≤ maxVa →
        (∀ a, va ≤ a → a < va + size → lookup B s root a = none) →
        Returns (mappages B root va size pa perm) s fun _ _ => True)) ∧
    (∀ va npages doFree, (doFree = true → FreesNoTable B s root va (npages * pgsize)) →
      (Ensures (uvmunmap B root va npages doFree) s fun _ t => Tree t.mem root ∧
        ClearsRange (lookup B s root) (lookup B t root) va (npages * pgsize)) ∧
      (va % pgsize = 0 → va + npages * pgsize ≤ maxVa →
        (∀ a, va ≤ a → a < va + npages * pgsize → ∃ pte, lookup B s root a = some pte ∧ pteFlags pte ≠ pteV ∧
          (doFree = true → B.end_ ≤ pte2pa pte ∧ pte2pa pte < physTop)) →
        Returns (uvmunmap B root va npages doFree) s fun _ _ => True)) :=
  ⟨fun _ low => walk_refines shape low, fun _ _ _ _ frame small flags => ⟨mappages_refines shape frame small flags,
      fun aligned whole some low unmapped => mappages_returns shape small flags aligned whole some low unmapped⟩,
    fun _ _ _ free => ⟨uvmunmap_refines shape free,
      fun aligned low mapped => uvmunmap_returns shape free aligned low mapped⟩⟩

lemma tableAt_fresh (zero : mem root = fill 0) (d v) : tableAt mem root (d + 1) v = none := by
  induction d generalizing v with
  | zero =>
    unfold tableAt tableAt
    split
    · rw [bind_some, zero, valid_zeros, map_none]
    · rw [bind_none]
  | succ d ih =>
    unfold tableAt
    rw [ih, bind_none]

lemma shape_fresh (zero : s.mem root = fill 0)
    (chain : Chain s.mem s.freelist l) (nodup : l.Nodup) (frames : ∀ x ∈ l, Frame x ∧ x ≠ root) :
    Shape s root := by
  have only : ∀ d v x, tableAt s.mem root d v = some x → d = 0 ∧ v = 0 ∧ x = root := by
    intro d v x hx
    cases d with
    | zero =>
      unfold tableAt at hx
      split_ifs at hx with zero
      exact ⟨rfl, zero, (some.inj hx).symm⟩
    | succ d =>
      rw [tableAt_fresh zero] at hx
      cases hx
  refine ⟨?_, l, chain, nodup, fun x hx => ⟨(frames x hx).1, ?_⟩⟩
  · intro d v d' v' x _ _ hx hx'
    obtain ⟨rfl, rfl, -⟩ := only d v x hx
    obtain ⟨rfl, rfl, -⟩ := only d' v' x hx'
    exact ⟨rfl, rfl⟩
  · rintro ⟨d, v, -, hx'⟩
    exact (frames x hx).2 (only d v x hx').2.2

def freshBoard : Board where
  end_ := kernBase + pgsize
  trampoline := kernBase
  refuse _ := false
  trampoline_aligned := by decide
  kernBase_le := by decide
  trampoline_lt := by decide
  end_le := by decide

def freshKernel : Kernel 1 where
  mem _ := fill 0
  freelist := kernBase + 2 * pgsize
  calls := 0
  proc _ := ⟨.unused, none, 0, 0, 0, 0, []⟩
  held := []
  pipes := []

theorem page_table_refines_map_fresh : Shape freshKernel (kernBase + pgsize) ∧ ∃ ok t,
    mappages freshBoard (kernBase + pgsize) 0 pgsize (kernBase + 3 * pgsize) pteR freshKernel = .ok (ok, t) ∧
    Shape t (kernBase + pgsize) ∧
    (ok = true → MapsRange (lookup freshBoard freshKernel (kernBase + pgsize))
      (lookup freshBoard t (kernBase + pgsize)) 0 pgsize (kernBase + 3 * pgsize) pteR) := by
  have shape : Shape freshKernel (kernBase + pgsize) := by
    refine shape_fresh (l := [kernBase + 2 * pgsize]) rfl ⟨rfl, by decide, field_zeros 0 8⟩
      (List.nodup_singleton _) fun x hx => ?_
    rw [List.mem_singleton.mp hx]
    exact ⟨⟨by decide, by decide⟩, by decide⟩
  have unmapped : ∀ a, 0 ≤ a → a < 0 + pgsize → lookup freshBoard freshKernel (kernBase + pgsize) a = none := by
    intro a _ low
    rw [lookup_eq (lt_of_lt_of_le low (by decide)), leafAt, tableAt_fresh rfl, Option.bind_none]
  obtain ⟨ensures, returns⟩ :=
    (page_table_refines_map shape).2.1 0 pgsize (kernBase + 3 * pgsize) pteR (by decide) (by decide) (by decide)
  obtain ⟨ok, t, ran, -⟩ := returns (by decide) (by decide) (by decide) (by decide) unmapped
  obtain ⟨kept, maps, -⟩ := ensures ok t ran
  exact ⟨shape, ok, t, ran, kept, maps⟩

end Xv6.PageMap
