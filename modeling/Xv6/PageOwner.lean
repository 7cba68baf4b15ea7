import Xv6.PageTable
import Xv6.Total
import Xv6.VmProc

/-! Who owns each physical page. A ghost state names one owner for every page and the space
of every page table; `Sound` relates it to memory. -/

namespace Xv6.PageOwner

open ByteFields VmMachine PageTable Total Function

variable {n : Nat}

/-- A page table is that of a process, or `none` while it is under construction
or torn down. -/
abbrev TableId (n : Nat) := Option (Fin n)

inductive Owner (n : Nat)
  | outside
  | free
  | kernel
  | pipe
  | arg
  | temp
  | trapframe (p : Fin n)
  | table (id : TableId n) (l v : Nat)
  | user (id : TableId n) (u : Nat)
  | frozen (page : Bytes pgsize)

@[simp] def Owner.Data : Owner n → Prop
  | .outside | .free | .table _ _ _ | .frozen _ => False
  | _ => True

structure Rest (n : Nat) where
  proc : Fin n → Proc n
  held : List Nat
  pipes : List Nat

def rest (s : Kernel n) : Rest n := ⟨s.proc, s.held, s.pipes⟩

structure Ghost (n : Nat) where
  owner : Nat → Owner n
  space : TableId n → Option Space
  rest : Rest n

def Ghost.table (g : Ghost n) (id : TableId n) (l v : Nat) : Option Nat :=
  (g.space id).bind fun sp => sp.table l v

def Ghost.give (g : Ghost n) (x : Nat) (o : Owner n) : Ghost n :=
  { g with owner := Function.update g.owner x o }

def Ghost.setSpace (g : Ghost n) (id : TableId n) (sp : Option Space) : Ghost n :=
  { g with space := Function.update g.space id sp }

def Managed (B : Board) (x : Nat) : Prop :=
  x % pgsize = 0 ∧ B.end_ ≤ x ∧ x < physTop

def Chain (mem : Nat → Bytes pgsize) : Nat → List Nat → Prop
  | head, [] => head = 0
  | head, x :: l => head = x ∧ x ≠ 0 ∧ Chain mem (field (mem x) 0 8) l

structure Sound (B : Board) (g : Ghost n) (s : Kernel n) : Prop where
  managed : ∀ x, g.owner x ≠ .outside ↔ Managed B x
  free : ∃ l, Chain s.mem s.freelist l ∧ l.Nodup ∧ ∀ x, x ∈ l ↔ g.owner x = .free
  laid : ∀ id sp, g.space id = some sp → Laid s.mem sp
  tables : ∀ id l v x, g.owner x = .table id l v ↔ g.table id l v = some x
  rest : rest s = g.rest
  frozen : ∀ x page, g.owner x = .frozen page → s.mem x = page

variable {B : Board} {g : Ghost n} {s t : Kernel n} {x : Nat} {id : TableId n}

lemma managed_pos (h : Managed B x) : x ≠ 0 := by
  have low := B.kernBase_le
  have up := B.trampoline_lt
  unfold Managed at h
  unfold kernBase at low
  omega

lemma Managed.pageAddr (h : Managed B x) : PageAddr x := ⟨h.1, h.2.2⟩

lemma Chain.congr (h : Chain mem head l) (same : ∀ x ∈ l, mem' x = mem x) : Chain mem' head l := by
  induction l generalizing head with
  | nil => exact h
  | cons x l ih =>
    obtain ⟨head_eq, pos, tail⟩ := h
    refine ⟨head_eq, pos, ?_⟩
    rw [same x List.mem_cons_self]
    exact ih tail (fun y hy => same y (List.mem_cons_of_mem x hy))

lemma Owner.Data.inside {o : Owner n} (h : o.Data) : o ≠ .outside := by
  rintro rfl
  exact h

lemma Owner.Data.used {o : Owner n} (h : o.Data) : o ≠ .free := by
  rintro rfl
  exact h

lemma Owner.Data.thawed {o : Owner n} (h : o.Data) (page : Bytes pgsize) : o ≠ .frozen page := by
  rintro rfl
  exact h

lemma Owner.Data.plain {o : Owner n} (h : o.Data) (id : TableId n) (l v) : o ≠ .table id l v := by
  rintro rfl
  exact h

@[simp] lemma give_space (o : Owner n) : (g.give x o).space = g.space := rfl

@[simp] lemma give_rest (o : Owner n) : (g.give x o).rest = g.rest := rfl

@[simp] lemma give_table (o : Owner n) : (g.give x o).table = g.table := rfl

@[simp] lemma space_owner (sp) : (g.setSpace id sp).owner = g.owner := rfl

@[simp] lemma setSpace_rest (sp) : (g.setSpace id sp).rest = g.rest := rfl

@[simp] lemma give_same (o : Owner n) : (g.give x o).owner x = o := by simp [Ghost.give]

lemma give_other {o : Owner n} (ne : y ≠ x) : (g.give x o).owner y = g.owner y := by simp [Ghost.give, ne]

@[simp] lemma give_self : g.give x (g.owner x) = g := by simp [Ghost.give]

lemma give_give (o o' : Owner n) : (g.give x o).give x o' = g.give x o' := by simp [Ghost.give]

@[simp] lemma space_same (sp) : (g.setSpace id sp).space id = sp := by simp [Ghost.setSpace]

lemma space_other (sp) (ne : id' ≠ id) : (g.setSpace id sp).space id' = g.space id' := by
  simp [Ghost.setSpace, ne]

section
variable (h : Sound B g s)
include h

lemma Sound.managed_of (inside : g.owner x ≠ .outside) : Managed B x := (h.managed x).mp inside

lemma proc_eq (h' : Sound B g' t) (same : g'.rest = g.rest) : t.proc = s.proc :=
  congrArg Rest.proc (h'.rest.trans (same.trans h.rest.symm))

lemma Sound.space_eq (own : g.owner x = .table id l v) : ∃ sp, g.space id = some sp ∧ sp.table l v = some x :=
  Option.bind_eq_some_iff.mp ((h.tables id l v x).mp own)

lemma Sound.owner_table (hsp : g.space id = some sp) (hx : sp.table l v = some x) : g.owner x = .table id l v := by
  rw [h.tables]
  simp [Ghost.table, hsp, hx]

/-- A step that touches one page, not a page-table page, and gives it to `o`. -/
lemma Sound.touch (mem : ∀ y, y ≠ x → t.mem y = s.mem y)
    (same : PageOwner.rest t = PageOwner.rest s) (inside : g.owner x ≠ .outside)
    (before : ∀ id l v, g.owner x ≠ .table id l v)
    (outside : o ≠ .outside) (after : ∀ id l v, o ≠ .table id l v) (thawed : ∀ page, o ≠ .frozen page)
    (was : ∀ page, g.owner x ≠ .frozen page)
    (free : ∃ l, Chain t.mem t.freelist l ∧ l.Nodup ∧ ∀ y, y ∈ l ↔ (g.give x o).owner y = .free) :
    Sound B (g.give x o) t where
  managed y := by
    rcases eq_or_ne y x with rfl | ne
    · rw [← h.managed]
      simp [inside, outside]
    · rw [give_other ne, h.managed]
  free := free
  laid id sp hsp := by
    refine (h.laid id sp hsp).congr fun l v y hy => mem y ?_
    rintro rfl
    exact before id l v (h.owner_table hsp hy)
  tables id l v y := by
    rw [give_table, ← h.tables]
    rcases eq_or_ne y x with rfl | ne
    · simp [before, after]
    · rw [give_other ne]
  rest := same.trans h.rest
  frozen y page hy := by
    have ne : y ≠ x := by
      rintro rfl
      rw [give_same] at hy
      exact thawed page hy
    rw [mem y ne]
    rw [give_other ne] at hy
    exact h.frozen y page hy

lemma Sound.store (page : Bytes pgsize) (data : (g.owner x).Data) : Sound B g (s.store x page) := by
  have touched : Sound B (g.give x (g.owner x)) (s.store x page) := by
    refine h.touch (fun y ne => ?_) rfl data.inside data.plain data.inside data.plain data.thawed data.thawed ?_
    · simp [Kernel.store, ne]
    · obtain ⟨l, chain, nodup, mem⟩ := h.free
      refine ⟨l, chain.congr fun y hy => ?_, nodup, by simpa using mem⟩
      have ne : y ≠ x := by
        rintro rfl
        exact data.used ((mem y).mp hy)
      simp [Kernel.store, ne]
  rwa [give_self] at touched

lemma Sound.reassign {o : Owner n} (data : (g.owner x).Data) (after : o.Data) : Sound B (g.give x o) s := by
  refine h.touch (fun _ _ => rfl) rfl data.inside data.plain after.inside after.plain after.thawed data.thawed ?_
  obtain ⟨l, chain, nodup, mem⟩ := h.free
  refine ⟨l, chain, nodup, fun y => (mem y).trans ?_⟩
  rcases eq_or_ne y x with rfl | ne
  · simp [data.used, after.used]
  · rw [give_other ne]

lemma kalloc_returns : Returns (kalloc B) s fun r t =>
    r = 0 ∧ Sound B g t ∨ g.owner r = .free ∧ Sound B (g.give r .temp) t := by
  obtain ⟨l, chain, nodup, mem⟩ := h.free
  refine returns_get_bind ?_
  dsimp only
  split_ifs with fails
  · exact returns_set_bind (returns_pure (.inl ⟨rfl, h.managed, h.free, h.laid, h.tables, h.rest, h.frozen⟩))
  · refine returns_set_bind (returns_pure (.inr ?_))
    cases l with
    | nil => exact absurd (.inr chain) fails
    | cons y l =>
      obtain ⟨rfl, pos, tail⟩ := chain
      have own : g.owner s.freelist = .free := (mem _).mp List.mem_cons_self
      have fresh := (List.nodup_cons.mp nodup).1
      refine ⟨own, h.touch (fun y ne => by simp [Kernel.store, ne]) rfl (by simp [own])
        (by simp [own]) (by simp) (by simp) (by simp) (by simp [own])
        ⟨l, ?_, (List.nodup_cons.mp nodup).2, fun y => ?_⟩⟩
      · refine tail.congr fun y hy => ?_
        have ne : y ≠ s.freelist := by
          rintro rfl
          exact fresh hy
        simp [Kernel.store, ne]
      · rcases eq_or_ne y s.freelist with rfl | ne
        · simp [fresh]
        · rw [give_other ne, ← mem, List.mem_cons]
          simp [ne]

end

lemma kfree_guard (h : Managed B x) : ¬ (x % pgsize ≠ 0 ∨ x < B.end_ ∨ physTop ≤ x) := by
  obtain ⟨aligned, low, high⟩ := h
  omega

lemma chain_push (chain : Chain s.mem s.freelist l) (fresh : x ∉ l)
    (managed : Managed B x) (low : s.freelist < 256 ^ 8) :
    Chain (s.store x (setField (fill 1) 0 8 s.freelist)).mem x (x :: l) := by
  refine ⟨rfl, managed_pos managed, ?_⟩
  have link : field ((s.store x (setField (fill 1) 0 8 s.freelist)).mem x) 0 8 = s.freelist := by
    simp only [Kernel.store, update_self]
    rw [field_setField_same _ _ _ _ (by decide), Nat.mod_eq_of_lt low]
  rw [link]
  refine chain.congr fun y hy => ?_
  have ne : y ≠ x := by
    rintro rfl
    exact fresh hy
  simp [Kernel.store, ne]

lemma Sound.freelist_lt (h : Sound B g s) : s.freelist < 256 ^ 8 := by
  obtain ⟨l, chain, -, mem⟩ := h.free
  cases l with
  | nil =>
    have e : s.freelist = 0 := chain
    rw [e]
    decide
  | cons y l =>
    obtain ⟨rfl, -, -⟩ := chain
    have own : g.owner s.freelist = .free := (mem _).mp List.mem_cons_self
    have managed := h.managed_of (x := s.freelist) (by simp [own])
    exact lt_trans managed.2.2 (by decide)

lemma kfree_returns (h : Sound B g s) (data : (g.owner x).Data) :
    Returns (kfree B x) s fun _ t => Sound B (g.give x .free) t := by
  have managed := h.managed_of data.inside
  unfold kfree
  rw [if_neg (kfree_guard managed)]
  refine returns_get_bind ⟨(), _, rfl, ?_⟩
  obtain ⟨l, chain, nodup, mem⟩ := h.free
  have fresh : x ∉ l := fun hx => data.used ((mem x).mp hx)
  refine h.touch (fun y ne => by simp [Kernel.store, ne]) rfl data.inside data.plain (by simp) (by simp)
    (by simp) data.thawed ⟨x :: l, chain_push chain fresh managed h.freelist_lt, List.nodup_cons.mpr ⟨fresh, nodup⟩,
      fun y => ?_⟩
  rcases eq_or_ne y x with rfl | ne
  · simp
  · rw [give_other ne, ← mem, List.mem_cons]
    simp [ne]

variable {sp sp' : Space} {l v y : Nat}

section
variable (h : Sound B g s)
include h

/-- A write into a page-table page of `id`, which changes only the space of `id`
and the owners of its tables. -/
lemma Sound.rewrite (own : g.owner y = .table id l v) (laid : Laid (update s.mem y page) sp')
    (space : g'.space = update g.space id (some sp')) (rest : g'.rest = g.rest)
    (managed : ∀ z, g'.owner z = .outside ↔ g.owner z = .outside)
    (free : ∀ z, g'.owner z = .free ↔ g.owner z = .free)
    (tables : ∀ l v z, g'.owner z = .table id l v ↔ sp'.table l v = some z)
    (others : ∀ id' l v z, id' ≠ id → (g'.owner z = .table id' l v ↔ g.owner z = .table id' l v))
    (frozen : ∀ z image, g'.owner z = .frozen image → g.owner z = .frozen image) :
    Sound B g' (s.store y page) where
  managed z := by
    rw [Ne, managed z]
    exact h.managed z
  free := by
    obtain ⟨chain, list, nodup, mem⟩ := h.free
    refine ⟨chain, list.congr fun z hz => ?_, nodup, fun z => (mem z).trans (free z).symm⟩
    have ne : z ≠ y := by
      rintro rfl
      have unused := (mem z).mp hz
      simp [own] at unused
    simp [Kernel.store, ne]
  laid id' sp'' hsp := by
    rw [space] at hsp
    rcases eq_or_ne id' id with rfl | ne
    · rw [update_self] at hsp
      exact Option.some.inj hsp ▸ laid
    · rw [update_of_ne ne] at hsp
      refine (h.laid id' sp'' hsp).congr fun l' v' z hz => ?_
      have other : z ≠ y := by
        rintro rfl
        have mine := h.owner_table hsp hz
        rw [own] at mine
        cases mine
        exact ne rfl
      simp [Kernel.store, other]
  tables id' l' v' z := by
    unfold Ghost.table
    rw [space]
    rcases eq_or_ne id' id with rfl | ne
    · rw [update_self]
      exact tables l' v' z
    · rw [update_of_ne ne, others id' l' v' z ne]
      exact h.tables id' l' v' z
  rest := h.rest.trans rest.symm
  frozen z image hz := by
    have still := frozen z image hz
    have ne : z ≠ y := by
      rintro rfl
      rw [own] at still
      cases still
    exact (update_of_ne ne ..).trans (h.frozen z image still)

lemma Sound.link (hsp : g.space id = some sp)
    (hy : sp.table (l + 1) v = some y) (hj : j < 512) (absent : sp.table l (v * 512 + j) = none)
    (own : g.owner x = .temp) (zero : s.mem x = fill 0) :
    Sound B ((g.give x (.table id l (v * 512 + j))).setSpace id (some (sp.setTable l (v * 512 + j) (some x))))
      (s.store y (putPte (s.mem y) j (tablePte x))) := by
  have fresh : ∀ l v, sp.table l v ≠ some x := by
    intro l v hx
    have mine := h.owner_table hsp hx
    simp [own] at mine
  have addr := (h.managed_of (x := x) (by simp [own])).pageAddr
  refine h.rewrite (h.owner_table hsp hy) ((h.laid id sp hsp).link hy hj absent fresh addr zero)
    rfl rfl (fun z => ?_) (fun z => ?_) (fun l' v' z => ?_) (fun id' l' v' z ne => ?_)
    fun z image hz => ?_
  · rcases eq_or_ne z x with rfl | ne
    · simp [own]
    · rw [space_owner, give_other ne]
  · rcases eq_or_ne z x with rfl | ne
    · simp [own]
    · rw [space_owner, give_other ne]
  · rcases eq_or_ne z x with rfl | ne
    · simp only [space_owner, give_same, Owner.table.injEq, true_and]
      by_cases here : l' = l ∧ v' = v * 512 + j
      · obtain ⟨rfl, rfl⟩ := here
        simp [sp.setTable_same]
      · rw [sp.setTable_other _ here]
        refine ⟨fun e => absurd ⟨e.1.symm, e.2.symm⟩ here, fun e => absurd e (fresh l' v')⟩
    · rw [space_owner, give_other ne]
      by_cases here : l' = l ∧ v' = v * 512 + j
      · obtain ⟨rfl, rfl⟩ := here
        rw [sp.setTable_same]
        refine ⟨fun e => ?_, fun e => absurd (Option.some.inj e).symm ne⟩
        have table := (h.tables _ _ _ _).mp e
        simp [Ghost.table, hsp, absent] at table
      · rw [sp.setTable_other _ here, h.tables]
        simp [Ghost.table, hsp]
  · rcases eq_or_ne z x with rfl | other
    · simp [own, ne.symm]
    · rw [space_owner, give_other other]
  · rcases eq_or_ne z x with rfl | other
    · simp at hz
    · rwa [space_owner, give_other other] at hz

lemma Sound.tables_same (hsp : g.space id = some sp) (same : sp'.table = sp.table) (l v z) :
    g.owner z = .table id l v ↔ sp'.table l v = some z := by
  rw [h.tables, same]
  simp [Ghost.table, hsp]

lemma Sound.putLeaf (leaf) (hsp : g.space id = some sp) (hy : sp.table 0 v = some y) (hk : k < 512)
    (ok : ∀ lf, leaf = some lf → PageAddr lf.pa ∧ LeafFlags lf.flags) :
    Sound B (g.setSpace id (some (sp.setLeaf (v * 512 + k) leaf)))
      (s.store y (putPte (s.mem y) k (leaf.elim 0 leafPte))) :=
  h.rewrite (h.owner_table hsp hy) ((h.laid id sp hsp).putLeaf hy hk ok) rfl rfl
    (fun _ => Iff.rfl) (fun _ => Iff.rfl) (h.tables_same hsp rfl) (fun _ _ _ _ _ => Iff.rfl)
    fun _ _ same => same

section
variable (hsp : g.space id = some sp)
include hsp

lemma Sound.unlink
    (hy : sp.table (l + 1) v = some y) (hj : j < 512) (hole : sp.hole = some (l, v * 512 + j))
    (gone : sp.table l (v * 512 + j) = none) :
    Sound B (g.setSpace id (some { sp with hole := none })) (s.store y (putPte (s.mem y) j 0)) :=
  h.rewrite (h.owner_table hsp hy) ((h.laid id sp hsp).unlink hy hj hole gone) rfl rfl
    (fun _ => Iff.rfl) (fun _ => Iff.rfl) (h.tables_same hsp rfl) (fun _ _ _ _ _ => Iff.rfl)
    fun _ _ same => same

lemma kfree_table_returns (hx : sp.table l v = some x) (whole : sp.hole = none)
    (children : ∀ l' j, l = l' + 1 → j < 512 → sp.table l' (v * 512 + j) = none)
    (empty : ∀ k, l = 0 → k < 512 → sp.leaf (v * 512 + k) = none) :
    Returns (kfree B x) s fun _ t =>
      Sound B ((g.give x .free).setSpace id (some { sp.setTable l v none with hole := some (l, v) })) t := by
  have own := h.owner_table hsp hx
  have managed := h.managed_of (x := x) (by simp [own])
  obtain ⟨list, chain, nodup, mem⟩ := h.free
  have fresh : x ∉ list := by
    intro hx
    have unused := (mem x).mp hx
    simp [own] at unused
  unfold kfree
  rw [if_neg (kfree_guard managed)]
  refine returns_get_bind ⟨(), _, rfl, ?_⟩
  refine ⟨fun z => ?_, ⟨x :: list, chain_push chain fresh managed h.freelist_lt,
    List.nodup_cons.mpr ⟨fresh, nodup⟩, fun z => ?_⟩, fun id' sp' hsp' => ?_,
    fun id' l' v' z => ?_, h.rest, fun z image hz => ?_⟩
  · rw [space_owner, ← h.managed]
    rcases eq_or_ne z x with rfl | ne
    · simp [own]
    · rw [give_other ne]
  · rw [space_owner]
    rcases eq_or_ne z x with rfl | ne
    · simp
    · rw [give_other ne, ← mem, List.mem_cons]
      simp [ne]
  · rcases eq_or_ne id' id with rfl | ne
    · rw [space_same] at hsp'
      obtain rfl := Option.some.inj hsp'
      exact (h.laid id' sp hsp).drop hx whole children empty _
    · rw [space_other _ ne] at hsp'
      refine (h.laid id' sp' hsp').congr fun l' v' z hz => ?_
      have other : z ≠ x := by
        rintro rfl
        have mine := h.owner_table hsp' hz
        rw [own] at mine
        cases mine
        exact ne rfl
      simp [Kernel.store, other]
  · rw [space_owner]
    unfold Ghost.table
    rcases eq_or_ne id' id with rfl | ne
    · rw [space_same]
      by_cases here : l' = l ∧ v' = v
      · obtain ⟨rfl, rfl⟩ := here
        simp only [Option.bind_some, Space.setTable, and_self, if_true]
        refine ⟨fun e => ?_, fun e => absurd e (by simp)⟩
        rcases eq_or_ne z x with rfl | ne
        · simp at e
        · rw [give_other ne, h.tables] at e
          simp only [Ghost.table, hsp, Option.bind_some, hx, Option.some.injEq] at e
          exact absurd e.symm ne
      · simp only [Option.bind_some, Space.setTable, here, if_false]
        rcases eq_or_ne z x with rfl | ne
        · simp only [give_same, reduceCtorEq, false_iff]
          intro e
          exact here ((h.laid id' sp hsp).inj _ _ _ _ _ e hx)
        · rw [give_other ne, h.tables]
          simp [Ghost.table, hsp]
    · rw [space_other _ ne]
      rcases eq_or_ne z x with rfl | other
      · simp only [give_space, give_same, reduceCtorEq, false_iff]
        intro e
        have mine := (h.tables id' l' v' z).mpr e
        rw [own] at mine
        cases mine
        exact ne rfl
      · rw [give_other other]
        exact h.tables id' l' v' z
  · rw [space_owner] at hz
    have ne : z ≠ x := by
      rintro rfl
      simp at hz
    rw [give_other ne] at hz
    exact (update_of_ne ne ..).trans (h.frozen z image hz)

lemma Sound.forget (empty : ∀ l v, sp.table l v = none) : Sound B (g.setSpace id none) s where
  __ := h
  laid id' sp' hsp' := by
    rcases eq_or_ne id' id with rfl | ne
    · simp at hsp'
    · rw [space_other _ ne] at hsp'
      exact h.laid id' sp' hsp'
  tables id' l v z := by
    rw [space_owner, h.tables]
    unfold Ghost.table
    rcases eq_or_ne id' id with rfl | ne
    · simp [hsp, empty]
    · rw [space_other _ ne]

end

end

end Xv6.PageOwner
