import Mathlib.Data.Fin.Pigeonhole
import Xv6.PageFree

/-! The user part of an address space: `uvmdealloc`, `uvmalloc`, `uvmfree`, `uvmcopy` and
`uvmclear`. -/

namespace Xv6.PageUvm

open VmMachine PageTable PageOwner PageWalk PageFree Total

variable {n : Nat} {B : Board} {g g' : Ghost n} {s t : Kernel n} {x : Nat} {id : TableId n}
  {P S : Nat → Prop} {F : Nat → Option Leaf} {root : Nat}

def Below (sz u : Nat) : Prop := u * pgsize < sz

lemma below_mul (k) : Below (k * pgsize) = fun u => u < k := by
  funext u
  exact propext (Nat.mul_lt_mul_right (by decide))

lemma below_zero : Below 0 = fun _ => False := by
  funext u
  exact propext ⟨Nat.not_lt_zero _, False.elim⟩

lemma below_max_next (more : k * pgsize < sz) : Below (max ((k + 1) * pgsize) sz) = Below (max (k * pgsize) sz) := by
  funext u
  rw [eq_iff_iff]
  unfold Below pgsize at *
  omega

def pages (sz : Nat) : Nat := (sz + (pgsize - 1)) / pgsize

lemma below_iff (sz u) : Below sz u ↔ u < pages sz := by
  unfold Below pages pgsize
  omega

lemma below_pages (sz) : Below (pages sz * pgsize) = Below sz := by
  rw [below_mul]
  funext u
  exact propext (below_iff sz u).symm

def maxPages : Nat := physTop / pgsize

lemma pgRoundUp_eq (h : sz ≤ physTop) : pgRoundUp sz = pages sz * pgsize := by
  unfold pgRoundUp pages
  rw [Nat.mod_eq_of_lt]
  unfold physTop kernBase at h
  unfold pgsize
  omega

lemma Covers.row_le (lo) (h : Sound B g s) (cov : Covers g id sp P S F)
    (row : ∀ u, lo ≤ u → u < lo + m → S u) : m ≤ maxPages := by
  choose leaf found own _ using cov.own
  have inside : ∀ u : Fin m, S (lo + u) := fun u => row _ (Nat.le_add_right ..) (by omega)
  have low : ∀ u hu, (leaf u hu).pa / pgsize < maxPages := by
    intro u hu
    have managed := h.managed_of (x := (leaf u hu).pa) (by simp [own])
    exact Nat.div_lt_div_of_lt_of_dvd (by decide) managed.2.2
  have inj : Function.Injective fun u : Fin m =>
    (⟨(leaf _ (inside u)).pa / pgsize, low _ (inside u)⟩ : Fin maxPages) := by
    intro u u' same
    have quot : (leaf _ (inside u)).pa / pgsize = (leaf _ (inside u')).pa / pgsize := by simpa using same
    have aligned := (h.managed_of (x := (leaf _ (inside u)).pa) (by simp [own])).1
    have aligned' := (h.managed_of (x := (leaf _ (inside u')).pa) (by simp [own])).1
    have pages_ : (leaf _ (inside u)).pa = (leaf _ (inside u')).pa := by
      unfold pgsize at quot aligned aligned'
      omega
    have owners := own _ (inside u)
    rw [pages_, own _ (inside u')] at owners
    have index : lo + (u' : Nat) = lo + u := by simpa using owners
    exact Fin.ext (by omega)
  exact Fin.le_of_injective _ inj

lemma HasTable.count_le (h : HasTable B g s id root P (Below (k * pgsize)) F) : k ≤ maxPages := by
  obtain ⟨sp, -, -, -, cov⟩ := h.space
  rw [below_mul] at cov
  exact Covers.row_le 0 h.sound cov fun u _ hu => by omega

lemma HasTable.size_le (h : HasTable B g s id root P (Below sz) F) : sz ≤ physTop := by
  rw [← below_pages] at h
  have count := HasTable.count_le h
  unfold pages at count
  unfold maxPages physTop kernBase at count
  unfold physTop kernBase
  unfold pgsize at count
  omega

section

lemma uvmdealloc_returns (newsz) (h : HasTable B g s id root P (Below oldsz) F) :
    Returns (uvmdealloc B root oldsz newsz) s fun r t => r = min oldsz newsz ∧
      ∃ g', HasTable B g' t id root P (Below r) F ∧ Keeps id g g' := by
  have old := HasTable.size_le h
  unfold uvmdealloc
  split_ifs with grows shrinks
  · exact returns_pure ⟨(min_eq_left grows).symm, g, h, .refl id g⟩
  · have new : newsz ≤ physTop := by omega
    rw [pgRoundUp_eq old, pgRoundUp_eq new] at shrinks ⊢
    have less : pages newsz < pages oldsz := (Nat.mul_lt_mul_right (by decide)).mp shrinks
    unfold uvmunmap
    rw [if_neg (by simp), ← Nat.sub_mul, Nat.mul_div_cancel _ (by decide)]
    rw [← below_pages] at h
    have count := HasTable.count_le h
    rw [below_mul] at h
    have high : maxPages ≤ maxVa / pgsize := by decide
    refine (unmap_user_returns h (fun u _ hu => ?_) ?_).bind ?_
    · show u < pages oldsz
      omega
    · omega
    · rintro - t ⟨g', table, keeps⟩
      refine returns_pure ⟨(min_eq_right (by omega)).symm, g', ?_, keeps⟩
      have same : (fun u => u < pages oldsz ∧
        ¬ (pages newsz ≤ u ∧ u < pages newsz + (pages oldsz - pages newsz))) = Below newsz := by
        funext u
        rw [eq_iff_iff, below_iff]
        omega
      rwa [same] at table
  · refine returns_pure ⟨(min_eq_right (by omega)).symm, g, ?_, .refl id g⟩
    have new : newsz ≤ physTop := by omega
    rw [pgRoundUp_eq old, pgRoundUp_eq new, Nat.mul_lt_mul_right (by decide)] at shrinks
    have same : Below oldsz = Below newsz := by
      funext u
      rw [eq_iff_iff, below_iff, below_iff]
      have mono : pages newsz ≤ pages oldsz := by
        unfold pages pgsize
        omega
      omega
    rwa [same] at h

lemma unmap_all_returns (h : HasTable B g s id root P (Below (k * pgsize)) F) :
    Returns (uvmunmap B root 0 k true) s fun _ t => ∃ g',
      HasTable B g' t id root P (fun _ => False) F ∧ Keeps id g g' := by
  have count := HasTable.count_le h
  have high : maxPages ≤ maxVa / pgsize := by decide
  rw [below_mul] at h
  have freed := unmap_user_returns h (fun u _ hu => (zero_add k ▸ hu : u < k)) (by omega)
  have same : (fun u => u < k ∧ ¬ (0 ≤ u ∧ u < 0 + k)) = fun _ => False := by
    funext u
    simp only [eq_iff_iff, iff_false]
    omega
  rw [zero_mul, same] at freed
  unfold uvmunmap
  rw [if_neg (by simp)]
  exact freed

lemma uvmfree_returns (h : HasTable B g s id root P (Below sz) fun _ => none) :
    Returns (uvmfree B root sz) s fun _ t => ∃ g', Sound B g' t ∧ NoTable g' id ∧ Keeps id g g' := by
  unfold uvmfree
  split_ifs with pos
  · rw [pgRoundUp_eq (HasTable.size_le h), Nat.mul_div_cancel _ (by decide)]
    rw [← below_pages] at h
    refine (unmap_all_returns h).bind ?_
    rintro - t ⟨g1, table, keeps⟩
    refine (freewalk_returns table).mono ?_
    rintro - t' ⟨g', sound, absent, keeps'⟩
    exact ⟨g', sound, absent, keeps.trans keeps'⟩
  · obtain rfl : sz = 0 := by omega
    rw [below_zero] at h
    exact freewalk_returns h

section

lemma Table.give (h : Table g id root P S F) (before : ∀ u, g.owner x ≠ .user id u)
    (after : ∀ u, o ≠ .user id u) : Table (g.give x o) id root P S F := by
  obtain ⟨sp, hsp, whole, hroot, cov⟩ := h
  refine ⟨sp, hsp, whole, hroot, cov.congr_owner fun y u => ?_⟩
  rcases eq_or_ne y x with rfl | ne
  · simp [before, after]
  · rw [give_other ne]

lemma HasTable.kalloc_returns (h : HasTable B g s id root P S F) :
    Returns (kalloc B) s fun r t => r = 0 ∧ HasTable B g t id root P S F ∨
      r ≠ 0 ∧ g.owner r = .free ∧ HasTable B (g.give r .temp) t id root P S F := by
  refine (PageOwner.kalloc_returns h.sound).mono fun r t got => ?_
  rcases got with ⟨rfl, same⟩ | ⟨own, taken⟩
  · exact .inl ⟨rfl, same, h.space⟩
  · have pos := managed_pos (h.sound.managed_of (x := r) (by simp [own]))
    exact .inr ⟨pos, own, taken, Table.give h.space (by simp [own]) (by simp)⟩

lemma HasTable.store (h : HasTable B g s id root P S F) (page : ByteFields.Bytes pgsize)
    (data : (g.owner x).Data) : HasTable B g (s.store x page) id root P S F :=
  ⟨h.sound.store page data, h.space⟩

lemma HasTable.release (h : HasTable B g' s id root P S F) (own : g.owner x = .free)
    (keeps : Keeps id (g.give x .temp) g') :
    Returns (kfree B x) s fun _ t => HasTable B (g'.give x .free) t id root P S F ∧ Keeps id g (g'.give x .free) := by
  have own' : g'.owner x = .temp := (keeps.owner x .temp (by simp [Family])).mpr (by simp)
  refine (kfree_returns h.sound (by simp [own'])).mono ?_
  intro _ t sound
  refine ⟨⟨sound, Table.give h.space (by simp [own']) (by simp)⟩, keeps.rest, keeps.space, fun y o other => ?_⟩
  rcases eq_or_ne y x with rfl | ne
  · rw [give_same, own]
  · rw [give_other ne, keeps.owner y o other, give_other ne]

lemma keeps_user (own : g.owner x = .free)
    (keeps : Keeps id ((g.give x .temp).give x (.user id u)) g') : Keeps id g g' := by
  rw [give_give] at keeps
  have first : Keeps id g (g.give x (.user id u)) := keeps_give (by simp [own, Family]) rfl
  exact first.trans keeps

end

def trapframePage : Nat := trapframeVa / pgsize

def Reserved (F : Nat → Option Leaf) : Prop :=
  ∀ u leaf, F u = some leaf → trapframePage ≤ u ∧ leaf.flags &&& pteU = 0

lemma Reserved.none_of (h : Reserved F) (low : u ≤ maxPages) : F u = none := by
  cases here : F u with
  | none => rfl
  | some leaf =>
    have high := (h u leaf here).1
    have apart : maxPages < trapframePage := by decide
    omega

lemma HasTable.map_next (h : HasTable B g s id root P (Below (k * pgsize)) F)
    (res : Reserved F) (own : g.owner x = .temp) (flags : LeafFlags perm) (ok : P perm) :
    Returns (mappages B root (k * pgsize) pgsize x perm) s fun ok t => ∃ g',
      ok = false ∧ HasTable B g' t id root P (Below (k * pgsize)) F ∧ Keeps id g g' ∨
      ok = true ∧ HasTable B g' t id root P (Below ((k + 1) * pgsize)) F ∧
        Keeps id (g.give x (.user id k)) g' ∧ g'.owner x = .user id k := by
  have count := HasTable.count_le h
  have high : maxPages < maxVa / pgsize := by decide
  have next : (fun u => Below (k * pgsize) u ∨ u = k) = Below ((k + 1) * pgsize) := by
    funext u
    rw [below_mul, below_mul, eq_iff_iff]
    omega
  have mapped := mappages_user_returns h (by omega) (by simp [Below]) (res.none_of count) own flags ok
  rwa [next] at mapped

section
variable {lo newsz xperm : Nat}

def Grows (B : Board) (I : Nat → Ghost n → Kernel n → Prop) (id : TableId n) (root perm : Nat)
    (P : Nat → Prop) (F : Nat → Option Leaf) (k : Nat) (g : Ghost n) (s : Kernel n) : Prop :=
  ∀ x t₁ t₂ g', g.owner x = .free → HasTable B (g.give x .temp) t₁ id root P (Below (k * pgsize)) F →
    kalloc B s = .ok (x, t₁) →
    mappages B root (k * pgsize) pgsize x perm (t₁.store x (fill 0)) = .ok (true, t₂) → I (k + 1) g' t₂

/-- What a growing loop needs of the sets `row k` of pages that it passes through, from `lo` on. -/
structure Rows (B : Board) (id : TableId n) (root lo : Nat) (P : Nat → Prop) (F : Nat → Option Leaf)
    (row : Nat → Nat → Prop) : Prop where
  map : ∀ {k x perm g s}, lo ≤ k → HasTable B g s id root P (row k) F → g.owner x = .temp → LeafFlags perm →
    P perm → Returns (mappages B root (k * pgsize) pgsize x perm) s fun ok t => ∃ g',
      ok = false ∧ HasTable B g' t id root P (row k) F ∧ Keeps id g g' ∨
      ok = true ∧ HasTable B g' t id root P (row (k + 1)) F ∧
        Keeps id (g.give x (.user id k)) g' ∧ g'.owner x = .user id k
  unmap : ∀ {k g s}, lo ≤ k → HasTable B g s id root P (row k) F →
    Returns (uvmdealloc B root (k * pgsize) (lo * pgsize)) s fun _ t => ∃ g',
      HasTable B g' t id root P (row lo) F ∧ Keeps id g g'

lemma below_rows (res : Reserved F) : Rows B id root lo P F fun k => Below (k * pgsize) where
  map _ h own flags ok := HasTable.map_next h res own flags ok
  unmap low h := by
    refine (uvmdealloc_returns (lo * pgsize) h).mono ?_
    rintro r t ⟨rfl, g', table, keeps⟩
    rw [min_eq_right (Nat.mul_le_mul_right _ low)] at table
    exact ⟨g', table, keeps⟩

lemma Rows.allocFrom_returns {I : Nat → Ghost n → Kernel n → Prop}
    (rows : Rows B id root lo P F row) (flags : LeafFlags (pteR ||| pteU ||| xperm))
    (ok : P (pteR ||| pteU ||| xperm))
    (grows : ∀ k g s, lo ≤ k → I k g s → HasTable B g s id root P (row k) F → ∀ x t1 t2 g',
      g.owner x = .free → HasTable B (g.give x .temp) t1 id root P (row k) F → kalloc B s = .ok (x, t1) →
      mappages B root (k * pgsize) pgsize x (pteR ||| pteU ||| xperm) (t1.store x (fill 0)) = .ok (true, t2) →
      I (k + 1) g' t2) :
    ∀ {k : Nat} {g : Ghost n} {s : Kernel n}, newsz ≤ (k + fuel) * pgsize → lo ≤ k → I k g s →
      HasTable B g s id root P (row k) F →
      Returns (allocFrom B root (lo * pgsize) newsz xperm fuel (k * pgsize)) s fun r t =>
        ∃ g', Keeps id g g' ∧ (r = 0 ∧ HasTable B g' t id root P (row lo) F ∨
          r = newsz ∧ HasTable B g' t id root P (row (max k (pages newsz))) F ∧ I (max k (pages newsz)) g' t) := by
  have done : ∀ {k : Nat}, newsz ≤ k * pgsize → max k (pages newsz) = k := by
    unfold pages pgsize
    omega
  induction fuel with
  | zero =>
    intro k g s enough _ known h
    rw [add_zero] at enough
    refine returns_pure ⟨g, .refl id g, .inr ⟨rfl, ?_⟩⟩
    rw [done enough]
    exact ⟨h, known⟩
  | succ fuel ih =>
    intro k g s enough low known h
    unfold allocFrom
    split_ifs with more
    · refine (HasTable.kalloc_returns h).recorded.bind fun r t ⟨alloc, got⟩ => ?_
      -- undoing frees the pages from `lo` on
      have undo : ∀ {g1 t1}, HasTable B g1 t1 id root P (row k) F →
        Keeps id g g1 → Returns (uvmdealloc B root (k * pgsize) (lo * pgsize) >>= fun _ =>
          (pure 0 : K n Nat)) t1 fun r t => ∃ g', Keeps id g g' ∧
          (r = 0 ∧ HasTable B g' t id root P (row lo) F ∨ r = newsz ∧
            HasTable B g' t id root P (row (max k (pages newsz))) F ∧ I (max k (pages newsz)) g' t) := by
        intro g1 t1 table keeps
        refine (rows.unmap low table).bind ?_
        rintro r t' ⟨g', table', keeps'⟩
        exact returns_pure ⟨g', keeps.trans keeps', .inl ⟨rfl, table'⟩⟩
      rcases got with ⟨rfl, same⟩ | ⟨pos, own, taken⟩
      · rw [if_pos rfl]
        exact undo same (.refl id g)
      · rw [if_neg pos]
        refine memset_bind ?_
        have zeroed := HasTable.store (x := r) taken (fill 0) (by simp)
        refine (rows.map low zeroed (by simp) flags ok).recorded.bind ?_
        rintro mapped t1 ⟨ran, g1, ⟨rfl, table, keeps⟩ | ⟨rfl, table, keeps, -⟩⟩
        · rw [if_neg (by simp)]
          refine (HasTable.release table own keeps).bind ?_
          rintro - t2 ⟨table', keeps'⟩
          exact undo table' keeps'
        · rw [if_pos rfl]
          have step := keeps_user own keeps
          have next := (Nat.succ_mul k pgsize).symm
          rw [next]
          refine (ih (by rwa [Nat.succ_add_eq_add_succ]) (by omega)
            (grows k g s low known h r t t1 g1 own taken alloc ran) table).mono ?_
          rintro r' t' ⟨g', keeps', got⟩
          have later : max (k + 1) (pages newsz) = max k (pages newsz) := by
            have := (below_iff newsz k).mp more
            omega
          rw [later] at got
          exact ⟨g', step.trans keeps', got⟩
    · refine returns_pure ⟨g, .refl id g, .inr ⟨rfl, ?_⟩⟩
      rw [done (Nat.le_of_not_lt more)]
      exact ⟨h, known⟩

/-- The steps that `uvmalloc` counts are enough. -/
lemma fuel_enough (k newsz) : newsz ≤ (k + ((newsz - k * pgsize) / pgsize + 1)) * pgsize := by
  unfold pgsize
  omega

lemma uvmalloc_grows {oldsz : Nat} (h : HasTable B g s id root P (Below oldsz) F)
    (res : Reserved F) (flags : LeafFlags (pteR ||| pteU ||| xperm))
    (ok : P (pteR ||| pteU ||| xperm)) (more : oldsz ≤ newsz)
    (grows : ∀ k g s, pages oldsz ≤ k → I k g s → HasTable B g s id root P (Below (k * pgsize)) F →
      Grows B I id root (pteR ||| pteU ||| xperm) P F k g s) (known : I (pages oldsz) g s) :
    Returns (uvmalloc B root oldsz newsz xperm) s fun r t => ∃ g', Keeps id g g' ∧
      (r = 0 ∧ HasTable B g' t id root P (Below oldsz) F ∨
        r = newsz ∧ HasTable B g' t id root P (Below newsz) F ∧ I (pages newsz) g' t) := by
  unfold uvmalloc
  rw [if_neg (by omega)]
  have size := HasTable.size_le h
  rw [← below_pages] at h
  rw [pgRoundUp_eq size]
  have above : pages oldsz ≤ pages newsz := by
    unfold pages pgsize
    omega
  refine ((below_rows res).allocFrom_returns flags ok grows (fuel_enough ..) le_rfl known h).mono ?_
  rintro r t ⟨g', keeps, ⟨rfl, table⟩ | ⟨rfl, table, known'⟩⟩
  · refine ⟨g', keeps, .inl ⟨rfl, ?_⟩⟩
    rwa [← below_pages]
  · rw [max_eq_right above] at table known'
    refine ⟨g', keeps, .inr ⟨rfl, ?_, known'⟩⟩
    rwa [← below_pages]

lemma uvmalloc_returns (h : HasTable B g s id root P (Below oldsz) F)
    (res : Reserved F) (flags : LeafFlags (pteR ||| pteU ||| xperm))
    (ok : P (pteR ||| pteU ||| xperm)) :
    Returns (uvmalloc B root oldsz newsz xperm) s fun r t => (r = 0 ∨ r = max oldsz newsz) ∧
      ∃ g', HasTable B g' t id root P (Below (if r = 0 then oldsz else r)) F ∧ Keeps id g g' := by
  by_cases less : newsz < oldsz
  · unfold uvmalloc
    rw [if_pos less]
    refine returns_pure ⟨.inr (max_eq_left (by omega)).symm, g, ?_, .refl id g⟩
    split_ifs <;> exact h
  · refine (uvmalloc_grows (I := fun _ _ _ => True) h res flags ok (by omega)
      (fun _ _ _ _ _ _ _ _ _ _ _ _ _ _ => trivial) trivial).mono ?_
    rintro r t ⟨g', keeps, ⟨rfl, table⟩ | ⟨rfl, table, -⟩⟩
    · refine ⟨.inl rfl, g', ?_, keeps⟩
      rwa [if_pos rfl]
    · refine ⟨.inr (max_eq_right (by omega)).symm, g', ?_, keeps⟩
      have same : Below r = Below (if r = 0 then oldsz else r) := by
        split_ifs with zero
        · rw [zero, show oldsz = 0 by omega]
        · rfl
      rwa [same] at table

end

section
variable {id' : TableId n} {P' S' : Nat → Prop} {F' : Nat → Option Leaf} {old sz : Nat}

lemma Table.keeps (h : Table g id' old P' S' F') (keeps : Keeps id g g') (ne : id' ≠ id) :
    Table g' id' old P' S' F' := by
  obtain ⟨sp, hsp, whole, hroot, cov⟩ := h
  exact ⟨sp, (keeps.space id' ne).trans hsp, whole, hroot, cov.congr_owner fun y u => keeps.owner y _ ne⟩

lemma leafFlags_or_pteV (h : LeafFlags flags) : LeafFlags (flags ||| pteV) :=
  ⟨or_pteV_lt h.1, by rw [or_pteV_and_rwx]; exact h.2⟩

/-- What a round of `uvmcopy` needs of the source: page `k` has a leaf, and `I` goes on to hold
with the copy of that page in the new table. -/
def Round (B : Board) (I : Nat → Ghost n → Kernel n → Prop) (id : TableId n) (old root : Nat)
    (P : Nat → Prop) (F : Nat → Option Leaf) (k : Nat) (g : Ghost n) (s : Kernel n) : Prop :=
  ∃ leaf b, LeafFlags leaf.flags ∧ pteAt (s.mem b) (px 0 (k * pgsize)) = leafPte leaf ∧
    Returns (walk B old (k * pgsize) false) s (fun r t => t = s ∧ r = some (b, px 0 (k * pgsize))) ∧
    ∀ x t₁ t₂ g', g.owner x = .free → HasTable B (g.give x .temp) t₁ id root P (Below (k * pgsize)) F →
      kalloc B s = .ok (x, t₁) →
      mappages B root (k * pgsize) pgsize x (leaf.flags ||| pteV)
        (t₁.store x (t₁.mem (pte2pa (leafPte leaf)))) = .ok (true, t₂) →
      Keeps id g g' → Sound B g' t₂ → g'.owner x = .user id k → I (k + 1) g' t₂

section
variable {I : Nat → Ghost n → Kernel n → Prop} (res : Reserved F) (any : ∀ perm, P perm)
  (round : ∀ k g s, Below sz k → I k g s → HasTable B g s id root P (Below (k * pgsize)) F →
    Round B I id old root P F k g s)
include res any round

lemma copyFrom_returns : ∀ {k : Nat} {g : Ghost n} {s : Kernel n}, sz ≤ (k + fuel) * pgsize → I k g s →
    HasTable B g s id root P (Below (k * pgsize)) F →
    Returns (copyFrom B old root sz fuel (k * pgsize)) s fun r t => ∃ g', Keeps id g g' ∧
      (r = false ∧ HasTable B g' t id root P (fun _ => False) F ∨
        r = true ∧ HasTable B g' t id root P (Below (max (k * pgsize) sz)) F ∧ I (max k (pages sz)) g' t) := by
  have done : ∀ {k : Nat}, sz ≤ k * pgsize → max k (pages sz) = k ∧ max (k * pgsize) sz = k * pgsize := by
    unfold pages pgsize
    omega
  induction fuel with
  | zero =>
    intro k g s enough known h
    rw [add_zero] at enough
    obtain ⟨last, size⟩ := done enough
    refine returns_pure ⟨g, .refl id g, .inr ⟨rfl, ?_, ?_⟩⟩
    · rwa [size]
    · rwa [last]
  | succ fuel ih =>
    intro k g s enough known h
    unfold copyFrom
    split_ifs with more
    · obtain ⟨leaf, b, flags, word, walked, goes⟩ := round k g s more known h
      refine walked.bind ?_
      rintro _ t ⟨rfl, rfl⟩
      refine readPte_bind ?_
      rw [word, if_neg (leafPte_valid flags), pteFlags_leafPte flags]
      refine (HasTable.kalloc_returns h).recorded.bind fun r t1 ⟨alloc, got⟩ => ?_
      -- undoing frees all the pages copied
      have undo : ∀ {g1 t1}, HasTable B g1 t1 id root P (Below (k * pgsize)) F →
        Keeps id g g1 → Returns (uvmunmap B root 0 (k * pgsize / pgsize) true >>= fun _ =>
          (pure false : K n Bool)) t1 fun r t => ∃ g', Keeps id g g' ∧
          (r = false ∧ HasTable B g' t id root P (fun _ => False) F ∨ r = true ∧
            HasTable B g' t id root P (Below (max (k * pgsize) sz)) F ∧ I (max k (pages sz)) g' t) := by
        intro g1 t1 table keeps
        rw [page_index]
        refine (unmap_all_returns table).bind ?_
        rintro - t' ⟨g', table', keeps'⟩
        exact returns_pure ⟨g', keeps.trans keeps', .inl ⟨rfl, table'⟩⟩
      rcases got with ⟨rfl, same⟩ | ⟨pos, own, taken⟩
      · rw [if_pos rfl]
        exact undo same (.refl id g)
      · rw [if_neg pos]
        refine returns_modify_bind ?_
        have copied := HasTable.store (x := r) taken (t1.mem (pte2pa (leafPte leaf))) (by simp)
        refine (HasTable.map_next copied res (by simp) (leafFlags_or_pteV flags) (any _)).recorded.bind ?_
        rintro mapped t2 ⟨ran, g1, ⟨rfl, table, keeps⟩ | ⟨rfl, table, keeps, mine⟩⟩
        · rw [if_neg (by simp)]
          refine (HasTable.release table own keeps).bind ?_
          rintro - t3 ⟨table', keeps'⟩
          exact undo table' keeps'
        · rw [if_pos rfl]
          have step := keeps_user own keeps
          have next := (Nat.succ_mul k pgsize).symm
          rw [next]
          refine (ih (by rwa [Nat.succ_add_eq_add_succ])
            (goes r t1 t2 g1 own taken alloc ran step table.sound mine) table).mono ?_
          rintro r' t' ⟨g', keeps', got⟩
          refine ⟨g', step.trans keeps', got.imp_right fun ⟨e, full, known'⟩ => ⟨e, ?_, ?_⟩⟩
          · rwa [below_max_next more] at full
          · have later : max (k + 1) (pages sz) = max k (pages sz) := by
              have := (below_iff sz k).mp more
              omega
            rwa [later] at known'
    · obtain ⟨last, size⟩ := done (Nat.le_of_not_lt more)
      refine returns_pure ⟨g, .refl id g, .inr ⟨rfl, ?_, ?_⟩⟩
      · rwa [size]
      · rwa [last]

lemma uvmcopy_rounds (known : I 0 g s) (h : HasTable B g s id root P (fun _ => False) F) :
    Returns (uvmcopy B old root sz) s fun r t => ∃ g', Keeps id g g' ∧
      (r = false ∧ HasTable B g' t id root P (fun _ => False) F ∨
        r = true ∧ HasTable B g' t id root P (Below sz) F ∧ I (pages sz) g' t) := by
  have empty : (fun _ => False) = Below (0 * pgsize) := by rw [zero_mul, below_zero]
  rw [empty] at h
  have enough : sz ≤ (0 + (sz / pgsize + 1)) * pgsize := by
    unfold pgsize
    omega
  have copied := copyFrom_returns res any round enough known h
  rwa [zero_mul, Nat.zero_max, Nat.zero_max] at copied

end

lemma uvmcopy_returns (h : HasTable B g s id root P (fun _ => False) F)
    (res : Reserved F) (any : ∀ perm, P perm) (ne : id' ≠ id)
    (source : Table g id' old P' (Below sz) F') :
    Returns (uvmcopy B old root sz) s fun r t => ∃ g', Keeps id g g' ∧
      (r = false ∧ HasTable B g' t id root P (fun _ => False) F ∨ r = true ∧
        HasTable B g' t id root P (Below sz) F) := by
  refine (uvmcopy_rounds (I := fun _ g _ => Table g id' old P' (Below sz) F') res any ?_ source h).mono ?_
  · intro k g s more source h
    have origin : HasTable B g s id' old P' (Below sz) F' := ⟨h.sound, source⟩
    have high : maxPages < maxVa / pgsize := by decide
    obtain ⟨sp, hsp, -, -, cov⟩ := source
    obtain ⟨leaf, hl, mine, -⟩ := cov.own k more
    obtain ⟨b, hb, word, walked⟩ := walk_leaf origin hsp (by have := HasTable.count_le h; omega) hl
    obtain ⟨addr, flags⟩ := (h.sound.laid id' sp hsp).leafOk k leaf hl
    exact ⟨leaf, b, flags, word, walked, fun _ _ _ _ _ _ _ _ keeps _ _ => Table.keeps origin.space keeps ne⟩
  · rintro r t ⟨g', keeps, got⟩
    exact ⟨g', keeps, got.imp_right fun ⟨yes, full, _⟩ => ⟨yes, full⟩⟩

end

section

lemma clear_pteU : ∀ flags < 1024, ((flags - (flags &&& pteU)) ||| pteV =
    (flags ||| pteV) - (flags &&& pteU)) ∧ (flags ||| pteV) &&& pteU = flags &&& pteU ∧
    (flags - (flags &&& pteU)) &&& (pteR ||| pteW ||| pteX) = flags &&& (pteR ||| pteW ||| pteX) := by
  decide +kernel

def clearU (leaf : Leaf) : Leaf := ⟨leaf.pa, leaf.flags - (leaf.flags &&& pteU)⟩

lemma clearU_flags (h : LeafFlags leaf.flags) : LeafFlags (clearU leaf).flags :=
  ⟨lt_of_le_of_lt (Nat.sub_le _ _) h.1, by
    have same := (clear_pteU leaf.flags h.1).2.2
    exact same ▸ h.2⟩

lemma leafPte_clearU (h : LeafFlags leaf.flags) : leafPte (clearU leaf) = leafPte leaf - (leafPte leaf &&& pteU) := by
  obtain ⟨word, bit, -⟩ := clear_pteU leaf.flags h.1
  have within : leaf.flags &&& pteU ≤ leaf.flags ||| pteV := by
    rw [← bit]
    exact Nat.and_le_left
  rw [leafPte_eq (clearU_flags h).1, leafPte_eq h.1, and_flags (or_pteV_lt h.1) (by decide), bit,
    Nat.add_sub_assoc within]
  exact congrArg _ word

lemma uvmclear_returns (h : HasTable B g s id root P S F) (hu : S u) (low : u < maxVa / pgsize) :
    Returns (uvmclear B root (u * pgsize)) s fun _ t => ∃ g',
      HasTable B g' t id root (fun _ => True) S F ∧ Keeps id g g' := by
  obtain ⟨sp, hsp, whole, hroot, cov⟩ := h.space
  obtain ⟨leaf, hl, mine, -⟩ := cov.own u hu
  obtain ⟨b, hb, word, walked⟩ := walk_leaf h hsp low hl
  obtain ⟨addr, flags⟩ := (h.sound.laid id sp hsp).leafOk u leaf hl
  unfold uvmclear
  refine walked.bind ?_
  rintro _ t ⟨rfl, rfl⟩
  refine readPte_bind ?_
  rw [word, ← leafPte_clearU flags]
  have index := index_px_zero (u * pgsize)
  rw [page_index] at index
  have put := h.sound.putLeaf (some (clearU leaf)) hsp hb (px_lt 0 (u * pgsize)) (by
    rintro lf e
    obtain rfl := Option.some.inj e
    exact ⟨addr, clearU_flags flags⟩)
  rw [index] at put
  refine ⟨(), _, rfl, _, ⟨put, _, space_same _, whole, hroot, fun u' hu' => ?_,
    fun y u' hy => ?_, fun u' hu' => ?_, cov.apart⟩, keeps_setSpace _⟩
  · by_cases here : u' = u
    · subst here
      exact ⟨clearU leaf, by simp [Space.setLeaf], mine, trivial⟩
    · obtain ⟨leaf', hl', mine', -⟩ := cov.own u' hu'
      exact ⟨leaf', by simp [Space.setLeaf, here, hl'], mine', trivial⟩
  · obtain ⟨hu', leaf', hl', e⟩ := cov.only y u' hy
    by_cases here : u' = u
    · subst here
      rw [hl] at hl'
      obtain rfl := Option.some.inj hl'
      exact ⟨hu', clearU leaf, by simp [Space.setLeaf], e⟩
    · exact ⟨hu', leaf', by simp [Space.setLeaf, here, hl'], e⟩
  · have here : u' ≠ u := by
      rintro rfl
      exact hu' hu
    simp only [Space.setLeaf, here, if_false]
    exact cov.fixed u' hu'

end

end

end Xv6.PageUvm
