import Xv6.ForkCopy

/-! `sbrk` does what it reports, unless it is asked to shrink the process below nothing:
then the new size wraps around, `uvmdealloc` takes it for a larger one and leaves
everything as it was, and the call succeeds. -/

namespace Xv6.SbrkSize

open ByteFields VmMachine VmProc PageTable PageOwner PageWalk PageFree PageUvm PageProc PageRun PageMap UserCopy
  PageFrame ExecAtomic ForkCopy Total

variable {n : Nat} {B : Board} {g g' : Ghost n} {s t : Kernel n} {id : TableId n} {p : Fin n}
  {root lo k sz newsz x : Nat}

/-- The old size, or -1. -/
def sysSbrk (B : Board) (p : Fin n) (bytes : Int32) : K n Int := do
  let s ← get
  let addr := (s.proc p).sz
  if ← growproc B p bytes then return addr else return -1

def Span (lo k u : Nat) : Prop := lo ≤ u ∧ u < k

lemma roundUp_pages (small : sz ≤ 2 * physTop) : pgRoundUp sz = pages sz * pgsize := by
  unfold pgRoundUp pages
  rw [Nat.mod_eq_of_lt]
  unfold physTop kernBase at small
  unfold pgsize
  omega

lemma pages_mul (k) : pages (k * pgsize) = k := by
  unfold pages pgsize
  omega

lemma HasTable.span_le (h : HasTable B g s id root P (Span lo k) F) : k ≤ lo + maxPages := by
  obtain ⟨sp, -, -, -, cov⟩ := h.space
  have row := Covers.row_le lo (m := k - lo) h.sound cov fun u low high => ⟨low, by omega⟩
  omega

lemma dealloc_span (less : newsz ≤ sz) (small : sz ≤ 2 * physTop)
    (h : HasTable B g s id root P (Span (pages newsz) (pages sz)) F) :
    Returns (uvmdealloc B root sz newsz) s fun _ t => ∃ g',
      HasTable B g' t id root P (Span (pages newsz) (pages newsz)) F ∧ Keeps id g g' := by
  have mono : pages newsz ≤ pages sz := by
    unfold pages pgsize
    omega
  have empty : pages sz = pages newsz → HasTable B g s id root P (Span (pages newsz) (pages newsz)) F := by
    intro same
    rwa [same] at h
  unfold uvmdealloc
  rw [roundUp_pages small, roundUp_pages (less.trans small)]
  split_ifs with grows shrinks
  · exact returns_pure ⟨g, empty (by rw [le_antisymm less grows]), .refl id g⟩
  · unfold uvmunmap
    rw [if_neg (by simp), ← Nat.sub_mul, Nat.mul_div_cancel _ (by decide)]
    have high : pages sz ≤ maxVa / pgsize := by
      have room : pages (2 * physTop) ≤ maxVa / pgsize := by decide
      refine le_trans ?_ room
      unfold pages pgsize
      omega
    refine (unmap_user_returns h (fun u low up => ⟨low, by omega⟩) (by omega)).bind ?_
    rintro - t ⟨g', table, keeps⟩
    refine returns_pure ⟨g', ?_, keeps⟩
    have none_ : (fun u => Span (pages newsz) (pages sz) u ∧
      ¬ (pages newsz ≤ u ∧ u < pages newsz + (pages sz - pages newsz))) = Span (pages newsz) (pages newsz) := by
      funext u
      rw [eq_iff_iff]
      unfold Span
      omega
    rwa [none_] at table
  · have same : pages sz = pages newsz := by
      rw [Nat.mul_lt_mul_right (by decide)] at shrinks
      omega
    exact returns_pure ⟨g, empty same, .refl id g⟩

lemma span_rows (base : lo ≤ maxPages) (above : ∀ u, lo ≤ u → u < trapframePage → F u = none) :
    Rows B id root lo P F (Span lo) where
  map {k x perm g s} low h own flags ok := by
    have count := HasTable.span_le h
    have twice : maxPages + maxPages < trapframePage ∧ trapframePage < maxVa / pgsize := by decide
    have next : (fun u => Span lo k u ∨ u = k) = Span lo (k + 1) := by
      funext u
      rw [eq_iff_iff]
      unfold Span
      omega
    have mapped := mappages_user_returns h (by omega) (by unfold Span; omega) (above k low (by omega)) own flags ok
    rwa [next] at mapped
  unmap {k g s} low h := by
    have count := HasTable.span_le h
    have twice : (maxPages + maxPages) * pgsize ≤ 2 * physTop := by decide
    have size : k * pgsize ≤ 2 * physTop := (Nat.mul_le_mul_right _ (by omega : k ≤ maxPages + maxPages)).trans twice
    rw [← pages_mul lo, ← pages_mul k] at h
    have freed := dealloc_span (Nat.mul_le_mul_right _ low) size h
    rwa [pages_mul] at freed

/-- The owners of a call on the table `id` that leaves the user pages below `lo` alone. -/
def Upper (id : TableId n) (lo : Nat) (o : Owner n) : Prop := Within id o ∧ ∀ u < lo, o ≠ .user id u

lemma upper_keepable (id : TableId n) (lo) : Keepable (Upper id lo) id where
  outside := ⟨.inr rfl, by simp⟩
  free := ⟨.inl trivial, by simp⟩
  table _ _ := ⟨.inl rfl, by simp⟩
  other id' l v kept := (within_keepable id).other id' l v kept.1

/-- A call that works on the table whatever its leaves below `lo` are leaves them and their pages alone. -/
lemma low_kept (h : HasTable B g s id root P S F) (lo)
    (spec : ∀ g0 F0, (∀ u, lo ≤ u → F0 u = F u) → HasTable B g0 s id root P (fun u => lo ≤ u ∧ S u) F0 →
      Returns f s fun _ t => ∃ g' S', HasTable B g' t id root P S' F0 ∧ (∀ u, S' u → lo ≤ u) ∧ Keeps id g0 g') :
    Returns f s fun _ t => (∀ u < lo, leafAt t.mem root u = leafAt s.mem root u) ∧
      ∀ u < lo, S u → ∃ pte, leafAt s.mem root u = some pte ∧ t.mem (pte2pa pte) = s.mem (pte2pa pte) := by
  obtain ⟨sound, sp, hsp, whole, hroot, cov⟩ := h
  have laid := sound.laid id sp hsp
  have above : ∀ u, lo ≤ u → Upper id lo (.user id u) := by
    refine fun u high => ⟨.inl rfl, fun v low same => ?_⟩
    have := (Owner.user.inj same).2
    omega
  have table : Table (freeze (Upper id lo) id s.mem g) id root P (fun u => lo ≤ u ∧ S u)
    (fun u => if u < lo then sp.leaf u else F u) := by
    refine ⟨sp, freeze_space.trans hsp, whole, hroot, fun u hu => ?_, fun y u own => ?_, fun u hu => ?_, fun u hu => ?_⟩
    · obtain ⟨leaf, here, own, flags⟩ := cov.own u hu.2
      exact ⟨leaf, here, (freeze_iff (by simp)).mpr ⟨above u hu.1, own⟩, flags⟩
    · obtain ⟨kept, own⟩ := (freeze_iff (by simp)).mp own
      obtain ⟨has, leaf, here, eq⟩ := cov.only y u own
      refine ⟨⟨?_, has⟩, leaf, here, eq⟩
      by_contra low
      exact kept.2 u (by omega) rfl
    · split_ifs with low
      · rfl
      · exact cov.fixed u fun has => hu ⟨by omega, has⟩
    · rw [if_neg (by omega)]
      exact cov.apart u hu.2
  have frozen := freeze_sound sound (upper_keepable id lo)
  refine (spec _ _ (fun u high => if_neg (by omega)) ⟨frozen, table⟩).mono ?_
  rintro r t ⟨g', S', ⟨sound', sp', hsp', whole', hroot', covers'⟩, high, keeps⟩
  have leaves : ∀ u < lo, leafAt t.mem root u = leafAt s.mem root u := by
    intro u low
    have same : sp'.leaf u = sp.leaf u := by
      rw [covers'.fixed u fun has => absurd (high u has) (by omega), if_pos low]
    rw [leafAt_space (sound'.laid id sp' hsp') whole' hroot', leafAt_space laid whole hroot, same]
  refine ⟨leaves, fun u low has => ?_⟩
  obtain ⟨leaf, here, own, -⟩ := cov.own u has
  obtain ⟨addr, flags⟩ := laid.leafOk u leaf here
  refine ⟨leafPte leaf, by rw [leafAt_space laid whole hroot, here]; rfl, ?_⟩
  rw [pte2pa_leafPte addr flags]
  refine untouched_of_frozen sound' (fun page eq => (keeps.owner _ _ (by simp [Family])).mpr eq) fun kept => ?_
  rw [own] at kept
  exact kept.2 u low rfl

def ZeroPage (mem : Nat → Bytes pgsize) (root u : Nat) : Prop :=
  ∃ pte, leafAt mem root u = some pte ∧ mem (pte2pa pte) = fill 0

lemma zero_round (res : Reserved F) (flags : LeafFlags perm)
    (known : ∀ u, base ≤ u → u < k → ZeroPage s.mem root u)
    (h : HasTable B g s id root P (Below (k * pgsize)) F) :
    PageUvm.Grows B (fun k _ s => ∀ u, base ≤ u → u < k → ZeroPage s.mem root u) id root perm P F k g s := by
  intro x t1 t2 g' free taken alloc ran u low high
  have count := HasTable.count_le h
  have small : maxPages < maxVa / pgsize := by decide
  have managed := h.sound.managed_of (x := x) (by simp [free])
  rcases Nat.lt_succ_iff_lt_or_eq.mp high with earlier | rfl
  · obtain ⟨leaf, page⟩ := fresh_earlier h (by omega) (by simp [Below]) (res.none_of count) flags free
      taken alloc ran (by rw [below_mul]; exact earlier)
    obtain ⟨pte, here, zero⟩ := known u low earlier
    exact ⟨pte, leaf.trans here, (page pte here).trans zero⟩
  · obtain ⟨leaves, pages⟩ := fresh_leaves h (by omega) (by simp [Below]) (res.none_of count) flags free
      taken alloc ran
    refine ⟨mapPte x perm, by rw [leaves, if_pos rfl], ?_⟩
    rw [pte2pa_mapPte managed.pageAddr.1 flags.1, pages x (by simp [Tables]), if_pos rfl]

def LowKept (root lo : Nat) (s t : Kernel n) : Prop :=
  (∀ u < lo, leafAt t.mem root u = leafAt s.mem root u) ∧
    ∀ u < lo, ∃ pte, leafAt s.mem root u = some pte ∧ t.mem (pte2pa pte) = s.mem (pte2pa pte)

lemma grow_kept (h : HasTable B g s id root P (Below sz) F) (res : Reserved F)
    (ok : P (pteR ||| pteU ||| pteW)) (more : sz ≤ newsz) :
    Returns (uvmalloc B root sz newsz pteW) s fun r t => LowKept root (pages sz) s t ∧ ∃ g', Keeps id g g' ∧
      (r = 0 ∧ HasTable B g' t id root P (Below sz) F ∨ r = newsz ∧ HasTable B g' t id root P (Below newsz) F ∧
        ∀ u, pages sz ≤ u → u < pages newsz → ZeroPage t.mem root u) := by
  have flags : LeafFlags (pteR ||| pteU ||| pteW) := ⟨by decide, by decide⟩
  have size := HasTable.size_le h
  have base : pages sz ≤ maxPages := by
    rw [← below_pages] at h
    exact HasTable.count_le h
  have low := low_kept (f := uvmalloc B root sz newsz pteW) h (pages sz) fun g0 F0 same table => by
    have none_ : (fun u => pages sz ≤ u ∧ Below sz u) = Span (pages sz) (pages sz) := by
      funext u
      rw [eq_iff_iff, below_iff]
      rfl
    rw [none_] at table
    unfold uvmalloc
    rw [if_neg (by omega)]
    rw [pgRoundUp_eq size]
    refine ((span_rows base fun u above below => ?_).allocFrom_returns (I := fun _ _ _ => True) flags ok
      (fun _ _ _ _ _ _ _ _ _ _ _ _ _ _ => trivial) (fuel_enough ..) le_rfl trivial table).mono ?_
    · rw [same u above]
      cases here : F u with
      | none => rfl
      | some leaf => exact absurd (res u leaf here).1 (by omega)
    · rintro r t ⟨g', keeps, ⟨-, table'⟩ | ⟨-, table', -⟩⟩
      · exact ⟨g', _, table', fun u has => has.1, keeps⟩
      · exact ⟨g', _, table', fun u has => has.1, keeps⟩
  have grown := uvmalloc_grows (I := fun k _ s => ∀ u, pages sz ≤ u → u < k → ZeroPage s.mem root u) h res flags
    ok more (fun k g s _ known table => zero_round res flags known table) (fun u low high => by omega)
  refine (low.both grown).mono ?_
  rintro r t ⟨⟨leaves, pages_⟩, g', keeps, got⟩
  exact ⟨⟨leaves, fun u below => pages_ u below ((below_iff sz u).mpr below)⟩, g', keeps, got⟩

lemma shrink_kept (h : HasTable B g s id root P (Below sz) F) (less : newsz ≤ sz) :
    Returns (uvmdealloc B root sz newsz) s fun r t => LowKept root (pages newsz) s t ∧ r = newsz ∧ ∃ g',
      Keeps id g g' ∧ HasTable B g' t id root P (Below newsz) F := by
  have size := HasTable.size_le h
  have mono : pages newsz ≤ pages sz := by
    unfold pages pgsize
    omega
  have low := low_kept h (pages newsz) fun g0 F0 same table => by
    have span : (fun u => pages newsz ≤ u ∧ Below sz u) = Span (pages newsz) (pages sz) := by
      funext u
      rw [eq_iff_iff, below_iff]
      rfl
    rw [span] at table
    refine (dealloc_span less (by omega) table).mono ?_
    rintro r t ⟨g', table', keeps⟩
    exact ⟨g', _, table', fun u has => has.1, keeps⟩
  refine (low.both (uvmdealloc_returns newsz h)).mono ?_
  rintro r t ⟨⟨leaves, pages_⟩, rfl, g', table, keeps⟩
  rw [min_eq_right less] at table ⊢
  refine ⟨⟨leaves, fun u below => pages_ u below ((below_iff sz u).mpr ?_)⟩, rfl, g', keeps, table⟩
  omega

/-- The process with page table `root` has gone from the size `old` to the size `new`. -/
structure Resized (B : Board) (root old new : Nat) (s t : Kernel n) : Prop where
  mapped : ∀ va, va < trapframeVa → ((lookup B t root va).isSome ↔ va < pgRoundUp new)
  high : ∀ va, trapframeVa ≤ va → lookup B t root va = lookup B s root va
  kept : ∀ va, va < pgRoundUp (min old new) → ∃ pte, lookup B s root va = some pte ∧
    lookup B t root va = some pte ∧ t.mem (pte2pa pte) = s.mem (pte2pa pte)
  zero : ∀ va, pgRoundUp old ≤ va → va < pgRoundUp new → ∃ pte, lookup B t root va = some pte ∧
    t.mem (pte2pa pte) = fill 0

lemma page_lt_iff (size : sz ≤ physTop) (va) : va < pgRoundUp sz ↔ va / pgsize < pages sz := by
  rw [pgRoundUp_eq size, Nat.div_lt_iff_lt_mul (by decide)]

lemma below_max (size : sz ≤ physTop) (low : va < pgRoundUp sz) : va < maxVa := by
  have room : pages physTop * pgsize ≤ maxVa := by decide
  rw [pgRoundUp_eq size] at low
  have mono : pages sz ≤ pages physTop := by
    unfold pages pgsize
    omega
  exact (low.trans_le (Nat.mul_le_mul_right _ mono)).trans_le room

lemma leaf_above (h : HasTable B g s id root P (Below sz) F) (above : pages sz ≤ u) :
    leafAt s.mem root u = (F u).map leafPte := by
  obtain ⟨sound, sp, hsp, whole, hroot, cov⟩ := h
  rw [leafAt_space (sound.laid id sp hsp) whole hroot, cov.fixed]
  rw [below_iff]
  omega

lemma leaf_below (h : HasTable B g s id root P (Below sz) F) (below : u < pages sz) : (leafAt s.mem root u).isSome := by
  obtain ⟨sound, sp, hsp, whole, hroot, cov⟩ := h
  obtain ⟨leaf, here, -⟩ := cov.own u ((below_iff sz u).mpr below)
  rw [leafAt_space (sound.laid id sp hsp) whole hroot, here]
  rfl

lemma lookup_mem (same : t'.mem = t.mem) (va) : lookup B t' root va = lookup B t root va := by
  by_cases top : va < maxVa
  · rw [PageMap.lookup_eq top, PageMap.lookup_eq top, same]
  · rw [lookup_high (by omega), lookup_high (by omega)]

lemma lookup_kept (h : HasTable B g s id root P (Below sz) F) (h' : HasTable B g' t id root P (Below sz) F)
    (low : LowKept root (pages sz) s t) (va) : lookup B t root va = lookup B s root va := by
  by_cases top : va < maxVa
  · rw [PageMap.lookup_eq top, PageMap.lookup_eq top]
    by_cases below : va / pgsize < pages sz
    · exact low.1 _ below
    · rw [leaf_above h' (by omega), leaf_above h (by omega)]
  · rw [lookup_high (by omega), lookup_high (by omega)]

lemma resized (h : HasTable B g s id root P (Below sz) F) (h' : HasTable B g' t id root P (Below newsz) F)
    (res : Reserved F) (low : LowKept root (pages (min sz newsz)) s t)
    (zero : ∀ u, pages sz ≤ u → u < pages newsz → ZeroPage t.mem root u) : Resized B root sz newsz s t := by
  have size := HasTable.size_le h
  have size' := HasTable.size_le h'
  have tops : pages physTop ≤ trapframePage ∧ trapframeVa = trapframePage * pgsize ∧ trapframeVa < maxVa := by decide
  have small : ∀ {m}, m ≤ physTop → pages m ≤ pages physTop := by
    intro m le
    unfold pages pgsize
    omega
  refine ⟨fun va user => ?_, fun va above => ?_, fun va below => ?_, fun va above below => ?_⟩
  · rw [page_lt_iff size', PageMap.lookup_eq (by omega)]
    constructor
    · intro some_
      by_contra high
      rw [leaf_above h' (by omega)] at some_
      cases here : F (va / pgsize) with
      | none =>
        rw [here] at some_
        cases some_
      | some leaf =>
        have apart := (res _ leaf here).1
        have := (Nat.div_lt_iff_lt_mul (show 0 < pgsize by decide)).mpr (tops.2.1 ▸ user)
        omega
    · exact leaf_below h'
  · by_cases top : va < maxVa
    · have page : trapframePage ≤ va / pgsize := (Nat.le_div_iff_mul_le (by decide)).mpr (tops.2.1 ▸ above)
      have := small size
      have := small size'
      rw [PageMap.lookup_eq top, PageMap.lookup_eq top, leaf_above h (by omega), leaf_above h' (by omega)]
    · rw [lookup_high (by omega), lookup_high (by omega)]
  · have least : min sz newsz ≤ physTop := (min_le_left ..).trans size
    have top := below_max least below
    rw [page_lt_iff least] at below
    obtain ⟨pte, here, same⟩ := low.2 _ below
    rw [PageMap.lookup_eq top, PageMap.lookup_eq top]
    exact ⟨pte, here, (low.1 _ below).trans here, same⟩
  · have top := below_max size' below
    rw [page_lt_iff size'] at below
    have past : pages sz ≤ va / pgsize := by
      rw [← not_lt, page_lt_iff size] at above
      omega
    rw [PageMap.lookup_eq top]
    exact zero _ past below

variable {args : List Nat} {bytes : Int32}

lemma addSize_of_nonneg (small : sz ≤ physTop) (nonneg : 0 ≤ (sz : Int) + bytes.toInt) :
    (addSize sz bytes.toInt : Int) = sz + bytes.toInt := by
  have high := Int32.toInt_lt bytes
  unfold addSize
  unfold physTop kernBase at small
  omega

lemma addSize_of_neg (small : sz ≤ physTop) (neg : (sz : Int) + bytes.toInt < 0) : sz ≤ addSize sz bytes.toInt := by
  have low := Int32.le_toInt bytes
  unfold addSize
  unfold physTop kernBase at small
  omega

lemma Resized.congr (h : Resized B root old new s t) (same : t'.mem = t.mem) : Resized B root old new s t' := by
  have view : ∀ va, lookup B t' root va = lookup B t root va := lookup_mem same
  refine ⟨fun va => ?_, fun va => ?_, fun va => ?_, fun va => ?_⟩
  · rw [view]
    exact h.mapped va
  · rw [view]
    exact h.high va
  · rw [view, same]
    exact h.kept va
  · rw [view, same]
    exact h.zero va

/-- The size of the process has changed by `bytes`, and its pages with it. -/
def Moved (B : Board) (p : Fin n) (bytes : Int) (s t : Kernel n) : Prop :=
  ((t.proc p).sz : Int) = (s.proc p).sz + bytes ∧ (t.proc p).pagetable = (s.proc p).pagetable ∧
    Resized B (s.proc p).pagetable (s.proc p).sz (t.proc p).sz s t

lemma assign_moved {bytes : Int} {new : Nat} (same : t.proc = s.proc) (sum : (new : Int) = (s.proc p).sz + bytes)
    (done : Resized B (s.proc p).pagetable (s.proc p).sz new s t) :
    Returns (do assign p fun proc => { proc with sz := new }; return true : K n Bool) t fun r u =>
      r = true ∧ Moved B p bytes s u := by
  have slot : ∀ proc, (Kernel.setProc t p proc).proc p = proc := fun _ => Function.update_self ..
  refine returns_modify_bind (returns_pure ⟨rfl, ?_, ?_, ?_⟩)
  · rw [slot]
    exact sum
  · rw [slot, same]
  · rw [slot]
    exact done.congr rfl

lemma growproc_resizes (h : Sound B g s) (inv : Inv B g args) (live : (g.rest.proc p).state ≠ .unused)
    (down : 0 ≤ ((s.proc p).sz : Int) + bytes.toInt) :
    Returns (growproc B p bytes) s fun r t => (r = true ∧ Moved B p bytes.toInt s t) ∨
      (r = false ∧ t.proc p = s.proc p ∧
        ∀ va, lookup B t (s.proc p).pagetable va = lookup B s (s.proc p).pagetable va) := by
  obtain ⟨tf, own, space⟩ := (inv.settled p).live live
  rw [← sound_proc h] at space
  have table : HasTable B g s (some p) _ _ _ _ := ⟨h, space⟩
  have res := frames_res B (s.proc p).trapframe
  have size := HasTable.size_le table
  have sum := addSize_of_nonneg size down
  have procs : ∀ {g1 : Ghost n} {t : Kernel n}, Sound B g1 t → Keeps (some p) g g1 → t.proc = s.proc := by
    intro g1 t sound keeps
    rw [sound_proc sound, sound_proc h, keeps.rest]
  unfold growproc
  refine returns_get_bind ?_
  dsimp only
  split_ifs with grow shrink
  · have more : (s.proc p).sz ≤ addSize (s.proc p).sz bytes.toInt := by omega
    refine (grow_kept table res trivial more).bind ?_
    rintro r t ⟨low, g1, keeps, ⟨rfl, table1⟩ | ⟨rfl, table1, zero⟩⟩
    · rw [if_pos rfl]
      exact returns_pure (.inr ⟨rfl, by rw [procs table1.sound keeps], lookup_kept table table1 low⟩)
    · rw [if_neg (by omega)]
      rw [← min_eq_left more] at low
      exact (assign_moved (procs table1.sound keeps) sum (resized table table1 res low zero)).mono fun _ _ => .inl
  · have less : addSize (s.proc p).sz bytes.toInt ≤ (s.proc p).sz := by omega
    refine (shrink_kept table less).bind ?_
    rintro r t ⟨low, rfl, g1, keeps, table1⟩
    rw [← min_eq_right less] at low
    refine (assign_moved (procs table1.sound keeps) sum (resized table table1 res low fun u above below => ?_)).mono
      fun _ _ => .inl
    have mono : pages (addSize (s.proc p).sz bytes.toInt) ≤ pages (s.proc p).sz := by
      unfold pages pgsize
      omega
    omega
  · have zero : bytes.toInt = 0 := by omega
    have low : LowKept (s.proc p).pagetable (pages (min (s.proc p).sz (s.proc p).sz)) s s := by
      rw [Nat.min_self]
      refine ⟨fun _ _ => rfl, fun u below => ?_⟩
      obtain ⟨pte, here⟩ := Option.isSome_iff_exists.mp (leaf_below table below)
      exact ⟨pte, here, rfl⟩
    exact returns_pure (.inl ⟨rfl, by rw [zero, add_zero], rfl,
      resized table table res low fun u above below => absurd below (not_lt.mpr above)⟩)

lemma sbrk_below_zero (ok : Consistent B s) (live : (s.proc p).state ≠ .unused) (bytes : Int32)
    (below : ((s.proc p).sz : Int) + bytes.toInt < 0) :
    ∃ t, sysSbrk B p bytes s = .ok (((s.proc p).sz : Int), t) ∧ (t.proc p).sz = (s.proc p).sz := by
  obtain ⟨g, args, h, inv⟩ := ok
  rw [sound_proc h] at live
  obtain ⟨tf, own, space⟩ := (inv.settled p).live live
  rw [← sound_proc h] at space
  have table : HasTable B g s (some p) _ _ _ _ := ⟨h, space⟩
  have wraps := addSize_of_neg (HasTable.size_le table) below
  have ran : Returns (sysSbrk B p bytes) s fun r t => r = (s.proc p).sz ∧ (t.proc p).sz = (s.proc p).sz := by
    refine returns_get_bind ?_
    apply Returns.bind (Q := fun r t => r = true ∧ (t.proc p).sz = (s.proc p).sz)
    · refine returns_get_bind ?_
      rw [if_neg (by omega), if_pos (by omega)]
      unfold uvmdealloc
      rw [if_pos wraps]
      refine returns_pure_bind (returns_modify_bind (returns_pure ⟨rfl, ?_⟩))
      exact congrArg VmMachine.Proc.sz (Function.update_self ..)
    · rintro r t ⟨rfl, same⟩
      exact returns_pure ⟨rfl, same⟩
  obtain ⟨r, t, eq, rfl, same⟩ := ran
  exact ⟨t, eq, same⟩

/-- `sbrk` changes the size as it reports, or fails and changes nothing, just if it is not to take more
than the process has. -/
theorem sbrk_moves (ok : Consistent B s) (live : (s.proc p).state ≠ .unused) (bytes : Int32) :
    (∃ r t, sysSbrk B p bytes s = .ok (r, t) ∧ (r ≠ -1 → r = (s.proc p).sz ∧ Moved B p bytes.toInt s t) ∧
      (r = -1 → t.proc p = s.proc p ∧
        ∀ va, lookup B t (s.proc p).pagetable va = lookup B s (s.proc p).pagetable va)) ↔
    0 ≤ ((s.proc p).sz : Int) + bytes.toInt := by
  constructor
  · rintro ⟨r, t, ran, moved, -⟩
    by_contra below
    obtain ⟨t', ran', same⟩ := sbrk_below_zero ok live bytes (not_le.mp below)
    rw [ran'] at ran
    cases ran
    have size := (moved (by omega)).2.1
    rw [same] at size
    omega
  · intro down
    obtain ⟨g, args, h, inv⟩ := ok
    rw [sound_proc h] at live
    refine returns_get_bind ((growproc_resizes h inv live down).bind ?_)
    rintro r t (⟨rfl, moved⟩ | ⟨rfl, same⟩)
    · rw [if_pos rfl]
      exact returns_pure ⟨fun _ => ⟨rfl, moved⟩, fun bad => absurd bad (by omega)⟩
    · rw [if_neg (by decide)]
      exact returns_pure ⟨fun bad => absurd rfl bad, fun _ => same⟩

lemma small_sbrk : ∃ s t : Kernel 2, Booted smallBoard 0 s ∧ (s.proc 0).state = .runnable ∧ (s.proc 0).sz = pgsize ∧
    sysSbrk smallBoard 0 (-1) s = .ok ((pgsize : Int), t) := by
  have ran : ((bootKernel smallBoard 0 [] (reset fun _ => fill 0 : Kernel 2)).toOption.map
    fun r => (r.1, (r.2.proc 0).state, (r.2.proc 0).sz,
      (walkaddr smallBoard (r.2.proc 0).pagetable 0 r.2).toOption.map fun q => decide (q.1 = 0),
      (sysSbrk smallBoard 0 (-1) r.2).toOption.map fun q => q.1)) =
    some (0, .runnable, pgsize, some false, some (pgsize : Int)) := by
    decide +kernel
  obtain ⟨⟨p, s⟩, boot, facts⟩ := Option.map_eq_some_iff.mp ran
  simp only [Prod.mk.injEq] at facts
  obtain ⟨rfl, live, size, mapped, shrunk⟩ := facts
  obtain ⟨⟨pa, u⟩, found, pos⟩ := Option.map_eq_some_iff.mp mapped
  obtain ⟨⟨r, t⟩, step, rfl⟩ := Option.map_eq_some_iff.mp shrunk
  exact ⟨s, t, ⟨_, _, _, pa, u, ok_of_toOption boot, ok_of_toOption found, by simpa using pos⟩, live, size,
    ok_of_toOption step⟩

theorem sbrk_moves_byte : ∃ s t : Kernel 2, Reachable smallBoard 0 s ∧
    sysSbrk smallBoard 0 (-1) s = .ok ((pgsize : Int), t) ∧ Moved smallBoard 0 (-1) s t := by
  obtain ⟨s, t, booted, live, size, ran⟩ := small_sbrk
  have reach : Reachable smallBoard 0 s := ⟨s, [], booted, .nil s⟩
  have used : (s.proc 0).state ≠ .unused := by simp [live]
  obtain ⟨r, t', ran', moved, -⟩ := (sbrk_moves (reachable_consistent reach) used (-1)).mpr (by rw [size]; decide)
  rw [ran] at ran'
  cases ran'
  exact ⟨s, t, reach, ran, (moved (by decide)).2⟩

/-- Right after the boot the first process gives back one byte more than its only page: the call
returns the old size, and the size is the same. -/
theorem sbrk_reports_nothing : ∃ s t : Kernel 2, Reachable smallBoard 0 s ∧ (s.proc 0).sz = pgsize ∧
    sysSbrk smallBoard 0 (-4097) s = .ok ((pgsize : Int), t) ∧ (t.proc 0).sz = pgsize ∧
    ((t.proc 0).sz : Int) ≠ (s.proc 0).sz + (-4097 : Int32).toInt := by
  obtain ⟨s, -, booted, live, size, -⟩ := small_sbrk
  have reach : Reachable smallBoard 0 s := ⟨s, [], booted, .nil s⟩
  have used : (s.proc 0).state ≠ .unused := by simp [live]
  obtain ⟨t, ran, same⟩ := sbrk_below_zero (reachable_consistent reach) used (-4097) (by rw [size]; decide)
  rw [size] at ran same
  refine ⟨s, t, reach, size, ran, same, ?_⟩
  rw [same, size]
  decide

end Xv6.SbrkSize
