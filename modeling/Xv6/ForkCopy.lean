import Xv6.ExecAtomic

/-! `fork` gives the child a copy of the parent's address space. The pages of other processes are
frozen in the ghost state, so the source keeps its image while the loop of `uvmcopy` runs, and the
copies can be compared with it page by page. -/

namespace Xv6.ForkCopy

open ByteFields VmMachine VmProc PageTable PageOwner PageWalk PageFree PageUvm PageCopy PageProc PageExec
  PageRun PageMap UserCopy PageFrame ExecAtomic Total Function

variable {n : Nat} {B : Board} {g g' : Ghost n} {s t : Kernel n} {id : TableId n} {p : Fin n}
  {root old sz x : Nat} {m : Nat → Bytes pgsize}

lemma managed_frame (h : Managed B x) : PageMap.Frame x := by
  obtain ⟨aligned, low⟩ := h.pageAddr
  refine ⟨aligned, low.trans ?_⟩
  decide

lemma shape_table (h : HasTable B g s id root P S F) : Shape s root := by
  obtain ⟨sound, sp, hsp, whole, hroot, -⟩ := h
  have laid := sound.laid id sp hsp
  refine ⟨fun d v d' v' y hd hd' here there => ?_, ?_⟩
  · rw [tableAt_space laid whole hroot d v hd] at here
    rw [tableAt_space laid whole hroot d' v' hd'] at there
    obtain ⟨level, same⟩ := laid.inj _ _ _ _ _ here there
    exact ⟨by omega, same⟩
  · obtain ⟨l, chain, nodup, free⟩ := sound.free
    refine ⟨l, chain, nodup, fun y inside => ?_⟩
    have own := (free y).mp inside
    refine ⟨managed_frame (sound.managed_of (by simp [own])), fun here => ?_⟩
    obtain ⟨level, v, table⟩ := (inTree_space sound hsp whole hroot).mp here
    rw [own] at table
    cases table

def Tables (id : TableId n) (o : Owner n) : Prop := o = .outside ∨ o = .free ∨ ∃ l v, o = .table id l v

lemma tables_keepable (id : TableId n) : Keepable (Tables id) id where
  outside := .inl rfl
  free := .inr (.inl rfl)
  table l v := .inr (.inr ⟨l, v, rfl⟩)
  other id' l v kept := by
    rcases kept with out | free | ⟨l', v', same⟩
    · cases out
    · cases free
    · exact (Owner.table.inj same).1

lemma mappages_content (h : HasTable B g s id root P S F)
    (low : u < maxVa / pgsize) (unmapped : ¬ S u) (none_ : F u = none) (addr : PageAddr pa)
    (flags : LeafFlags perm) (ran : mappages B root (u * pgsize) pgsize pa perm s = .ok (true, t)) :
    (∀ v, leafAt t.mem root v = if v = u then some (mapPte pa perm) else leafAt s.mem root v) ∧
      ∀ y, ¬ Tables id (g.owner y) → t.mem y = s.mem y := by
  have page : pgsize / pgsize = 1 := by decide
  constructor
  · have small : pa + pgsize ≤ physLimit := by
      have top : physTop + pgsize ≤ physLimit := by decide
      have := addr.2
      omega
    have safe : Safe (fun _ => True) (mappages B root (u * pgsize) pgsize pa perm) s _ :=
      mappages_safe (shape_table h) flags.1 small (fun _ => trivial) (fun _ => trivial) (fun _ => trivial)
        (fun _ => trivial) (fun _ => trivial)
    obtain ⟨-, -, -, done, -⟩ := safe.ensures true t ran
    intro v
    rw [done rfl, page_index, page]
    unfold mapped
    by_cases here : v = u
    · subst here
      rw [if_pos ⟨le_rfl, Nat.lt_succ_self v⟩, if_pos rfl, Nat.sub_self, zero_mul, add_zero]
    · rw [if_neg (by omega), if_neg here]
  · obtain ⟨sound, sp, hsp, whole, hroot, cov⟩ := h
    have table : Table (freeze (Tables id) id s.mem g) id root P (fun _ => False) sp.leaf := by
      refine ⟨sp, freeze_space.trans hsp, whole, hroot, nofun, fun y v own => ?_, fun _ _ => rfl, nofun⟩
      have kept := ((freeze_iff (by simp)).mp own).1
      simp [Tables] at kept
    have free : sp.leaf u = none := by rw [cov.fixed u unmapped, none_]
    obtain ⟨g', keeps, got⟩ := (mappages_fixed_returns ⟨freeze_sound sound (tables_keepable id), table⟩
      low (by simp) free addr flags).ensures true t ran
    have sound' : Sound B g' t := got.elim (fun bad => bad.2.sound) fun good => good.2.sound
    exact fun y out => untouched_of_frozen sound' (fun page eq => (keeps.owner y _ (by simp [Family])).mpr eq) out

lemma kalloc_other (ran : kalloc B s = .ok (x, t)) (ne : y ≠ x) : t.mem y = s.mem y := by
  have other : Ensures (kalloc B) s fun r t => ∀ y, y ≠ r → t.mem y = s.mem y := by
    refine ensures_get ?_
    dsimp only
    split_ifs
    · refine Returns.ensures (returns_set_bind (returns_pure ?_))
      exact fun _ _ => rfl
    · refine Returns.ensures (returns_set_bind (returns_pure ?_))
      exact fun _ ne => update_of_ne ne _ _
  exact other x t ran y ne

section
variable {t1 t2 : Kernel n} (h : HasTable B g s id root P S F) (low : u < maxVa / pgsize) (unmapped : ¬ S u)
  (none_ : F u = none) (flags : LeafFlags perm) (free : g.owner x = .free)
  (taken : HasTable B (g.give x .temp) t1 id root P S F) (alloc : kalloc B s = .ok (x, t1))
  (ran : mappages B root (u * pgsize) pgsize x perm (t1.store x page) = .ok (true, t2))
include h low unmapped none_ flags free taken alloc ran

lemma fresh_leaves :
    (∀ v, leafAt t2.mem root v = if v = u then some (mapPte x perm) else leafAt s.mem root v) ∧
      ∀ y, ¬ Tables id ((g.give x .temp).owner y) → t2.mem y = if y = x then page else s.mem y := by
  have stored := HasTable.store (x := x) taken page (by simp)
  have managed := h.sound.managed_of (x := x) (by simp [free])
  obtain ⟨leaves, pages⟩ := mappages_content stored low unmapped none_ managed.pageAddr flags ran
  obtain ⟨sp, hsp, whole, hroot, -⟩ := h.space
  have outside : ∀ y, InTree s.mem root y → (t1.store x page).mem y = s.mem y := by
    intro y inside
    obtain ⟨l, v, table⟩ := (inTree_space h.sound hsp whole hroot).mp inside
    have ne : y ≠ x := by
      rintro rfl
      rw [table] at free
      cases free
    exact (update_of_ne ne _ _).trans (kalloc_other alloc ne)
  refine ⟨fun v => ?_, fun y out => ?_⟩
  · rw [leaves v, leafAt_congr outside]
  · rw [pages y out]
    split_ifs with same
    · rw [same]
      exact update_self ..
    · exact (update_of_ne same _ _).trans (kalloc_other alloc same)

lemma fresh_earlier (has : S v) :
    leafAt t2.mem root v = leafAt s.mem root v ∧
      ∀ pte, leafAt s.mem root v = some pte → t2.mem (pte2pa pte) = s.mem (pte2pa pte) := by
  obtain ⟨leaves, pages⟩ := fresh_leaves h low unmapped none_ flags free taken alloc ran
  obtain ⟨sp, hsp, whole, hroot, cov⟩ := h.space
  have laid := h.sound.laid id sp hsp
  obtain ⟨leaf, hl, owned, -⟩ := cov.own v has
  obtain ⟨addr, ok⟩ := laid.leafOk v leaf hl
  have apart : leaf.pa ≠ x := by
    rintro rfl
    rw [owned] at free
    cases free
  constructor
  · rw [leaves v, if_neg]
    rintro rfl
    exact unmapped has
  · intro pte there
    rw [leafAt_space laid whole hroot, hl] at there
    obtain rfl : leafPte leaf = pte := Option.some.inj there
    rw [pte2pa_leafPte addr ok, pages leaf.pa, if_neg apart]
    rw [give_other apart, owned]
    simp [Tables]

end

structure Source (m : Nat → Bytes pgsize) (old sz : Nat) (g : Ghost n) : Prop where
  tables : ∀ y, InTree m old y → g.owner y = .frozen (m y)
  pages : ∀ u, Below sz u → ∃ leaf, leafAt m old u = some (leafPte leaf) ∧ PageAddr leaf.pa ∧
    LeafFlags leaf.flags ∧ g.owner leaf.pa = .frozen (m leaf.pa)

lemma Source.mono (h : Source m old sz g)
    (frozen : ∀ y page, g.owner y = .frozen page → g'.owner y = .frozen page) : Source m old sz g' where
  tables y inside := frozen y _ (h.tables y inside)
  pages u below := by
    obtain ⟨leaf, here, addr, flags, own⟩ := h.pages u below
    exact ⟨leaf, here, addr, flags, frozen _ _ own⟩

def CopiedPage (m : Nat → Bytes pgsize) (old : Nat) (mem : Nat → Bytes pgsize) (root u : Nat) : Prop :=
  ∃ pte pte', leafAt m old u = some pte ∧ leafAt mem root u = some pte' ∧ pteFlags pte' = pteFlags pte ∧
    mem (pte2pa pte') = m (pte2pa pte)

lemma copy_round (res : Reserved F) (more : Below sz k)
    (known : Source m old sz g ∧ ∀ u < k, CopiedPage m old s.mem root u)
    (h : HasTable B g s id root P (Below (k * pgsize)) F) :
    Round B (fun k g s => Source m old sz g ∧ ∀ u < k, CopiedPage m old s.mem root u) id old root P F k g s := by
  obtain ⟨source, copied⟩ := known
  have count := HasTable.count_le h
  have high : maxPages < maxVa / pgsize := by decide
  have low : k * pgsize < maxVa := by
    have room : maxVa / pgsize * pgsize = maxVa := by decide
    have := Nat.mul_lt_mul_of_pos_right (show k < maxVa / pgsize by omega) (show 0 < pgsize by decide)
    omega
  obtain ⟨leaf, here, addr, flags, own⟩ := source.pages k more
  have tables : ∀ y, InTree m old y → s.mem y = m y := fun y inside => h.sound.frozen y _ (source.tables y inside)
  have now : leafAt s.mem old k = some (leafPte leaf) := by rw [leafAt_congr tables, here]
  obtain ⟨b, hb, entry⟩ : ∃ b, tableAt s.mem old 2 (k / 512) = some b ∧
    valid (s.mem b) (k % 512) = some (leafPte leaf) := Option.bind_eq_some_iff.mp now
  refine ⟨leaf, b, flags, ?_, ?_, ?_⟩
  · rw [px_zero, page_index]
    exact (valid_inv entry).1
  · refine ⟨_, _, PageMap.walk_lookup low, rfl, ?_⟩
    rw [page_index, hb]
    rfl
  · intro r t1 t2 g' free taken alloc ran keeps sound' mine
    have managed := h.sound.managed_of (x := r) (by simp [free])
    obtain ⟨leaves, pages⟩ := fresh_leaves h (by omega) (by simp [Below]) (res.none_of count)
      (leafFlags_or_pteV flags) free taken alloc ran
    have frozen : ∀ y page, g.owner y = .frozen page → g'.owner y = .frozen page := fun y page eq =>
      (keeps.owner y _ (by simp [Family])).mpr eq
    refine ⟨source.mono frozen, fun u hu => ?_⟩
    rcases Nat.lt_succ_iff_lt_or_eq.mp hu with earlier | rfl
    · -- an earlier page stays as it is
      obtain ⟨pte, pte', source', there, same, data⟩ := copied u earlier
      obtain ⟨leaf', page'⟩ := fresh_earlier h (by omega) (by simp [Below]) (res.none_of count)
        (leafFlags_or_pteV flags) free taken alloc ran (by rw [below_mul]; exact earlier)
      exact ⟨pte, pte', source', leaf'.trans there, same, (page' pte' there).trans data⟩
    · refine ⟨leafPte leaf, mapPte r (leaf.flags ||| pteV), here, ?_, ?_, ?_⟩
      · rw [leaves, if_pos rfl]
      · rw [pteFlags_mapPte (or_pteV_lt flags.1), pteFlags_leafPte flags, Nat.or_assoc, Nat.or_self]
      · have apart : leaf.pa ≠ r := by
          intro same
          rw [same, free] at own
          cases own
        rw [pte2pa_mapPte managed.pageAddr.1 (or_pteV_lt flags.1), pages r (by simp [Tables]), if_pos rfl,
          pte2pa_leafPte addr flags, kalloc_other alloc apart]
        exact h.sound.frozen _ _ own

noncomputable def still (s : Kernel n) (g : Ghost n) : Ghost n := freeze (Within none) none s.mem g

variable {args : List Nat} {np : Fin n}

lemma still_frozen (h : Sound B g s) (spare : NoTable g none) (used : g.owner x ≠ .free)
    (inside : g.owner x ≠ .outside) : (still s g).owner x = .frozen (s.mem x) := by
  refine if_neg ?_
  rintro (family | out)
  · exact used (free_of_family h spare family)
  · exact inside out

lemma still_vacant (h : Settled B g p) (unused : (g.rest.proc p).state = .unused) : Settled B (still s g) p := by
  obtain ⟨tf, pt, sz, -, -⟩ := h.vacant unused
  have none_ : ∀ y o, (o = .trapframe p ∨ ∃ u, o = .user (some p) u) → (still s g).owner y ≠ o := by
    rintro y o (rfl | ⟨u, rfl⟩) own
    · have kept := ((freeze_iff (by simp)).mp own).1
      simp [Within, Family] at kept
    · have kept := ((freeze_iff (by simp)).mp own).1
      simp [Within, Family] at kept
  have gone : (still s g).space (some p) = none := by simp [still, freeze]
  refine ⟨⟨fun y => ?_, .inl ⟨pt, sz, gone, fun y u => none_ y _ (.inr ⟨u, rfl⟩)⟩⟩,
    fun _ => ⟨tf, pt⟩, fun used => absurd unused used⟩
  refine ⟨fun own => absurd own (none_ y _ (.inl rfl)), fun both => absurd (both.1.trans tf) both.2⟩

section
variable (h : Sound B g s) (inv : Inv B g args) (live : (g.rest.proc p).state ≠ .unused)
include h inv live

lemma still_source : Source s.mem (g.rest.proc p).pagetable (g.rest.proc p).sz (still s g) := by
  obtain ⟨-, -, sp, hsp, whole, hroot, cov⟩ := (inv.settled p).live live
  have laid := h.laid (some p) sp hsp
  refine ⟨fun y inside => ?_, fun u below => ?_⟩
  · obtain ⟨l, v, own⟩ := (inTree_space h hsp whole hroot).mp inside
    exact still_frozen h inv.spare (by simp [own]) (by simp [own])
  · obtain ⟨leaf, hl, own, -⟩ := cov.own u below
    obtain ⟨addr, flags⟩ := laid.leafOk u leaf hl
    refine ⟨leaf, ?_, addr, flags, still_frozen h inv.spare (by simp [own]) (by simp [own])⟩
    rw [leafAt_space laid whole hroot, hl]
    rfl

lemma fork_still : Returns (fork B p) s fun r t => ∃ g', Sound B g' t ∧ (r = none → Idle B (still s g) g') ∧
    ∀ np, r = some np → (g.rest.proc np).state = .unused ∧ Confined B np (still s g) g' ∧
      (g'.rest.proc np).state ≠ .unused ∧ (g'.rest.proc np).sz = (g.rest.proc p).sz ∧
      ∃ t2 : Kernel n, (∀ u, Below (g.rest.proc p).sz u → CopiedPage s.mem (g.rest.proc p).pagetable t2.mem
        (g'.rest.proc np).pagetable u) ∧
        t2.mem (g.rest.proc p).trapframe = s.mem (g.rest.proc p).trapframe ∧
        t.mem = update t2.mem (g'.rest.proc np).trapframe
          (childTrapframe (t2.mem (g'.rest.proc np).trapframe) (t2.mem (g.rest.proc p).trapframe)) := by
  have sound0 : Sound B (still s g) s := freeze_sound h (within_keepable none)
  have spare0 : NoTable (still s g) none := freeze_noTable inv.spare
  have frozen : ∀ {np : Fin n} {g1}, PageProc.Frame np (still s g) g1 → ∀ y page,
    (still s g).owner y = .frozen page → g1.owner y = .frozen page := fun frame y page own =>
    (frame.owner y _ (by simp [Aside])).mpr own
  refine (fork_confined (Q := fun _ root _ t => ∀ u < pages (g.rest.proc p).sz,
    CopiedPage s.mem (g.rest.proc p).pagetable t.mem root u) sound0 spare0
    (fun q unused => still_vacant (inv.settled q) unused) live ?_).mono ?_
  · intro np g1 t1 root tf ne frame table
    have source := (still_source h inv live).mono (frozen frame)
    refine (uvmcopy_rounds (frames_res _ _) (fun _ => trivial)
      (fun k g s more known h => copy_round (frames_res _ _) more known h)
      ⟨source, fun u none_ => absurd none_ (Nat.not_lt_zero u)⟩ table).mono ?_
    rintro r t ⟨g', keeps, got⟩
    refine ⟨g', keeps, got.imp_right ?_⟩
    rintro ⟨yes, full, _, copied⟩
    exact ⟨yes, full, copied⟩
  · rintro r t ⟨g', sound, failed, made⟩
    refine ⟨g', sound, failed, fun np done => ?_⟩
    obtain ⟨unused, confined, used, size, g2, t2, sound2, frame2, copied, -, mem⟩ := made np done
    obtain ⟨tf, own, -⟩ := (inv.settled p).live live
    refine ⟨unused, confined, used, size, t2, fun u below => copied u ((below_iff _ u).mp below), ?_, mem⟩
    exact sound2.frozen _ _ (frozen frame2 _ _ (still_frozen h inv.spare (by simp [own]) (by simp [own])))

end

def register (page : Bytes pgsize) (off : Nat) : Nat := field page off 8

lemma register_child (junk page : Bytes pgsize) (aligned : off % 8 = 0) (low : off < tfSize) :
    register (childTrapframe junk page) off = if off = tfA0 then 0 else register page off := by
  unfold register childTrapframe tfSize tfA0 at *
  split_ifs with here
  · rw [here, field_setField_same _ _ _ _ (by decide)]
    rfl
  · rw [field_set_other (by omega)]
    refine field_congr _ _ _ _ fun i lo hi => ?_
    have inside : i < (peekBytes page 0 288).length := by
      simp only [peekBytes, List.length_map, List.length_range]
      omega
    have small : (288 : Nat) < pgsize := by decide
    rw [poke_inside _ _ _ (by omega) (Nat.zero_le i) (by omega), Nat.sub_zero,
      List.getD_eq_getElem _ _ inside]
    simp [peekBytes]

lemma below_of_lt (size : sz ≤ physTop) (low : va < pgRoundUp sz) : Below sz (va / pgsize) := by
  rw [pgRoundUp_eq size] at low
  rw [below_iff]
  exact (Nat.div_lt_iff_lt_mul (by decide)).mpr low

lemma mapped_owner (h : HasTable B g s id root P (Below sz) F) (low : va < pgRoundUp sz)
    (eq : lookup B s root va = some pte) : g.owner (pte2pa pte) = .user id (va / pgsize) := by
  have below := below_of_lt (HasTable.size_le h) low
  obtain ⟨sound, sp, hsp, whole, hroot, cov⟩ := h
  rw [lookup_space sound hsp whole hroot (lookup_lt eq)] at eq
  obtain ⟨leaf, hl, rfl⟩ := Option.map_eq_some_iff.mp eq
  obtain ⟨addr, flags⟩ := (sound.laid id sp hsp).leafOk _ leaf hl
  obtain ⟨leaf', hl', own, -⟩ := cov.own _ below
  rw [hl] at hl'
  cases hl'
  rw [pte2pa_leafPte addr flags]
  exact own

structure Refused (B : Board) (p : Fin n) (s t : Kernel n) : Prop where
  parent : t.proc p = s.proc p
  slots : ∀ q, (t.proc q).state = .unused ↔ (s.proc q).state = .unused
  kept : Kept B s t
  view : ∀ va, lookup B t (s.proc p).pagetable va = lookup B s (s.proc p).pagetable va ∧
    userByte B t (s.proc p).pagetable va = userByte B s (s.proc p).pagetable va

def UserPage (B : Board) (s : Kernel n) (root x : Nat) : Prop :=
  ∃ va pte, userPte B s root va = some pte ∧ pte2pa pte = x

def Invisible (B : Board) (s : Kernel n) (root other : Nat) : Prop :=
  ∀ t : Kernel n, (∀ x, ¬ UserPage B s root x → t.mem x = s.mem x) → ∀ va,
    lookup B t other va = lookup B s other va ∧ userByte B t other va = userByte B s other va

structure Child (B : Board) (p np : Fin n) (s t : Kernel n) : Prop where
  fresh : (s.proc np).state = .unused ∧ (t.proc np).state ≠ .unused
  others : ∀ q, q ≠ np → t.proc q = s.proc q
  kept : Kept B s t
  size : (t.proc np).sz = (s.proc p).sz
  pages : ∀ va, va < pgRoundUp (s.proc p).sz → ∃ pte pte',
    lookup B s (s.proc p).pagetable va = some pte ∧
    lookup B t (t.proc np).pagetable va = some pte' ∧ pteFlags pte' = pteFlags pte ∧
    t.mem (pte2pa pte') = s.mem (pte2pa pte)
  apart : ∀ va va' pte pte', va < pgRoundUp (s.proc p).sz → va' < pgRoundUp (s.proc p).sz →
    lookup B t (t.proc p).pagetable va = some pte →
    lookup B t (t.proc np).pagetable va' = some pte' → pte2pa pte ≠ pte2pa pte'
  registers : ∀ off, off % 8 = 0 → off < tfSize → register (t.mem (t.proc np).trapframe) off =
    if off = tfA0 then 0 else register (s.mem (s.proc p).trapframe) off
  hidden : Invisible B t (t.proc np).pagetable (t.proc p).pagetable ∧
    Invisible B t (t.proc p).pagetable (t.proc np).pagetable

def forkAll (B : Board) (p : Fin n) : StateT (Kernel n × FsCalls.State n) (Except String) (Option (Fin n)) :=
  fun (s, files) => do
    let (r, t) ← fork B p s
    match r with
    | none => return (none, t, files)
    | some np =>
      let (_, files) ← FsCalls.fork p np files
      return (some np, t, files)

lemma kept_of_still (h : Sound B g s) (spare : NoTable g none) (h' : Sound B g' t)
    (frozen : ∀ y page, (still s g).owner y = .frozen page → g'.owner y = .frozen page) : Kept B s t := by
  intro x managed used
  refine h'.frozen x _ (frozen x _ (still_frozen h spare ?_ ((h.managed x).mpr managed)))
  rwa [Ne, ← free_iff h]

lemma frame_frozen (frame : PageProc.Frame np g g') (y) (page : Bytes pgsize)
    (own : g.owner y = .frozen page) : g'.owner y = .frozen page :=
  (frame.owner y _ (by simp [Aside])).mpr own

section
variable (h : Sound B g s) (inv : Inv B g args) (live : (g.rest.proc p).state ≠ .unused)
  (h' : Sound B g' t)
include h inv live h'

lemma idle_refused (idle : Idle B (still s g) g') : Refused B p s t := by
  have proc := sound_proc h
  have proc' := sound_proc h'
  have kept : Kept B s t := by
    refine kept_of_still h inv.spare h' ?_
    rcases idle with rfl | ⟨np, -, confined, -⟩
    · exact fun _ _ same => same
    · exact frame_frozen confined.frame
  refine ⟨?_, fun q => ?_, kept, fun va => kept.view h inv live va⟩
  · rw [proc, proc']
    rcases idle with rfl | ⟨np, before, confined, -⟩
    · rfl
    · refine confined.frame.proc p ?_
      rintro rfl
      exact live before
  · rw [proc, proc']
    rcases idle with rfl | ⟨np, before, confined, after⟩
    · rfl
    · rcases eq_or_ne q np with rfl | ne
      · exact iff_of_true after before
      · rw [confined.frame.proc q ne]
        rfl

lemma fork_child (unused : (g.rest.proc np).state = .unused)
    (confined : Confined B np (still s g) g') (used : (g'.rest.proc np).state ≠ .unused)
    (size : (g'.rest.proc np).sz = (g.rest.proc p).sz) {t2 : Kernel n}
    (copied : ∀ u, Below (g.rest.proc p).sz u → CopiedPage s.mem (g.rest.proc p).pagetable t2.mem
      (g'.rest.proc np).pagetable u)
    (saved : t2.mem (g.rest.proc p).trapframe = s.mem (g.rest.proc p).trapframe)
    (mem : t.mem = update t2.mem (g'.rest.proc np).trapframe
      (childTrapframe (t2.mem (g'.rest.proc np).trapframe) (t2.mem (g.rest.proc p).trapframe))) :
    Child B p np s t := by
  have proc := sound_proc h
  have proc' := sound_proc h'
  have ne : p ≠ np := by
    rintro rfl
    exact live unused
  have same : g'.rest.proc p = g.rest.proc p := confined.frame.proc p ne
  have kept := kept_of_still h inv.spare h' (frame_frozen confined.frame)
  obtain ⟨tf, own, table⟩ := (inv.settled p).live live
  obtain ⟨tf', own', table'⟩ := confined.settled.live used
  have parent : HasTable B g s (some p) _ _ _ _ := ⟨h, table⟩
  have child : HasTable B g' t (some np) _ _ _ _ := ⟨h', table'⟩
  -- the pages of the parent are frozen
  have frozen : ∀ y, (∃ l v, g.owner y = .table (some p) l v) ∨ (∃ v, g.owner y = .user (some p) v) →
    g'.owner y = .frozen (s.mem y) := by
    intro y own
    refine frame_frozen confined.frame y _ (still_frozen h inv.spare ?_ ?_)
    · rcases own with ⟨l, v, own⟩ | ⟨v, own⟩ <;> simp [own]
    · rcases own with ⟨l, v, own⟩ | ⟨v, own⟩ <;> simp [own]
  have before : ∀ y, y ≠ (g'.rest.proc np).trapframe → t2.mem y = t.mem y := fun y other => by
    rw [mem, update_of_ne other]
  have view := kept.view h inv live
  rw [proc] at view
  refine ⟨?_, fun q other => ?_, kept, ?_, fun va low => ?_, fun va va' pte pte' low low' here there => ?_,
    fun off aligned low => ?_, fun t' writes va => ?_, fun t' writes va => ?_⟩
  · rw [proc, proc']
    exact ⟨unused, used⟩
  · rw [proc, proc']
    exact confined.frame.proc q other
  · rw [proc, proc', size]
  · rw [proc] at low ⊢
    rw [proc']
    have small := HasTable.size_le parent
    have below := below_of_lt small low
    have top : va < maxVa := by
      have room : physTop + pgsize ≤ maxVa := by decide
      have page : va < va / pgsize * pgsize + pgsize := Nat.lt_div_mul_add (by decide)
      unfold Below at below
      omega
    obtain ⟨pte, pte', source, there, flags, data⟩ := copied _ below
    obtain ⟨sp, hsp, whole, hroot, cov⟩ := table'
    have tables : ∀ y, InTree t.mem (g'.rest.proc np).pagetable y → t2.mem y = t.mem y := by
      intro y inside
      obtain ⟨l, v, mine⟩ := (inTree_space h' hsp whole hroot).mp inside
      refine before y ?_
      rintro rfl
      rw [own'] at mine
      cases mine
    rw [leafAt_congr tables] at there
    have entry : lookup B t (g'.rest.proc np).pagetable va = some pte' := by rw [PageMap.lookup_eq top, there]
    refine ⟨pte, pte', by rw [PageMap.lookup_eq top, source], entry, flags, ?_⟩
    have mine := mapped_owner child (by rw [size]; exact low) entry
    rw [← before _ _, data]
    intro clash
    rw [clash, own'] at mine
    cases mine
  · rw [proc] at low low'
    rw [proc', same, (view va).1] at here
    rw [proc'] at there
    have mine := mapped_owner child (by rw [size]; exact low') there
    have other := frozen _ (.inr ⟨_, mapped_owner parent low here⟩)
    intro clash
    rw [clash, mine] at other
    cases other
  · rw [proc, proc', mem, update_self, register_child _ _ aligned low, saved]
  · rw [proc'] at writes ⊢
    rw [same]
    have now := view_congr parent (frames_res B _) (t := t') (fun y own => ?_) va
    · rw [now.1, now.2, (view va).1, (view va).2]
      exact ⟨rfl, rfl⟩
    · have other := frozen y own
      rw [writes y, h'.frozen y _ other]
      rintro ⟨va', pte, user, rfl⟩
      rw [user_owner child (frames_res B _) user] at other
      cases other
  · rw [proc'] at writes ⊢
    rw [same] at writes
    refine view_congr child (frames_res B _) (fun y own => writes y ?_) va
    rintro ⟨va', pte, user, rfl⟩
    rw [userPte, (view va').1] at user
    have other := frozen _ (.inr ⟨_, user_owner parent (frames_res B _) user⟩)
    rcases own with ⟨l, v, own⟩ | ⟨v, own⟩
    · rw [own] at other
      cases other
    · rw [own] at other
      cases other

end

/-- `fork` either fails and leaves everything as it was, files included, or the child has a copy of
the address space in pages of its own. -/
theorem fork_copies_space (ok : Consistent B s) (live : (s.proc p).state ≠ .unused) :
    ∃ r t, fork B p s = .ok (r, t) ∧ (r = none → Refused B p s t ∧
      ∀ files : FsCalls.State n, forkAll B p (s, files) = .ok (none, t, files)) ∧
      ∀ np, r = some np → Child B p np s t := by
  obtain ⟨g, args, h, inv⟩ := ok
  rw [sound_proc h] at live
  obtain ⟨r, t, ran, g', h', failed, made⟩ := fork_still h inv live
  refine ⟨r, t, ran, fun none_ => ⟨idle_refused h inv live h' (failed none_), fun files => ?_⟩, ?_⟩
  · subst none_
    unfold forkAll
    dsimp only
    rw [ran]
    rfl
  · intro np some_
    obtain ⟨unused, confined, used, size, t₂, copied, saved, mem⟩ := made np some_
    exact fork_child h inv live h' unused confined used size copied saved mem

theorem fork_copies_space_boot : ∃ s t : Kernel 2, Reachable smallBoard 0 s ∧ (s.proc 0).state ≠ .unused ∧
    fork smallBoard 0 s = .ok (some 1, t) ∧ Child smallBoard 0 1 s t := by
  obtain ⟨s, t, booted, live, forked, -⟩ := small_boots
  have reach : Reachable smallBoard 0 s := ⟨s, [], booted, .nil s⟩
  have used : (s.proc 0).state ≠ .unused := by simp [live]
  obtain ⟨r, t', ran, -, copied⟩ := fork_copies_space (reachable_consistent reach) used
  rw [forked] at ran
  cases ran
  exact ⟨s, t, reach, used, forked, copied 1 rfl⟩

end Xv6.ForkCopy
