import Xv6.PageCopy

/-! Page tables and trapframes of processes. `Settled` says what a slot of the
process table owns between two calls, `Others` that all slots but one are
settled; the calls of `kernel/proc.c` are followed from one settled state to the
next. -/

namespace Xv6.PageProc

open ByteFields VmMachine VmProc PageTable PageOwner PageWalk PageFree PageUvm PageCopy Total Function

variable {n : Nat} {B : Board} {g g' : Ghost n} {x : Nat} {id : TableId n}
  {p q : Fin n}

variable {root tf sz : Nat}

def trampolinePage : Nat := trampolineVa / pgsize

def trampolineLeaf (B : Board) : Nat → Option Leaf :=
  Function.update (fun _ => none) trampolinePage (some ⟨B.trampoline, pteR ||| pteX⟩)

def frames (B : Board) (tf : Nat) : Nat → Option Leaf :=
  Function.update (trampolineLeaf B) trapframePage (some ⟨tf, pteR ||| pteW⟩)

lemma frames_res (B : Board) (tf) : Reserved (frames B tf) := by
  have order : trapframePage ≤ trampolinePage := by decide
  have data : (pteR ||| pteW) &&& pteU = 0 := by decide
  have code : (pteR ||| pteX) &&& pteU = 0 := by decide
  intro u leaf hl
  unfold frames trampolineLeaf at hl
  by_cases frame : u = trapframePage
  · rw [frame, update_self] at hl
    rw [← Option.some.inj hl, frame]
    exact ⟨le_rfl, data⟩
  · rw [update_of_ne frame] at hl
    by_cases tramp : u = trampolinePage
    · rw [tramp, update_self] at hl
      rw [← Option.some.inj hl, tramp]
      exact ⟨order, code⟩
    · rw [update_of_ne tramp] at hl
      simp at hl

lemma trampoline_addr (B : Board) : PageAddr B.trampoline := by
  have top := B.trampoline_lt.trans B.end_le
  refine ⟨B.trampoline_aligned, ?_⟩
  unfold pgsize at top
  omega

lemma trampolineVa_eq : trampolineVa = trampolinePage * pgsize := by decide

lemma trapframeVa_eq : trapframeVa = trapframePage * pgsize := by decide

lemma not_below (h : sz ≤ physTop) (high : trapframePage ≤ u) : ¬ Below sz u := by
  have apart : physTop ≤ trapframePage * pgsize := by decide
  have scaled := Nat.mul_le_mul_right pgsize high
  unfold Below
  omega

lemma update_none (u) : update (fun _ => none : Nat → Option Leaf) u none = fun _ => none := update_eq_self u _

lemma procPagetable_returns (h : Sound B g s) (absent : NoTable g id) (addr : PageAddr (s.proc p).trapframe) :
    Returns (procPagetable B p) s fun r t => ∃ g', Keeps id g g' ∧ (r = 0 ∧ Sound B g' t ∧ NoTable g' id ∨ r ≠ 0 ∧
        HasTable B g' t id r P (Below 0) (frames B (s.proc p).trapframe)) := by
  rw [below_zero]
  refine (uvmcreate_returns (P := P) h absent).bind ?_
  rintro r t (⟨rfl, same⟩ | ⟨pos, g1, table, keeps⟩)
  · exact returns_pure ⟨g, .refl id g, .inl ⟨rfl, same, absent⟩⟩
  · rw [if_neg pos, trampolineVa_eq]
    -- a failed mapping leaves a table without leaves to free
    have undo : ∀ {g2 t2}, HasTable B g2 t2 id r P (fun _ => False) (fun _ => none) →
      Keeps id g g2 → Returns (uvmfree B r 0 >>= fun _ => (pure 0 : K n Nat)) t2 fun r t =>
        ∃ g', Keeps id g g' ∧ (r = 0 ∧ Sound B g' t ∧ NoTable g' id ∨ r ≠ 0 ∧
          HasTable B g' t id r P (fun _ => False) (frames B (s.proc p).trapframe)) := by
      intro g2 t2 bare keeps2
      rw [← below_zero] at bare
      refine (uvmfree_returns bare).bind ?_
      rintro - t' ⟨g', sound, gone, keeps'⟩
      exact returns_pure ⟨g', keeps2.trans keeps', .inl ⟨rfl, sound, gone⟩⟩
    refine (mappages_fixed_returns table (by decide) not_false rfl (trampoline_addr B) ⟨by decide, by decide⟩).bind ?_
    rintro mapped t1 ⟨g2, keeps2, ⟨rfl, bare⟩ | ⟨rfl, first⟩⟩
    · rw [if_neg (by simp)]
      exact undo bare (keeps.trans keeps2)
    · rw [if_pos rfl]
      refine returns_get_bind ?_
      have upTo := keeps.trans keeps2
      have proc : t1.proc = s.proc := proc_eq h first.sound upTo.rest
      rw [proc, trapframeVa_eq]
      have free : trampolineLeaf B trapframePage = none := by
        unfold trampolineLeaf
        rw [update_of_ne (by decide)]
      refine (mappages_fixed_returns first (by decide) not_false free addr ⟨by decide, by decide⟩).bind ?_
      rintro mapped t2 ⟨g3, keeps3, ⟨rfl, only⟩ | ⟨rfl, both⟩⟩
      · rw [if_neg (by simp)]
        refine (unmap_fixed_returns only (by decide) not_false (update_self ..)).bind ?_
        rintro - t3 ⟨g4, bare, keeps4⟩
        rw [update_idem, update_none] at bare
        exact undo bare ((upTo.trans keeps3).trans keeps4)
      · rw [if_pos rfl]
        exact returns_pure ⟨g3, upTo.trans keeps3, .inr ⟨pos, both⟩⟩

lemma procFree_returns (h : HasTable B g s id root P (Below sz) (frames B tf)) :
    Returns (procFreepagetable B root sz) s fun _ t => ∃ g', Sound B g' t ∧ NoTable g' id ∧ Keeps id g g' := by
  have small := HasTable.size_le h
  unfold procFreepagetable
  rw [trampolineVa_eq, trapframeVa_eq]
  have tramp : frames B tf trampolinePage = some ⟨B.trampoline, pteR ||| pteX⟩ := by
    unfold frames trampolineLeaf
    rw [update_of_ne (by decide), update_self]
  refine (unmap_fixed_returns h (by decide) (not_below small (by decide)) tramp).bind ?_
  rintro - t1 ⟨g1, first, keeps1⟩
  have frame : update (frames B tf) trampolinePage none trapframePage = some ⟨tf, pteR ||| pteW⟩ := by
    unfold frames
    rw [update_of_ne (by decide), update_self]
  refine (unmap_fixed_returns first (by decide) (not_below small le_rfl) frame).bind ?_
  rintro - t2 ⟨g2, second, keeps2⟩
  have bare : update (update (frames B tf) trampolinePage none) trapframePage none = fun _ => none := by
    unfold frames trampolineLeaf
    rw [update_comm (by decide), update_idem, update_comm (by decide), update_idem, update_none, update_none]
  rw [bare] at second
  refine (uvmfree_returns second).mono ?_
  rintro - t3 ⟨g3, sound, gone, keeps3⟩
  exact ⟨g3, sound, gone, (keeps1.trans keeps2).trans keeps3⟩

section

/-- What slot `p` owns, if its trapframe, root and size are `tf`, `pt` and `sz`. -/
structure Slot (B : Board) (g : Ghost n) (p : Fin n) (tf pt sz : Nat) : Prop where
  frame : ∀ x, g.owner x = .trapframe p ↔ x = tf ∧ x ≠ 0
  table : pt = 0 ∧ sz = 0 ∧ NoTable g (some p) ∨ pt ≠ 0 ∧ tf ≠ 0 ∧
    Table g (some p) pt (fun _ => True) (Below sz) (frames B tf)

structure Settled (B : Board) (g : Ghost n) (p : Fin n) : Prop where
  slot : Slot B g p (g.rest.proc p).trapframe (g.rest.proc p).pagetable (g.rest.proc p).sz
  unused : (g.rest.proc p).state = .unused →
    (g.rest.proc p).trapframe = 0 ∧ (g.rest.proc p).pagetable = 0
  used : (g.rest.proc p).state ≠ .unused → (g.rest.proc p).pagetable ≠ 0

structure Counts (g : Ghost n) (o : Owner n) (l : List Nat) : Prop where
  mem : ∀ x, g.owner x = o ↔ x ∈ l
  nodup : l.Nodup

/-- The pages that belong to no process. `args` are those of the arguments that
a call of `exec` has fetched. -/
structure Books (g : Ghost n) (args : List Nat) : Prop where
  held : Counts g .kernel g.rest.held
  pipes : Counts g .pipe g.rest.pipes
  fetched : Counts g .arg args
  temp : Counts g .temp []
  thawed : ∀ page, Counts g (.frozen page) []

structure Others (B : Board) (g : Ghost n) (p : Fin n) (args : List Nat) : Prop where
  books : Books g args
  settled : ∀ q, q ≠ p → Settled B g q

structure Inv (B : Board) (g : Ghost n) (args : List Nat) : Prop where
  books : Books g args
  settled : ∀ q, Settled B g q
  spare : NoTable g none

lemma Inv.others (h : Inv B g args) (p) : Others B g p args := ⟨h.books, fun q _ => h.settled q⟩

lemma Others.inv (h : Others B g p args) (settled : Settled B g p) (spare : NoTable g none) : Inv B g args := by
  refine ⟨h.books, fun q => ?_, spare⟩
  rcases eq_or_ne q p with rfl | ne
  · exact settled
  · exact h.settled q ne

def Aside (p : Fin n) : Owner n → Prop
  | .free => True
  | .trapframe q => q = p
  | .table id _ _ | .user id _ => id = none ∨ id = some p
  | _ => False

/-- Nothing changes but what belongs to `p` and to the page table at hand. -/
structure Frame (p : Fin n) (g g' : Ghost n) : Prop where
  proc : ∀ q, q ≠ p → g'.rest.proc q = g.rest.proc q
  held : g'.rest.held = g.rest.held
  pipes : g'.rest.pipes = g.rest.pipes
  space : ∀ q, q ≠ p → g'.space (some q) = g.space (some q)
  owner : ∀ x o, ¬ Aside p o → (g'.owner x = o ↔ g.owner x = o)

lemma Frame.trans (h : Frame p g g') (h' : Frame p g' g'') : Frame p g g'' where
  proc q ne := (h'.proc q ne).trans (h.proc q ne)
  held := h'.held.trans h.held
  pipes := h'.pipes.trans h.pipes
  space q ne := (h'.space q ne).trans (h.space q ne)
  owner x o other := (h'.owner x o other).trans (h.owner x o other)

lemma frame_of_keeps (h : Keeps id g g') (mine : id = none ∨ id = some p) : Frame p g g' where
  proc _ _ := by rw [h.rest]
  held := by rw [h.rest]
  pipes := by rw [h.rest]
  space q ne := by
    refine h.space (some q) ?_
    rcases mine with rfl | rfl <;> simp [ne]
  owner x o other := by
    refine h.owner x o fun family => other ?_
    cases o <;> simp only [Family, Aside] at family ⊢ <;> rw [family] <;> exact mine

lemma frame_give (before : Aside p (g.owner x)) (after : Aside p o) : Frame p g (g.give x o) where
  proc _ _ := rfl
  held := rfl
  pipes := rfl
  space _ _ := rfl
  owner y o' other := by
    rcases eq_or_ne y x with rfl | ne
    · rw [give_same]
      refine ⟨fun eq => ?_, fun eq => ?_⟩
      · rw [eq] at after
        exact absurd after other
      · rw [eq] at before
        exact absurd before other
    · rw [give_other ne]

lemma Slot.congr (h : Slot B g q tf pt sz) (frame : ∀ x, g'.owner x = .trapframe q ↔ g.owner x = .trapframe q)
    (space : g'.space (some q) = g.space (some q))
    (user : ∀ x u, g'.owner x = .user (some q) u ↔ g.owner x = .user (some q) u) :
    Slot B g' q tf pt sz := by
  refine ⟨fun x => (frame x).trans (h.frame x),
    h.table.imp (fun ⟨none_, size, absent⟩ => ⟨none_, size, space.trans absent.1, fun x u => ?_⟩)
      (fun ⟨pos, frame, sp, hsp, whole, hroot, cov⟩ => ⟨pos, frame, sp, space.trans hsp, whole,
        hroot, cov.congr_owner user⟩)⟩
  rw [Ne, user]
  exact absent.2 x u

lemma Settled.same_fields (h : Settled B g q) (slot : ∀ {tf pt sz}, Slot B g q tf pt sz → Slot B g' q tf pt sz)
    (tf : (g'.rest.proc q).trapframe = (g.rest.proc q).trapframe)
    (pt : (g'.rest.proc q).pagetable = (g.rest.proc q).pagetable)
    (sz : (g'.rest.proc q).sz = (g.rest.proc q).sz)
    (state : (g'.rest.proc q).state = .unused ↔ (g.rest.proc q).state = .unused) :
    Settled B g' q := by
  refine ⟨?_, fun idle => ?_, fun used => ?_⟩
  · rw [tf, pt, sz]
    exact slot h.slot
  · rw [tf, pt]
    exact h.unused (state.mp idle)
  · rw [pt]
    exact h.used fun idle => used (state.mpr idle)

lemma Settled.congr (h : Settled B g q) (proc : g'.rest.proc q = g.rest.proc q)
    (slot : ∀ {tf pt sz}, Slot B g q tf pt sz → Slot B g' q tf pt sz) :
    Settled B g' q :=
  h.same_fields slot (by rw [proc]) (by rw [proc]) (by rw [proc]) (by rw [proc])

def Common : Owner n → Prop
  | .kernel | .pipe | .arg | .temp | .frozen _ => True
  | _ => False

lemma Counts.congr (h : Counts g o l) (owner : ∀ x, g'.owner x = o ↔ g.owner x = o) : Counts g' o l :=
  ⟨fun x => (owner x).trans (h.mem x), h.nodup⟩

lemma Books.congr (h : Books g args) (held : g'.rest.held = g.rest.held) (pipes : g'.rest.pipes = g.rest.pipes)
    (owner : ∀ x o, Common o → (g'.owner x = o ↔ g.owner x = o)) : Books g' args := by
  refine ⟨?_, ?_, h.fetched.congr fun x => owner x _ trivial, h.temp.congr fun x => owner x _ trivial,
    fun page => (h.thawed page).congr fun x => owner x _ trivial⟩
  · rw [held]
    exact h.held.congr fun x => owner x _ trivial
  · rw [pipes]
    exact h.pipes.congr fun x => owner x _ trivial

section
lemma Counts.other (h : Counts g o l) (before : g.owner x ≠ o) (after : o' ≠ o) : Counts (g.give x o') o l := by
  refine h.congr fun y => ?_
  rcases eq_or_ne y x with rfl | ne
  · simp [before, after]
  · rw [give_other ne]

lemma Counts.push (h : Counts g o l) (before : g.owner x ≠ o) : Counts (g.give x o) o (x :: l) := by
  have fresh : x ∉ l := fun mem => before ((h.mem x).mpr mem)
  refine ⟨fun y => ?_, List.nodup_cons.mpr ⟨fresh, h.nodup⟩⟩
  rcases eq_or_ne y x with rfl | ne
  · simp
  · rw [give_other ne, h.mem]
    simp [ne]

lemma Counts.pop (h : Counts g o l) (after : o' ≠ o) : Counts (g.give x o') o (l.erase x) := by
  refine ⟨fun y => ?_, h.nodup.erase x⟩
  rw [h.nodup.mem_erase_iff]
  rcases eq_or_ne y x with rfl | ne
  · simp [after]
  · rw [give_other ne, h.mem]
    simp [ne]

lemma Counts.perm (h : Counts g o l) (perm : l.Perm l') : Counts g o l' :=
  ⟨fun x => (h.mem x).trans perm.mem_iff, perm.nodup_iff.mp h.nodup⟩

end

lemma Others.frame (h : Others B g p args) (frame : Frame p g g') : Others B g' p args := by
  refine ⟨h.books.congr frame.held frame.pipes fun x o common => frame.owner x o fun aside => ?_,
    fun q ne => (h.settled q ne).congr (frame.proc q ne) fun slot => slot.congr
      (fun x => frame.owner x _ (by simp [Aside, ne])) (frame.space q ne)
      (fun x u => frame.owner x _ (by simp [Aside, ne]))⟩
  cases o <;> simp [Aside, Common] at aside common

/-- A call on the slot `p` that leaves it settled, and everything of the others as it was. -/
structure Confined (B : Board) (p : Fin n) (g g' : Ghost n) : Prop where
  frame : Frame p g g'
  settled : Settled B g' p
  spare : NoTable g' none

lemma Confined.inv (h : Confined B p g g') (inv : Inv B g args) : Inv B g' args :=
  ((inv.others p).frame h.frame).inv h.settled h.spare

def Idle (B : Board) (g g' : Ghost n) : Prop :=
  g' = g ∨ ∃ p, (g.rest.proc p).state = .unused ∧ Confined B p g g' ∧ (g'.rest.proc p).state = .unused

lemma Idle.inv (h : Idle B g g') (inv : Inv B g args) : Inv B g' args := by
  rcases h with rfl | ⟨p, -, confined, -⟩
  · exact inv
  · exact confined.inv inv

lemma NoTable.keeps (h : NoTable g none) (keeps : Keeps (some p) g g') : NoTable g' none := by
  refine ⟨(keeps.space none (by simp)).trans h.1, fun x u => ?_⟩
  rw [Ne, keeps.owner x _ (by simp [Family])]
  exact h.2 x u

lemma NoTable.give (h : NoTable g id) (after : ∀ u, o ≠ .user id u) : NoTable (g.give x o) id := by
  refine ⟨h.1, fun y u => ?_⟩
  rcases eq_or_ne y x with rfl | ne
  · simp [after]
  · rw [give_other ne]
    exact h.2 y u

end

variable {proc : VmMachine.Proc n}

structure Assigned (p : Fin n) (proc : VmMachine.Proc n) (g g' : Ghost n) : Prop where
  frame : Frame p g g'
  owner : g'.owner = g.owner
  space : g'.space = g.space
  proc : g'.rest.proc p = proc

lemma Sound.assign (h : Sound B g s) (f : VmMachine.Proc n → VmMachine.Proc n) :
    ∃ g', Sound B g' (Kernel.setProc s p (f (s.proc p))) ∧ Assigned p (f (g.rest.proc p)) g g' := by
  refine ⟨{ g with rest := { g.rest with
    proc := update g.rest.proc p (f (g.rest.proc p)) } },
    ⟨h.managed, h.free, h.laid, h.tables, ?_, h.frozen⟩,
    ⟨fun q ne => by simp [ne], rfl, rfl, fun _ _ => rfl, fun _ _ _ => Iff.rfl⟩, rfl, rfl, by simp⟩
  rw [← h.rest]
  rfl

lemma assign_returns (h : Sound B g s) (f : VmMachine.Proc n → VmMachine.Proc n) :
    Returns (assign p f) s fun _ t => ∃ g', Sound B g' t ∧ Assigned p (f (g.rest.proc p)) g g' :=
  returns_modify (Sound.assign h f)

lemma Assigned.table (h : Assigned p proc g g') (table : Table g id root P S F) : Table g' id root P S F := by
  obtain ⟨sp, hsp, whole, hroot, cov⟩ := table
  exact ⟨sp, by rw [h.space, hsp], whole, hroot, cov.congr_owner fun _ _ => by rw [h.owner]⟩

lemma Assigned.noTable (h : Assigned p proc g g') (absent : NoTable g id) : NoTable g' id :=
  ⟨by rw [h.space, absent.1], fun x u => by rw [h.owner]; exact absent.2 x u⟩

lemma Assigned.slot (h : Assigned p proc g g') (slot : Slot B g q tf pt sz) : Slot B g' q tf pt sz :=
  slot.congr (fun _ => by rw [h.owner]) (by rw [h.space]) (fun _ _ => by rw [h.owner])

lemma sound_proc (h : Sound B g s) : s.proc = g.rest.proc := congrArg Rest.proc h.rest

lemma kfree_trapframe_returns (h : Sound B g s) (slot : Slot B g p tf pt sz) (spare : NoTable g none) :
    Returns (if tf ≠ 0 then kfree B tf else pure ()) s fun _ t => ∃ g', Sound B g' t ∧
      Frame p g g' ∧ g'.rest = g.rest ∧ NoTable g' none ∧ (∀ x, g'.owner x ≠ .trapframe p) ∧
      (pt = 0 ∧ NoTable g' (some p) ∨ pt ≠ 0 ∧ Table g' (some p) pt (fun _ => True) (Below sz) (frames B tf)) := by
  split_ifs with pos
  · have own : g.owner tf = .trapframe p := (slot.frame tf).mpr ⟨rfl, pos⟩
    refine (kfree_returns h (by simp [own])).mono fun _ t sound => ?_
    refine ⟨_, sound, frame_give (by simp [own, Aside]) trivial, rfl, NoTable.give spare (by simp),
      fun x => ?_, slot.table.imp (fun bare => ⟨bare.1, NoTable.give bare.2.2 (by simp)⟩)
        (fun full => ⟨full.1, Table.give full.2.2 (by simp [own]) (by simp)⟩)⟩
    rcases eq_or_ne x tf with rfl | ne
    · simp
    · rw [give_other ne, Ne, slot.frame]
      simp [ne]
  · obtain rfl : tf = 0 := not_not.mp pos
    refine returns_pure ⟨g, h, ⟨fun _ _ => rfl, rfl, rfl, fun _ _ => rfl, fun _ _ _ => Iff.rfl⟩, rfl,
      spare, fun x own => ?_, slot.table.imp (fun bare => ⟨bare.1, bare.2.2⟩) (fun full => absurd rfl full.2.1)⟩
    have frame := (slot.frame x).mp own
    exact frame.2 frame.1

lemma kfree_pagetable_returns (h : Sound B g s) (table : pt = 0 ∧ NoTable g (some p) ∨ pt ≠ 0 ∧
      Table g (some p) pt (fun _ => True) (Below sz) (frames B tf)) :
    Returns (if pt ≠ 0 then procFreepagetable B pt sz else pure ()) s fun _ t => ∃ g',
      Sound B g' t ∧ NoTable g' (some p) ∧ Keeps (some p) g g' := by
  rcases table with ⟨rfl, absent⟩ | ⟨pos, full⟩
  · rw [if_neg (by simp)]
    exact returns_pure ⟨g, h, absent, .refl _ g⟩
  · rw [if_pos pos]
    exact procFree_returns ⟨h, full⟩

lemma freeproc_returns (h : Sound B g s) (spare : NoTable g none)
    (slot : Slot B g p (g.rest.proc p).trapframe (g.rest.proc p).pagetable (g.rest.proc p).sz) :
    Returns (freeproc B p) s fun _ t => ∃ g', Sound B g' t ∧ Confined B p g g' ∧ (g'.rest.proc p).state = .unused := by
  refine returns_get_bind ?_
  rw [sound_proc h]
  refine (kfree_trapframe_returns h slot spare).bind ?_
  rintro - t1 ⟨g1, sound1, frame1, rest1, spare1, none1, table1⟩
  refine (assign_returns sound1 _).bind ?_
  rintro - t2 ⟨g2, sound2, set2⟩
  have proc2 := set2.proc
  rw [rest1] at proc2
  refine returns_get_bind ?_
  rw [sound_proc sound2, proc2]
  refine (kfree_pagetable_returns sound2 (table1.imp (fun bare => ⟨bare.1, set2.noTable bare.2⟩)
    fun full => ⟨full.1, set2.table full.2⟩)).bind ?_
  rintro - t3 ⟨g3, sound3, absent3, keeps3⟩
  refine (assign_returns sound3 _).mono ?_
  rintro - t4 ⟨g4, sound4, set4⟩
  have frame := ((frame1.trans set2.frame).trans (frame_of_keeps keeps3 (.inr rfl))).trans set4.frame
  have proc4 := set4.proc
  rw [keeps3.rest, proc2] at proc4
  refine ⟨g4, sound4, ⟨frame, ⟨?_, fun _ => ?_, fun used => ?_⟩,
    set4.noTable (NoTable.keeps (set2.noTable spare1) keeps3)⟩, ?_⟩
  · rw [proc4]
    refine ⟨fun x => ?_, .inl ⟨rfl, rfl, set4.noTable absent3⟩⟩
    rw [set4.owner, keeps3.owner x _ (by simp [Family]), set2.owner]
    simp [none1 x]
  · rw [proc4]
    exact ⟨rfl, rfl⟩
  · rw [proc4] at used
    exact absurd rfl used
  · rw [proc4]

lemma findUnused_state (found : findUnused s = some p) : (s.proc p).state = .unused := by
  have h := List.find?_some found
  simpa using h

lemma Settled.vacant (h : Settled B g p) (unused : (g.rest.proc p).state = .unused) :
    (g.rest.proc p).trapframe = 0 ∧ (g.rest.proc p).pagetable = 0 ∧ (g.rest.proc p).sz = 0 ∧
      NoTable g (some p) ∧ ∀ x, g.owner x ≠ .trapframe p := by
  obtain ⟨tf, pt⟩ := h.unused unused
  rcases h.slot.table with ⟨-, sz, absent⟩ | ⟨pos, -⟩
  · refine ⟨tf, pt, sz, absent, fun x own => ?_⟩
    have frame := (h.slot.frame x).mp own
    exact frame.2 (frame.1.trans tf)
  · exact absurd pt pos

lemma allocproc_returns (h : Sound B g s) (spare : NoTable g none)
    (vacant : ∀ p, (g.rest.proc p).state = .unused → Settled B g p) :
    Returns (allocproc B) s fun r t => ∃ g', Sound B g' t ∧ (r = none → Idle B g g') ∧
      ∀ p, r = some p → (g.rest.proc p).state = .unused ∧ Confined B p g g' ∧
        (g'.rest.proc p).pagetable ≠ 0 ∧ (g'.rest.proc p).sz = 0 := by
  unfold allocproc
  refine returns_get_bind ?_
  cases found : findUnused s with
  | none => exact returns_pure ⟨g, h, fun _ => .inl rfl, by simp⟩
  | some p =>
    have unused := findUnused_state found
    rw [sound_proc h] at unused
    obtain ⟨tf, pt, sz, absent, unowned⟩ := (vacant p unused).vacant unused
    -- giving the slot back
    have undo : ∀ {g1 t1}, Sound B g1 t1 → Frame p g g1 → NoTable g1 none →
      Slot B g1 p (g1.rest.proc p).trapframe (g1.rest.proc p).pagetable (g1.rest.proc p).sz →
      Returns (freeproc B p >>= fun _ => (pure none : K n (Option (Fin n)))) t1 fun r t =>
        ∃ g', Sound B g' t ∧ (r = none → Idle B g g') ∧
          ∀ p, r = some p → (g.rest.proc p).state = .unused ∧ Confined B p g g' ∧
            (g'.rest.proc p).pagetable ≠ 0 ∧ (g'.rest.proc p).sz = 0 := by
      intro g1 t1 sound1 frame1 spare1 slot1
      refine (freeproc_returns sound1 spare1 slot1).bind ?_
      rintro - t' ⟨g', sound', confined, idle⟩
      exact returns_pure ⟨g', sound', fun _ => .inr ⟨p, unused,
        ⟨frame1.trans confined.frame, confined.settled, confined.spare⟩, idle⟩, by simp⟩
    dsimp only
    refine (assign_returns h _).bind ?_
    rintro - t1 ⟨g1, sound1, set1⟩
    refine (kalloc_returns sound1).bind fun r t2 got => ?_
    rcases got with ⟨rfl, same⟩ | ⟨own, taken⟩
    · refine (assign_returns same _).bind ?_
      rintro - t3 ⟨g3, sound3, set3⟩
      rw [if_pos rfl]
      have proc3 := set3.proc
      rw [set1.proc] at proc3
      refine undo sound3 (set1.frame.trans set3.frame) (set3.noTable (set1.noTable spare)) ?_
      rw [proc3]
      refine ⟨fun x => ?_, .inl ⟨pt, sz, set3.noTable (set1.noTable absent)⟩⟩
      rw [set3.owner, set1.owner]
      simp [unowned x]
    · have managed := sound1.managed_of (x := r) (by simp [own])
      have framed := taken.reassign (x := r) (o := .trapframe p) (by simp) (by simp)
      rw [give_give] at framed
      refine (assign_returns framed _).bind ?_
      rintro - t3 ⟨g3, sound3, set3⟩
      rw [if_neg (managed_pos managed)]
      have proc3 := set3.proc
      rw [give_rest, set1.proc] at proc3
      have addr : PageAddr (t3.proc p).trapframe := by
        rw [sound_proc sound3, proc3]
        exact managed.pageAddr
      have absent3 : NoTable g3 (some p) := set3.noTable (NoTable.give (set1.noTable absent) (by simp))
      have spare3 : NoTable g3 none := set3.noTable (NoTable.give (set1.noTable spare) (by simp))
      have frame3 : Frame p g g3 :=
        (set1.frame.trans (frame_give (by simp [own, Aside]) (by simp [Aside]))).trans set3.frame
      have mine3 : ∀ x, g3.owner x = .trapframe p ↔ x = r ∧ x ≠ 0 := by
        intro x
        rw [set3.owner]
        rcases eq_or_ne x r with rfl | ne
        · simp [managed_pos managed]
        · rw [give_other ne, set1.owner]
          simp [unowned x, ne]
      refine (procPagetable_returns (P := fun _ => True) sound3 absent3 addr).bind ?_
      rintro r' t4 ⟨g4, keeps4, made⟩
      have sound4 : Sound B g4 t4 := made.elim (fun h => h.2.1) (fun h => h.2.sound)
      refine (assign_returns sound4 _).bind ?_
      rintro - t5 ⟨g5, sound5, set5⟩
      have proc5 := set5.proc
      rw [keeps4.rest, proc3] at proc5
      have frame5 := (frame3.trans (frame_of_keeps keeps4 (.inr rfl))).trans set5.frame
      have spare5 := set5.noTable (NoTable.keeps spare3 keeps4)
      have mine5 : ∀ x, g5.owner x = .trapframe p ↔ x = r ∧ x ≠ 0 := by
        intro x
        rw [set5.owner, keeps4.owner x _ (by simp [Family]), mine3]
      rcases made with ⟨rfl, -, gone⟩ | ⟨pos, table⟩
      · rw [if_pos rfl]
        refine undo sound5 frame5 spare5 ?_
        rw [proc5]
        exact ⟨mine5, .inl ⟨rfl, sz, set5.noTable gone⟩⟩
      · rw [if_neg pos]
        have full := set5.table table.space
        rw [sound_proc sound3, proc3] at full
        have settled : Settled B g5 p := by
          refine ⟨?_, fun idle => ?_, fun _ => ?_⟩
          · rw [proc5]
            refine ⟨mine5, .inr ⟨pos, managed_pos managed, ?_⟩⟩
            rw [sz]
            exact full
          · rw [proc5] at idle
            simp at idle
          · rw [proc5]
            exact pos
        refine returns_pure ⟨g5, sound5, by simp, ?_⟩
        rintro q hq
        obtain rfl := Option.some.inj hq
        rw [proc5]
        exact ⟨unused, ⟨frame5, settled, spare5⟩, pos, sz⟩

lemma Settled.live (h : Settled B g p) (used : (g.rest.proc p).state ≠ .unused) :
    (g.rest.proc p).trapframe ≠ 0 ∧ g.owner (g.rest.proc p).trapframe = .trapframe p ∧
      Table g (some p) (g.rest.proc p).pagetable (fun _ => True) (Below (g.rest.proc p).sz)
        (frames B (g.rest.proc p).trapframe) := by
  rcases h.slot.table with ⟨none_, -⟩ | ⟨-, pos, table⟩
  · exact absurd none_ (h.used used)
  · exact ⟨pos, (h.slot.frame _).mpr ⟨rfl, pos⟩, table⟩

def childTrapframe (old page : Bytes pgsize) : Bytes pgsize :=
  setField (pokeBytes old 0 (peekBytes page 0 tfSize)) tfA0 8 0

lemma fork_confined {Q : Fin n → Nat → Ghost n → Kernel n → Prop} (h : Sound B g s)
    (spare : NoTable g none) (vacant : ∀ q, (g.rest.proc q).state = .unused → Settled B g q)
    (live : (g.rest.proc p).state ≠ .unused)
    (copy : ∀ np g1 t1 root tf, p ≠ np → Frame np g g1 →
      HasTable B g1 t1 (some np) root (fun _ => True) (fun _ => False) (frames B tf) →
      Returns (uvmcopy B (g.rest.proc p).pagetable root (g.rest.proc p).sz) t1 fun r t =>
        ∃ g', Keeps (some np) g1 g' ∧ (r = false ∧
          HasTable B g' t (some np) root (fun _ => True) (fun _ => False) (frames B tf) ∨
          r = true ∧ HasTable B g' t (some np) root (fun _ => True) (Below (g.rest.proc p).sz)
            (frames B tf) ∧ Q np root g' t)) :
    Returns (fork B p) s fun r t => ∃ g', Sound B g' t ∧ (r = none → Idle B g g') ∧
      ∀ np, r = some np → (g.rest.proc np).state = .unused ∧ Confined B np g g' ∧
        (g'.rest.proc np).state ≠ .unused ∧ (g'.rest.proc np).sz = (g.rest.proc p).sz ∧
        ∃ g2 t2, Sound B g2 t2 ∧ Frame np g g2 ∧ Q np (g'.rest.proc np).pagetable g2 t2 ∧
          g'.owner = g2.owner ∧ t.mem = update t2.mem (g'.rest.proc np).trapframe
            (childTrapframe (t2.mem (g'.rest.proc np).trapframe) (t2.mem (g.rest.proc p).trapframe)) := by
  unfold fork
  refine (allocproc_returns h spare vacant).bind ?_
  rintro r t1 ⟨g1, sound1, failed, made⟩
  cases r with
  | none => exact returns_pure ⟨g1, sound1, failed, by simp⟩
  | some np =>
    obtain ⟨unused, confined, pos, sz⟩ := made np rfl
    have frame1 := confined.frame
    have ne : p ≠ np := by
      rintro rfl
      exact live unused
    dsimp only
    refine returns_get_bind ?_
    rw [sound_proc sound1, frame1.proc p ne]
    have settled := confined.settled
    obtain ⟨tf, own, table⟩ := settled.live fun idle => pos (settled.unused idle).2
    rw [sz, below_zero] at table
    refine (copy np g1 t1 _ _ ne frame1 ⟨sound1, table⟩).bind ?_
    rintro copied t2 ⟨g2, keeps2, got⟩
    have frame2 : Frame np g1 g2 := frame_of_keeps keeps2 (.inr rfl)
    have spare2 := NoTable.keeps confined.spare keeps2
    have mine2 : ∀ x, g2.owner x = .trapframe np ↔ x = (g1.rest.proc np).trapframe ∧ x ≠ 0 := by
      intro x
      rw [keeps2.owner x _ (by simp [Family])]
      exact settled.slot.frame x
    rcases got with ⟨rfl, bare⟩ | ⟨rfl, full, known⟩
    · rw [if_neg (by simp)]
      refine (freeproc_returns bare.sound spare2 ?_).bind ?_
      · rw [keeps2.rest]
        refine ⟨mine2, .inr ⟨pos, tf, ?_⟩⟩
        rw [sz, below_zero]
        exact bare.space
      · rintro - t' ⟨g', sound', back, idle⟩
        exact returns_pure ⟨g', sound', fun _ => .inr ⟨np, unused,
          ⟨(frame1.trans frame2).trans back.frame, back.settled, back.spare⟩, idle⟩, by simp⟩
    · rw [if_pos rfl]
      have assigned (f : VmMachine.Proc n → VmMachine.Proc n) {g3 t3} (h : Sound B g3 t3) :=
        Sound.assign (p := np) h f
      obtain ⟨g3, sound3, set3⟩ := assigned (fun proc => { proc with sz := (g.rest.proc p).sz }) full.sound
      have data3 : (g3.owner (g1.rest.proc np).trapframe).Data := by
        rw [set3.owner, (mine2 _).mpr ⟨rfl, tf⟩]
        trivial
      have poked := sound3.store (pokeBytes (t2.mem (g1.rest.proc np).trapframe) 0
        (peekBytes (t2.mem (g.rest.proc p).trapframe) 0 tfSize)) data3
      obtain ⟨g4, sound4, set4⟩ := assigned (fun proc => { proc with name := (g.rest.proc p).name })
        (poked.store (setField (Kernel.mem _ (g1.rest.proc np).trapframe) tfA0 8 0) data3)
      obtain ⟨g5, sound5, set5⟩ := assigned (fun proc => { proc with parent := some p }) sound4
      obtain ⟨g6, sound6, set6⟩ := assigned (fun proc => { proc with state := .runnable }) sound5
      have proc6 := set6.proc
      rw [set5.proc, set4.proc, set3.proc, keeps2.rest] at proc6
      have frame6 := (((frame2.trans set3.frame).trans set4.frame).trans set5.frame).trans set6.frame
      have owner6 : g6.owner = g2.owner := by rw [set6.owner, set5.owner, set4.owner, set3.owner]
      refine returns_modify_bind (returns_modify_bind (returns_modify_bind (returns_modify_bind
        (returns_modify_bind (returns_modify_bind (returns_pure ⟨g6, sound6, by simp, ?_⟩))))))
      rintro q hq
      obtain rfl := Option.some.inj hq
      have settled6 : Settled B g6 np := by
        refine ⟨?_, fun idle => ?_, fun _ => ?_⟩
        · rw [proc6]
          refine set6.slot (set5.slot (set4.slot (set3.slot ⟨mine2, .inr ⟨pos, tf, full.space⟩⟩)))
        · rw [proc6] at idle
          simp at idle
        · rw [proc6]
          exact pos
      have spare6 := set6.noTable (set5.noTable (set4.noTable (set3.noTable spare2)))
      rw [proc6]
      exact ⟨unused, ⟨frame1.trans frame6, settled6, spare6⟩, by simp, rfl, g2, t2, full.sound,
        frame1.trans frame2, known, owner6, by simp [Kernel.store, Kernel.setProc, childTrapframe]⟩

lemma fork_returns (h : Sound B g s) (inv : Inv B g args) (live : (g.rest.proc p).state ≠ .unused) :
    Returns (fork B p) s fun _ t => ∃ g', Sound B g' t ∧ Inv B g' args := by
  obtain ⟨-, -, source⟩ := (inv.settled p).live live
  refine (fork_confined (Q := fun _ _ _ _ => True) h inv.spare (fun q _ => inv.settled q) live ?_).mono ?_
  · intro np g1 t1 root tf ne frame table
    have mine : Table g1 (some p) (g.rest.proc p).pagetable (fun _ => True) (Below (g.rest.proc p).sz)
      (frames B (g.rest.proc p).trapframe) := by
      obtain ⟨sp, hsp, whole, hroot, cov⟩ := source
      exact ⟨sp, (frame.space p ne).trans hsp, whole, hroot,
        cov.congr_owner fun x u => frame.owner x _ (by simp [Aside, ne])⟩
    refine (uvmcopy_returns table (frames_res _ _) (fun _ => trivial) (by simp [ne]) mine).mono ?_
    rintro r t ⟨g', keeps, got⟩
    exact ⟨g', keeps, got.imp_right fun ⟨yes, full⟩ => ⟨yes, full, trivial⟩⟩
  · rintro r t ⟨g', sound, failed, made⟩
    refine ⟨g', sound, ?_⟩
    cases r with
    | none => exact (failed rfl).inv inv
    | some np => exact (made np rfl).2.1.inv inv

lemma Settled.slot_of (h : Settled B g p) (live : (g.rest.proc p).state ≠ .unused) (keeps : Keeps (some p) g g')
    (table : Table g' (some p) (g.rest.proc p).pagetable (fun _ => True) (Below sz)
      (frames B (g.rest.proc p).trapframe)) :
    Slot B g' p (g.rest.proc p).trapframe (g.rest.proc p).pagetable sz := by
  refine ⟨fun x => ?_, .inr ⟨h.used live, (h.live live).1, table⟩⟩
  rw [keeps.owner x _ (by simp [Family])]
  exact h.slot.frame x

lemma settle_size (inv : Inv B g args) (live : (g.rest.proc p).state ≠ .unused) (keeps : Keeps (some p) g g')
    (h : HasTable B g' s (some p) (g.rest.proc p).pagetable (fun _ => True) (Below sz)
      (frames B (g.rest.proc p).trapframe)) :
    Returns (assign p fun proc => { proc with sz := sz }) s fun _ t => ∃ g'', Sound B g'' t ∧ Inv B g'' args := by
  refine (assign_returns h.sound _).mono ?_
  rintro - t ⟨g'', sound, set_⟩
  have proc := set_.proc
  rw [keeps.rest] at proc
  refine ⟨g'', sound, ((inv.others p).frame ((frame_of_keeps keeps (.inr rfl)).trans set_.frame)).inv
    ⟨?_, fun idle => ?_, fun _ => ?_⟩ (set_.noTable (NoTable.keeps inv.spare keeps))⟩
  · rw [proc]
    exact set_.slot ((inv.settled p).slot_of live keeps h.space)
  · rw [proc] at idle
    exact absurd idle live
  · rw [proc]
    exact (inv.settled p).used live

lemma growproc_returns (h : Sound B g s) (inv : Inv B g args) (live : (g.rest.proc p).state ≠ .unused) (bytes : Int32) :
    Returns (growproc B p bytes) s fun _ t => ∃ g', Sound B g' t ∧ Inv B g' args := by
  obtain ⟨tf, own, table⟩ := (inv.settled p).live live
  refine returns_get_bind ?_
  rw [sound_proc h]
  split_ifs with grow shrink
  · refine (uvmalloc_returns ⟨h, table⟩ (frames_res _ _) ⟨by decide, by decide⟩ trivial).bind ?_
    rintro r t ⟨-, g1, table1, keeps⟩
    split_ifs at table1 ⊢ with failed
    · -- the size is as before, but page-table pages may have been added
      refine returns_pure ⟨g1, table1.sound, ((inv.others p).frame
        (frame_of_keeps keeps (.inr rfl))).inv ⟨?_, ?_, ?_⟩ (NoTable.keeps inv.spare keeps)⟩
      · rw [keeps.rest]
        exact (inv.settled p).slot_of live keeps table1.space
      · rw [keeps.rest]
        exact (inv.settled p).unused
      · rw [keeps.rest]
        exact (inv.settled p).used
    · exact (settle_size inv live keeps table1).bind fun _ _ done => returns_pure done
  · refine (uvmdealloc_returns _ ⟨h, table⟩).bind ?_
    rintro r t ⟨-, g1, table1, keeps⟩
    exact (settle_size inv live keeps table1).bind fun _ _ done => returns_pure done
  · exact returns_pure ⟨g, h, inv⟩

lemma reparent_sound (h : Sound B g s) (inv : Inv B g args) (f : VmMachine.Proc n → Option (Fin n)) :
    ∃ g', Sound B g' { s with proc := fun q => { s.proc q with parent := f (s.proc q) } } ∧
      Inv B g' args ∧ ∀ q, (g'.rest.proc q).state = (g.rest.proc q).state := by
  refine ⟨{ g with rest := { g.rest with
    proc := fun q => { g.rest.proc q with parent := f (g.rest.proc q) } } },
    ⟨h.managed, h.free, h.laid, h.tables, ?_, h.frozen⟩, ⟨inv.books.congr rfl rfl fun _ _ _ => Iff.rfl,
      fun q => ?_, inv.spare⟩, fun _ => rfl⟩
  · rw [← h.rest]
    rfl
  · exact (inv.settled q).same_fields
      (fun slot => slot.congr (fun _ => Iff.rfl) rfl fun _ _ => Iff.rfl) rfl rfl rfl Iff.rfl

lemma exit_returns (h : Sound B g s) (inv : Inv B g args) (live : (g.rest.proc p).state ≠ .unused) (ne : p ≠ initproc)
    (status : Int32) :
    Returns (exit initproc p status) s fun _ t => ∃ g', Sound B g' t ∧ Inv B g' args := by
  unfold exit
  rw [if_neg ne]
  refine returns_modify_bind ?_
  obtain ⟨g1, sound1, inv1, states⟩ := reparent_sound h inv fun proc =>
    if proc.parent = some p then some initproc else proc.parent
  have same : (fun q => if (s.proc q).parent = some p then
    { s.proc q with parent := some initproc } else s.proc q) = fun q => { s.proc q with
      parent := if (s.proc q).parent = some p then some initproc else (s.proc q).parent } := by
    funext q
    split_ifs <;> rfl
  rw [same]
  refine (assign_returns sound1 _).mono ?_
  rintro - t ⟨g', sound, set_⟩
  have settled := (inv1.settled p).same_fields set_.slot (by rw [set_.proc]) (by rw [set_.proc])
    (by rw [set_.proc]) (by rw [set_.proc, states]; simp [live])
  exact ⟨g', sound, ((inv1.others p).frame set_.frame).inv settled (set_.noTable inv1.spare)⟩

lemma wait_returns (h : Sound B g s) (inv : Inv B g args) (live : (g.rest.proc p).state ≠ .unused) (addr : Nat) :
    Returns (wait B p addr) s fun _ t => ∃ g', Sound B g' t ∧ Inv B g' args := by
  refine returns_get_bind ?_
  cases findZombie s p with
  | none => exact returns_pure ⟨g, h, inv⟩
  | some q =>
    obtain ⟨-, -, table⟩ := (inv.settled p).live live
    have reap : ∀ {t}, Sound B g t → Returns (freeproc B q >>= fun _ =>
      (pure (some q) : K n (Option (Fin n)))) t fun _ t => ∃ g', Sound B g' t ∧ Inv B g' args := fun sound =>
      (freeproc_returns sound inv.spare (inv.settled q).slot).bind
        fun _ _ ⟨g', sound', confined, _⟩ => returns_pure ⟨g', sound', confined.inv inv⟩
    dsimp only
    split_ifs with null
    · exact returns_pure_bind (reap h)
    · rw [sound_proc h]
      refine (copyout_returns ⟨h, table⟩ (frames_res _ _) _ _).bind fun delivered t sound => ?_
      split_ifs
      · exact reap sound
      · exact returns_pure ⟨g, sound, inv⟩

end Xv6.PageProc
