import Xv6.FsLinks
import Xv6.FsSystem

/-! Link counts over whole runs. As long as no call adds an entry to a directory that has
been removed and no link count wraps around, the link counts are exact between the calls. -/

namespace Xv6.LinkCounts

open Params FsMachine FsTree FsEdit FsDisk FsTable FsName FsCalls FsRun FsSystem FsLinks FsImage Runs
open FsCalls (next)
open Option (map_eq_some_iff)

variable {n : Nat}

variable {sb : Super} {s t : State n} {a : Act n}

structure Made (sb : Super) (bitmap : Nat → Bool) (dinode : Nat → Dinode)
    (block : Nat → ByteFields.Bytes bsize) : Prop where
  disk : Disk sb bitmap block dinode
  inside : rootIno < sb.ninodes
  linked : Linked sb.ninodes (treeOf block dinode)
  used : ∀ i, (dinode i).type ≠ .free → (dinode i).nlink ≠ 0

/-- The call adds no entry to a directory without links, and no link count wraps around. -/
def Careful (sb : Super) (s : State n) (a : Act n) : Prop :=
  ∀ t, Step sb s a t → Orderly (tree s.fs) (tree t.fs)

structure Exact (sb : Super) (s : State n) : Prop where
  inv : Inv sb (fun _ => False) s
  linked : Linked sb.ninodes (tree s.fs)

lemma Exact.held (h : Exact sb s) (i) (used : (tree s.fs).typ i ≠ .free)
    (zero : (tree s.fs).nlink i = 0) : InUse (uses s) s.fs i := by
  have zero' : (s.fs.dinode i).nlink = 0 := (if_neg used).symm.trans zero
  obtain ⟨k, pos, inum, -⟩ := h.inv.sound.table.held i id used zero'
  exact ⟨k, pos, inum⟩

lemma Exact.done (h : Exact sb s) (done : Done sb (fun _ => False) s t)
    (orderly : Orderly (tree s.fs) (tree t.fs)) : Exact sb t := by
  refine ⟨done.1, ?_⟩
  rcases done.2 with out | reaps
  · exact h.linked.outcome out h.held orderly done.1.sound.disk.outside
  · exact h.linked.reaps reaps

lemma Exact.step (inside : rootIno < sb.ninodes) (h : Exact sb s)
    (step : Meets (Step sb) (Careful sb) s a t) : Exact sb t :=
  h.done (step_done inside h.inv step.1) (step.2 t step.1)

lemma exact_of_run (inside : rootIno < sb.ninodes) (h : Exact sb s)
    (run : Run (Meets (Step sb) (Careful sb)) s acts t) : Exact sb t :=
  run.invariant _ (fun _ _ _ h step => h.step inside step) h

lemma exact_boot (made : Made sb bitmap dinode block) : Exact sb (boot n bitmap dinode block) := by
  have inv := inv_boot (n := n) made.disk made.inside made.linked.root.1.1
  have none : Orphan dinode = fun _ => False := by
    funext i
    exact propext ⟨fun bad => made.used i bad.1 bad.2, False.elim⟩
  rw [none] at inv
  exact ⟨inv, made.linked⟩

def rootTree : Tree := treeOf image.block image.dinode

lemma ents_root : rootTree.ents rootIno = ⟨rootIno, dot⟩ :: ⟨rootIno, dotdot⟩ :: List.replicate 62 ⟨0, []⟩ := by
  decide +kernel

lemma typ_other (h : i ≠ rootIno) : rootTree.typ i = .free := dinode_other h

lemma nlink_other (h : i ≠ rootIno) : rootTree.nlink i = 0 := if_pos (dinode_other h)

lemma dir_root (isDir : rootTree.typ d = .dir) : d = rootIno := by
  by_contra other
  rw [typ_other other] at isDir
  cases isDir

lemma dir_rootTree : Dir rootTree rootIno := by
  have up : parent rootTree rootIno = rootIno := by rfl
  refine ⟨by rw [ents_root]; rfl, by rw [ents_root, up]; rfl, by rw [up]; decide, fun j e le here used => ?_⟩
  have empty : isEmpty (rootTree.ents rootIno) = true := by
    rw [ents_root]
    decide
  exact absurd (isEmpty_free empty le here) used

lemma linked_rootTree : Linked super.ninodes rootTree := by
  have empty : isEmpty (rootTree.ents rootIno) = true := by
    rw [ents_root]
    decide
  have up : parent rootTree rootIno = rootIno := by rfl
  have att : Attached rootTree rootIno := by decide +kernel
  constructor
  · exact typ_other (by decide)
  · intro i past
    refine typ_other ?_
    rintro rfl
    exact absurd past (by decide)
  · intro i free
    exact if_pos free
  · intro i file
    exact if_neg file
  · intro i used
    rw [count, Finset.sum_eq_single rootIno]
    · rw [links_of_attached att, dir_rootTree.countP_empty empty used, up]
      by_cases hi : i = rootIno
      · subst hi
        rfl
      · rw [if_neg hi, nlink_other hi]
        rfl
    · intro d _ other
      refine links_of_typ ?_
      rw [typ_other other]
      decide
    · intro out
      exact absurd (Finset.mem_range.mpr (by decide)) out
  · intro d isDir
    rw [dir_root isDir]
    exact dir_rootTree
  · intro d isDir zero
    rw [dir_root isDir] at zero
    exact absurd zero att.ne_zero
  · exact ⟨att, up⟩
  · intro d att' other
    exact absurd (dir_root att'.1) other
  · intro d j e att' le here isDir
    rw [dir_root att'.1] at here
    rw [isEmpty_free empty le here, typ_other (by decide)] at isDir
    cases isDir

lemma made_image : Made super image.bitmap image.dinode image.block := by
  refine ⟨disk_image, by decide, linked_rootTree, fun i used => ?_⟩
  by_cases hi : i = rootIno
  · subst hi
    decide
  · exact absurd (dinode_other hi) used

lemma careful_start (a) : Careful super start a := by
  intro t _
  refine ⟨fun d isDir zero => ?_, fun i full => ?_⟩
  · obtain rfl := dir_root isDir
    exact absurd zero (by decide)
  · by_cases hi : i = rootIno
    · subst hi
      exact absurd full (by decide)
    · have none : (tree start.fs).nlink i = 0 := nlink_other hi
      rw [none] at full
      exact absurd full (by decide)

variable {bitmap : Nat → Bool} {dinode : Nat → Dinode} {block : Nat → ByteFields.Bytes bsize}
  {acts : List (Act (n + 1))} {t : State (n + 1)}

/-- The link count of an inode is the number of entries that name it, and an inode that no
entry names is in use. -/
theorem links_counted (made : Made sb bitmap dinode block)
    (run : Run (Meets (Step sb) (Careful sb)) (boot n bitmap dinode block) acts t) :
    (∀ i, (t.fs.dinode i).type ≠ .free → ((t.fs.dinode i).nlink).toInt = count sb.ninodes (tree t.fs) i) ∧
      ∀ i, (t.fs.dinode i).type ≠ .free → count sb.ninodes (tree t.fs) i = 0 →
        ∃ k, 0 < (t.fs.itable k).ref ∧ (t.fs.itable k).inum = i := by
  have h := exact_of_run made.inside (exact_boot made) run
  have counted : ∀ i, (t.fs.dinode i).type ≠ .free →
    ((t.fs.dinode i).nlink).toInt = count sb.ninodes (tree t.fs) i := by
    intro i used
    have onTree : (tree t.fs).nlink i = (t.fs.dinode i).nlink := if_neg used
    rw [← onTree]
    exact h.linked.counted i (h.linked.ne_zero used)
  refine ⟨counted, fun i used none => ?_⟩
  have zero : (t.fs.dinode i).nlink = 0 := by
    refine Int16.toInt_inj.mp ?_
    rw [counted i used, none]
    rfl
  obtain ⟨k, pos, inum⟩ := h.held i used ((if_neg used).trans zero)
  exact ⟨k, by rw [h.inv.sound.table.ref]; exact pos, inum⟩

lemma exec_mkdir : ((exec (next super) start [.mkdir 0 (some [100])]).map fun t =>
    ((t.fs.dinode rootIno).type, (t.fs.dinode rootIno).nlink,
      decide (∀ k, 0 < (t.fs.itable k).ref → (t.fs.dinode (t.fs.itable k).inum).nlink ≠ 0))) =
    some (.dir, 2, true) := by
  decide +kernel

lemma run_mkdir {t : State 1} (eq : exec (next super) start [.mkdir 0 (some [100])] = some t) :
    Run (Meets (Step super) (Careful super)) start [.mkdir 0 (some [100])] t := by
  cases run_of_exec (next super) eq with
  | cons first rest =>
    exact .cons ⟨first, careful_start _⟩ (rest.meets fun _ mem => absurd mem List.not_mem_nil)

/-- The root has a link for its own `..` and one for that of a new directory. -/
theorem links_counted_mkdir : ∃ t, Run (Meets (Step super) (Careful super)) start [.mkdir 0 (some [100])] t ∧
    count super.ninodes (tree t.fs) rootIno = 2 := by
  obtain ⟨t, eq, facts⟩ := map_eq_some_iff.mp exec_mkdir
  simp only [Prod.mk.injEq] at facts
  obtain ⟨type, nlink, -⟩ := facts
  have run := run_mkdir eq
  have counted := (links_counted made_image run).1 rootIno (by rw [type]; decide)
  rw [nlink] at counted
  exact ⟨t, run, Int.ofNat_inj.mp counted.symm⟩

def strayCalls : List (Act 1) :=
  [.mkdir 0 (some [100]), .chdir 0 (some [100]), .unlink 0 (some [46, 46, 47, 100]),
    .open 0 (some [120]) (oCreate ||| oRdwr)]

lemma exec_strayCalls : ((exec (next super) start strayCalls).map fun t =>
    ((t.fs.dinode 3).type, (t.fs.dinode 3).nlink, count super.ninodes (tree t.fs) 3)) =
    some (.file, 1, 0) := by
  decide +kernel

theorem links_miscounted : ∃ t, Run (Step super) start strayCalls t ∧ (t.fs.dinode 3).type ≠ .free ∧
    ((t.fs.dinode 3).nlink).toInt ≠ count super.ninodes (tree t.fs) 3 := by
  obtain ⟨t, eq, facts⟩ := map_eq_some_iff.mp exec_strayCalls
  simp only [Prod.mk.injEq] at facts
  obtain ⟨type, nlink, none⟩ := facts
  refine ⟨t, run_of_exec (next super) eq, by rw [type]; decide, ?_⟩
  rw [nlink, none]
  decide

/-- The committed states at which a crash may meet a call: the one that the call found, or
the one after some of the operations of a call that has several. An operation that has not
committed is undone by `initlog`. -/
inductive Cut (sb : Super) (s : State n) : Act n → State n → Prop
  | before (a : Act n) : Cut sb s a s
  | exit {u : State n} (p : Fin n) (m : Nat) :
      closeFiles sb p ((List.finRange nofile).take m) s = .ok ((), u) → Cut sb s (.exit p) u
  | write {u : State n} {f : Fin nfile} (p : Fin n) (fd : Int) (src : Nat → Option UInt8)
      (count answer : Int) (m i : Nat) : (s.ftable f).type = .inode → (s.ftable f).writable = true →
      writeChunks sb f src m count.toNat 0 s = .ok (i, u) →
      Cut sb s (.write p fd src count answer) u

lemma Exact.cut (h : Exact sb s) (cut : Cut sb s a u) : Exact sb u := by
  cases cut with
  | before => exact h
  | exit p m eq =>
    have safe := closeFiles_safe (fun _ _ => trivial) p ((List.finRange nofile).take m) s h.inv
    obtain ⟨inv, reaps, -⟩ := safe.ensures _ _ eq
    exact ⟨inv, h.linked.reaps reaps⟩
  | write p fd src count answer m i isIno writable eq =>
    have safe := writeChunks_safe (fun _ _ => trivial) src count.toNat m 0 s h.inv isIno writable
    have touched := safe.ensures _ _ eq
    refine ⟨touched.inv, ?_⟩
    rw [touched.tree]
    exact h.linked

def NoLeak (dinode : Nat → Dinode) (block : Nat → ByteFields.Bytes bsize) : Prop :=
  ∀ i, (dinode i).type ≠ .free → 1 ≤ (dinode i).nlink ∧
    ∃ d e, (dinode d).type = .dir ∧ e ∈ entsOf block (dinode d) ∧ e.inum = i

/-- If every inode in use has a link at the crash, the disk that the next boot finds has
no inode without one. -/
theorem crash_leaks_nothing {acts : List (Act (n + 1))} {t u : State (n + 1)} {a : Act (n + 1)}
    (made : Made sb bitmap dinode block)
    (run : Run (Meets (Step sb) (Careful sb)) (boot n bitmap dinode block) acts t) (cut : Cut sb t a u)
    (linked : ∀ k, 0 < (u.fs.itable k).ref → (u.fs.dinode (u.fs.itable k).inum).nlink ≠ 0) :
    NoLeak u.fs.dinode u.fs.block := by
  have h := (exact_of_run made.inside (exact_boot made) run).cut cut
  intro i used
  have onTree : (tree u.fs).nlink i = (u.fs.dinode i).nlink := if_neg used
  have some' : (u.fs.dinode i).nlink ≠ 0 := by
    intro zero
    obtain ⟨k, pos, inum⟩ := h.held i used (onTree.trans zero)
    rw [← h.inv.sound.table.ref] at pos
    refine linked k pos ?_
    rw [inum]
    exact zero
  have counted := h.linked.counted i (h.linked.ne_zero used)
  rw [onTree] at counted
  have ne : ((u.fs.dinode i).nlink).toInt ≠ 0 := fun eq => some' (Int16.toInt_inj.mp eq)
  have pos : 0 < count sb.ninodes (tree u.fs) i := by omega
  refine ⟨?_, ?_⟩
  · rw [Int16.le_iff_toInt_le]
    change (1 : Int) ≤ _
    omega
  · obtain ⟨d, -, named⟩ := Finset.sum_pos_iff.mp pos
    by_cases att : Attached (tree u.fs) d
    · rw [links_of_attached att] at named
      obtain ⟨e, mem, both⟩ := List.countP_pos_iff.mp named
      exact ⟨d, e, att.1, mem, (of_decide_eq_true both).1⟩
    · rw [links, if_neg att] at named
      exact absurd named (lt_irrefl 0)

theorem crash_leaks_nothing_mkdir : ∃ t, Run (Step super) start [.mkdir 0 (some [100])] t ∧
    Cut super t (.exit 0) t ∧ NoLeak t.fs.dinode t.fs.block := by
  obtain ⟨t, eq, facts⟩ := map_eq_some_iff.mp exec_mkdir
  simp only [Prod.mk.injEq] at facts
  have run := run_mkdir eq
  exact ⟨t, run.forget, .before _, crash_leaks_nothing made_image run (.before (.exit 0)) (of_decide_eq_true facts.2.2)⟩

theorem crash_leaks : ∃ t, Run (Step super) start unlinking t ∧ Cut super t (.exit 0) t ∧
    ¬ NoLeak t.fs.dinode t.fs.block := by
  obtain ⟨t, eq, facts⟩ := map_eq_some_iff.mp exec_unlinking
  simp only [Prod.mk.injEq] at facts
  obtain ⟨type, nlink, -⟩ := facts
  refine ⟨t, run_of_exec (next super) eq, .before _, fun none => ?_⟩
  have linked := (none 2 (by rw [type]; decide)).1
  rw [nlink] at linked
  exact absurd linked (by decide)

variable {t : State n} {T : Tree} {N d j : Nat} {e : Dirent}

lemma attached_names (h : Linked N T) (att : Attached T d) (here : (T.ents d)[j]? = some e)
    (used : e.inum ≠ 0) : e.inum = d ∨ T.nlink e.inum ≠ 0 := by
  have dir := h.dirs d att.1
  by_cases first : j = 0
  · subst first
    obtain rfl := Option.some.inj (dir.self.symm.trans here)
    exact .inl rfl
  refine .inr (h.named_linked att here used ?_)
  by_cases second : j = 1
  · subst second
    obtain rfl := Option.some.inj (dir.up.symm.trans here)
    exact dotdot_ne
  · exact dir.named j e (by omega) here used

lemma closed_of_up (h : Linked N T) (up : Up T) : Closed T := by
  have root := h.root.1
  refine ⟨⟨Linked.dir_used root.1, root.ne_zero⟩, fun d e mem => ?_⟩
  by_cases isDir : T.typ d = .dir
  · obtain ⟨j, here⟩ := List.mem_iff_getElem?.mp mem
    have dir := h.dirs d isDir
    by_cases zero : T.nlink d = 0
    · -- A removed directory has nothing but the entries for itself and its parent.
      by_cases first : j = 0
      · subst first
        obtain rfl := Option.some.inj (dir.self.symm.trans here)
        exact .inr (.inl rfl)
      by_cases second : j = 1
      · subst second
        obtain rfl := Option.some.inj (dir.up.symm.trans here)
        exact .inr (.inr (up d isDir zero))
      · exact .inl (isEmpty_free (h.removed d isDir zero) (by omega) here)
    · by_cases used : e.inum = 0
      · exact .inl used
      · exact .inr (attached_names h (h.attached_of isDir zero) here used)
  · rw [h.files d isDir] at mem
    exact absurd mem List.not_mem_nil

/-- The call is careful, and takes no last link from a directory that a removed directory has
as its `..`. -/
def Mindful (sb : Super) (s : State n) (a : Act n) : Prop :=
  ∀ t, Step sb s a t → Orderly (tree s.fs) (tree t.fs) ∧ Tidy (tree s.fs) (tree t.fs)

lemma Up.step (inside : rootIno < sb.ninodes) (h : Exact sb s ∧ Up (tree s.fs))
    (step : Meets (Step sb) (Mindful sb) s a t) : Exact sb t ∧ Up (tree t.fs) := by
  obtain ⟨counts, up⟩ := h
  have done := step_done inside counts.inv step.1
  obtain ⟨orderly, tidy⟩ := step.2 t step.1
  refine ⟨counts.done done orderly, ?_⟩
  rcases done.2 with out | reaps
  · exact up.outcome counts.linked out counts.held orderly tidy done.1.sound.disk.outside
  · exact up.reaps reaps

theorem no_dangling_entry {acts : List (Act (n + 1))} {t : State (n + 1)} (made : Made sb bitmap dinode block)
    (run : Run (Meets (Step sb) (Mindful sb)) (boot n bitmap dinode block) acts t) :
    (∀ d e, (t.fs.dinode d).type = .dir → e ∈ entsOf t.fs.block (t.fs.dinode d) → e.inum ≠ 0 →
      (t.fs.dinode e.inum).type ≠ .free) ∧
      ∀ a, Enabled t a → perform sb a t ≠ .error "ilock: no type" := by
  have start : Exact sb (boot n bitmap dinode block) ∧ Up (tree (boot n bitmap dinode block).fs) := by
    refine ⟨exact_boot made, fun d isDir zero => ?_⟩
    have used := Linked.dir_used isDir
    exact absurd ((if_neg used).symm.trans zero) (made.used d used)
  obtain ⟨counts, up⟩ := run.invariant _ (fun _ _ _ h step => Up.step made.inside h step) start
  have closed := closed_of_up counts.linked up
  refine ⟨fun d e isDir mem used free => ?_, fun a enabled panic => ?_⟩
  · rcases closed.names d e mem with zero | self | linked
    · exact used zero
    · rw [self, isDir] at free
      cases free
    · exact linked (if_pos free)
  · have fits : ∀ i, (tree t.fs).nlink i ≠ -1 := by
      intro i eq
      by_cases zero : i = 0
      · rw [zero, counts.linked.free 0 counts.linked.zero] at eq
        exact absurd eq (by decide)
      · have counted := counts.linked.counted i zero
        rw [eq] at counted
        change (-1 : Int) = _ at counted
        omega
    have safe := perform_safe (E := fun e => e ≠ "ilock: no type") (fun _ other eq => other (by simp [eq]))
      (.inr closed) (.inr fits) (.inl (by decide)) made.inside counts.inv a enabled
    rw [Total.Safe, panic] at safe
    exact safe rfl

lemma mindful_start {t : State 1} (step : Step super start (.mkdir 0 (some [100])) t)
    (linked : (t.fs.dinode rootIno).nlink = 2) (isDir : (t.fs.dinode rootIno).type = .dir) :
    Mindful super start (.mkdir 0 (some [100])) := by
  intro u step'
  obtain rfl := Option.some.inj (step.symm.trans step')
  refine ⟨careful_start _ t step, fun p d before after _ _ _ => ?_⟩
  by_cases hp : p = rootIno
  · subst hp
    have onTree : (tree t.fs).nlink rootIno = (t.fs.dinode rootIno).nlink := if_neg (by rw [isDir]; decide)
    rw [onTree, linked] at after
    exact absurd after (by decide)
  · exact before (nlink_other hp)

theorem no_dangling_entry_mkdir : ∃ t, Run (Step super) start [.mkdir 0 (some [100])] t ∧
    (t.fs.dinode rootIno).type = .dir ∧
    ∀ e ∈ entsOf t.fs.block (t.fs.dinode rootIno), e.inum ≠ 0 → (t.fs.dinode e.inum).type ≠ .free := by
  obtain ⟨t, eq, facts⟩ := map_eq_some_iff.mp exec_mkdir
  simp only [Prod.mk.injEq] at facts
  obtain ⟨type, nlink, -⟩ := facts
  have run : Run (Meets (Step super) (Mindful super)) start [.mkdir 0 (some [100])] t := by
    cases run_of_exec (next super) eq with
    | cons first rest =>
      cases rest
      exact .single ⟨first, mindful_start first nlink type⟩
  exact ⟨t, run.forget, type, fun e => (no_dangling_entry made_image run).1 rootIno e type⟩

def danglingCalls : List (Act 1) :=
  [.mkdir 0 (some [97]), .mkdir 0 (some [97, 47, 98]), .chdir 0 (some [97, 47, 98]),
    .unlink 0 (some [47, 97, 47, 98]), .unlink 0 (some [47, 97])]

def panicText (r : Except String (Int × State n)) : String :=
  match r with
  | .ok _ => ""
  | .error e => e

lemma exec_danglingCalls : ((exec (next super) start danglingCalls).map fun t =>
    ((t.fs.itable (t.proc 0).cwd).inum, (t.fs.dinode 3).type,
      ((entsOf t.fs.block (t.fs.dinode 3))[1]?.map Dirent.inum), (t.fs.dinode 2).type,
      panicText (perform super (.chdir 0 (some [46, 46])) t))) =
    some (3, .dir, some 2, .free, "ilock: no type") := by
  decide +kernel

theorem entry_dangles : ∃ t, Run (Step super) start danglingCalls t ∧
    (t.fs.dinode (t.fs.itable (t.proc 0).cwd).inum).type = .dir ∧
    (∃ e ∈ entsOf t.fs.block (t.fs.dinode (t.fs.itable (t.proc 0).cwd).inum), e.inum ≠ 0 ∧
      (t.fs.dinode e.inum).type = .free) ∧
    panicText (perform super (.chdir 0 (some [46, 46])) t) = "ilock: no type" := by
  obtain ⟨t, eq, facts⟩ := map_eq_some_iff.mp exec_danglingCalls
  simp only [Prod.mk.injEq] at facts
  obtain ⟨cwd, isDir, up, free, panic⟩ := facts
  obtain ⟨e, here, inum⟩ := map_eq_some_iff.mp up
  rw [← cwd] at isDir here
  refine ⟨t, run_of_exec (next super) eq, isDir, ⟨e, List.mem_of_getElem? here, ?_, ?_⟩, panic⟩
  · rw [inum]
    decide
  · rw [inum]
    exact free

lemma one_le_nlink (h : Linked N T) (used : e.inum ≠ 0) (linked : T.nlink e.inum ≠ 0) : 1 ≤ T.nlink e.inum := by
  have counted := h.counted e.inum used
  have ne : (T.nlink e.inum).toInt ≠ 0 := fun eq => linked (Int16.toInt_inj.mp eq)
  rw [Int16.le_iff_toInt_le]
  change (1 : Int) ≤ _
  omega

lemma removable_of_linked (h : Linked N T) : Removable T := by
  intro d j e isDir here used notDot notDots
  by_cases zero : T.nlink d = 0
  · -- A removed directory has nothing that could be unlinked.
    have dir := h.dirs d isDir
    by_cases first : j = 0
    · subst first
      obtain rfl := Option.some.inj (dir.self.symm.trans here)
      exact absurd rfl notDot
    by_cases second : j = 1
    · subst second
      obtain rfl := Option.some.inj (dir.up.symm.trans here)
      exact absurd rfl notDots
    · exact absurd (isEmpty_free (h.removed d isDir zero) (by omega) here) used
  · exact one_le_nlink h used (h.named_linked (h.attached_of isDir zero) here used notDot)

lemma named_positive (h : Exact sb t) (isDir : (t.fs.dinode d).type = .dir) (linked : (t.fs.dinode d).nlink ≠ 0)
    (mem : e ∈ entsOf t.fs.block (t.fs.dinode d)) (used : e.inum ≠ 0) : 1 ≤ (t.fs.dinode e.inum).nlink := by
  have onTree : (tree t.fs).nlink d = (t.fs.dinode d).nlink := if_neg (by rw [isDir]; decide)
  have att := h.linked.attached_of isDir (by rwa [onTree])
  have named : (tree t.fs).nlink e.inum ≠ 0 := by
    obtain ⟨j, here⟩ := List.mem_iff_getElem?.mp mem
    rcases attached_names h.linked att here used with self | named
    · rw [self]
      exact att.ne_zero
    · exact named
  have le := one_le_nlink h.linked used named
  have allocated : (t.fs.dinode e.inum).type ≠ .free := fun free => named (if_pos free)
  rwa [show (tree t.fs).nlink e.inum = (t.fs.dinode e.inum).nlink from if_neg allocated] at le

/-- In every run of careful calls, every entry of every directory names an inode with a link just if no
directory that is still allocated has lost its last link, and `unlink` finds the links it takes away. -/
theorem unlink_finds_links {acts : List (Act (n + 1))} {t : State (n + 1)} (made : Made sb bitmap dinode block)
    (run : Run (Meets (Step sb) (Careful sb)) (boot n bitmap dinode block) acts t) :
    ((∀ d e, (t.fs.dinode d).type = .dir → e ∈ entsOf t.fs.block (t.fs.dinode d) → e.inum ≠ 0 →
        1 ≤ (t.fs.dinode e.inum).nlink) ↔
      ∀ d, (t.fs.dinode d).type = .dir → (t.fs.dinode d).nlink ≠ 0) ∧
    ∀ a, Enabled t a → perform sb a t ≠ .error "unlink: nlink < 1" := by
  have counts := exact_of_run made.inside (exact_boot made) run
  refine ⟨⟨fun named d isDir zero => ?_, fun linked d e isDir mem used => ?_⟩, fun a enabled panic => ?_⟩
  · -- The entry `.` of such a directory names the directory.
    have self := (counts.linked.dirs d isDir).self
    have used : (tree t.fs).typ d ≠ .free := fun free => by cases isDir.symm.trans free
    have le := named d _ isDir (List.mem_of_getElem? self) (counts.linked.ne_zero used)
    rw [zero] at le
    exact absurd le (by decide)
  · exact named_positive counts isDir (linked d isDir) mem used
  · have safe := perform_safe (E := fun e => e ≠ "unlink: nlink < 1") (fun _ other eq => other (by simp [eq]))
      (.inl (by decide)) (.inl (by decide)) (.inr (removable_of_linked counts.linked)) made.inside counts.inv a enabled
    rw [Total.Safe, panic] at safe
    exact safe rfl

theorem unlink_finds_links_mkdir : ∃ t, Run (Meets (Step super) (Careful super)) start [.mkdir 0 (some [100])] t ∧
    (t.fs.dinode rootIno).type = .dir ∧ (t.fs.dinode rootIno).nlink = 2 ∧
    (∀ e ∈ entsOf t.fs.block (t.fs.dinode rootIno), e.inum ≠ 0 → 1 ≤ (t.fs.dinode e.inum).nlink) ∧
    ∀ a, Enabled t a → perform super a t ≠ .error "unlink: nlink < 1" := by
  obtain ⟨t, eq, facts⟩ := map_eq_some_iff.mp exec_mkdir
  simp only [Prod.mk.injEq] at facts
  obtain ⟨type, nlink, linked⟩ := facts
  have run := run_mkdir eq
  have counts := exact_of_run made_image.inside (exact_boot made_image) run
  obtain ⟨named, safe⟩ := unlink_finds_links made_image run
  refine ⟨t, run, type, nlink, fun e => named.mpr (fun d isDir zero => ?_) rootIno e type, safe⟩
  have used : (tree t.fs).typ d ≠ .free := fun free => by cases isDir.symm.trans free
  obtain ⟨k, pos, inum⟩ := counts.held d used ((if_neg used).trans zero)
  rw [← counts.inv.sound.table.ref] at pos
  exact of_decide_eq_true linked k pos (by rw [inum, zero])

def removingOpen : List (Act 1) :=
  [.mkdir 0 (some [100]), .open 0 (some [100]) 0, .unlink 0 (some [100])]

lemma exec_removingOpen : ((exec (next super) start removingOpen).map fun t =>
    ((t.fs.dinode 2).type, (t.fs.dinode 2).nlink, (entsOf t.fs.block (t.fs.dinode 2))[0]?)) =
    some (.dir, 0, some ⟨2, dot⟩) := by
  decide +kernel

theorem removed_names_itself : ∃ t, Run (Step super) start removingOpen t ∧ (t.fs.dinode 2).type = .dir ∧
    ∃ e ∈ entsOf t.fs.block (t.fs.dinode 2), e.inum ≠ 0 ∧ ¬ 1 ≤ (t.fs.dinode e.inum).nlink := by
  obtain ⟨t, eq, facts⟩ := map_eq_some_iff.mp exec_removingOpen
  simp only [Prod.mk.injEq] at facts
  obtain ⟨isDir, zero, self⟩ := facts
  refine ⟨t, run_of_exec (next super) eq, isDir, ⟨2, dot⟩, List.mem_of_getElem? self, by decide, ?_⟩
  rw [zero]
  decide

/-- The root directory has the file `x`, with as many links as a `short` counts. -/
def full : Fs where
  __ := image
  dinode i := if i = 2 then ⟨.file, 0, 0, 32767, 0, fun _ => 0⟩ else image.dinode i
  block b := if b = 46 then ByteFields.pokeBytes rootDir 32 (Dirent.encode 2 [120]) else image.block b

/-- One more link wraps the count, and then no name of the file can be removed. -/
example : ((exec (next super) (boot 0 full.bitmap full.dinode full.block) [.link 0 (some [120]) (some [121])]).map
    fun t => ((t.fs.dinode 2).nlink, panicText (perform super (.unlink 0 (some [121])) t))) =
    some (-32768, "unlink: nlink < 1") := by
  decide +kernel

end Xv6.LinkCounts
