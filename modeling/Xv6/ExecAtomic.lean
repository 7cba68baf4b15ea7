import Xv6.FsSystem
import Xv6.PageFrame
import Xv6.PageRun

/-! A failing `exec` changes nothing: what it builds stays beside the process until the commit,
and is taken apart again down to the last page. -/

namespace Xv6.ExecAtomic

open ByteFields VmMachine VmProc PageTable PageOwner PageWalk PageFree PageUvm PageCopy PageProc PageExec
  PageRun PageMap UserCopy PageFrame Total

variable {n : Nat} {B : Board} {g g' : Ghost n} {s t : Kernel n} {p : Fin n} {root sz tf : Nat} {args : List Nat}

def Undone (B : Board) (g : Ghost n) (t : Kernel n) : Prop :=
  ∃ g', Sound B g' t ∧ NoTable g' none ∧ Keeps none g g'

lemma execBad_undone (keeps : Keeps none g g') (h : HasTable B g' s none root P (Below sz) (frames B tf)) :
    Ensures (execBad B root sz) s fun r t => r = -1 ∧ Undone B g t := by
  unfold execBad
  refine (procFree_returns h).ensures.bind ?_
  rintro - t ⟨g'', sound, gone, keeps'⟩
  exact (returns_pure ⟨rfl, g'', sound, gone, keeps.trans keeps'⟩).ensures

lemma ensures_after (rest : ∀ a t, Ensures (k a) t R) : Ensures (f >>= k) s R :=
  Ensures.bind (fun _ _ _ => trivial) fun a t _ => rest a t

lemma execCommit_undone (keeps : Keeps none g g') (h : HasTable B g' s none root UserFlags (Below sz) (frames B tf))
    (path argv entry) :
    Ensures (execCommit B p path argv entry root sz) s fun r t =>
      r = -1 ∧ Undone B g t ∨ r = argv.length := by
  have res := frames_res B tf
  have size := HasTable.size_le h
  unfold execCommit
  refine ensures_get ?_
  dsimp only
  rw [pgRoundUp_eq size]
  rw [← below_pages] at h
  have count := HasTable.count_le h
  refine (uvmalloc_returns h res ⟨by decide, by decide⟩
    (show UserFlags (pteR ||| pteU ||| pteW) by unfold UserFlags; decide)).ensures.bind ?_
  rintro r t1 ⟨got, g1, table1, keeps1⟩
  have upTo := keeps.trans keeps1
  split_ifs at table1 ⊢ with failed
  · exact fun r t ran => .inl (execBad_undone upTo table1 r t ran)
  · have top := got.resolve_left failed
    rw [Nat.max_eq_right (Nat.le_add_right _ _)] at top
    have small : maxPages < maxVa / pgsize := by decide
    obtain ⟨guard, inside⟩ := stack_guard count
    rw [← top] at guard inside
    rw [guard]
    refine (uvmclear_returns table1 inside (by omega)).ensures.bind ?_
    rintro - t2 ⟨g2, table2, keeps2⟩
    have upTo2 := upTo.trans keeps2
    refine (pushStack_returns table2 res _ argv).ensures.bind fun pushed t3 sound3 => ?_
    cases pushed with
    | none => exact fun r t ran => .inl (execBad_undone upTo2 ⟨sound3, table2.space⟩ r t ran)
    | some sp =>
      -- from the commit on, `exec` answers with the number of arguments
      dsimp only
      iterate 7 refine ensures_after fun _ _ => ?_
      exact (returns_pure (.inr rfl)).ensures

lemma exec_undone (h : Sound B g s) (spare : NoTable g none) (addr : PageAddr (s.proc p).trapframe) (fs path argv) :
    Ensures (exec B fs p path argv) s fun r t => r = -1 ∧ Undone B g t ∨ r = argv.length := by
  have stay : Undone B g s := ⟨g, h, spare, .refl none g⟩
  unfold exec
  cases fs path with
  | none => exact (returns_pure (.inl ⟨rfl, stay⟩)).ensures
  | some file =>
    dsimp only
    split_ifs with short magic
    · exact (returns_pure (.inl ⟨rfl, stay⟩)).ensures
    · exact (returns_pure (.inl ⟨rfl, stay⟩)).ensures
    · refine (procPagetable_returns (P := UserFlags) h spare addr).ensures.bind ?_
      rintro r t1 ⟨g1, keeps1, ⟨rfl, sound1, gone⟩ | ⟨pos, table⟩⟩
      · rw [if_pos rfl]
        exact (returns_pure (.inl ⟨rfl, g1, sound1, gone, keeps1⟩)).ensures
      · rw [if_neg pos]
        refine (loadSegments_returns (frames_res _ _) table).ensures.bind ?_
        rintro ⟨loaded, sz⟩ t2 ⟨g2, table2, keeps2⟩
        dsimp only
        split_ifs
        · exact execCommit_undone (keeps1.trans keeps2) table2 path argv _
        · exact fun r t ran => .inl (execBad_undone (keeps1.trans keeps2) table2 r t ran)

/-- Every page has one owner, and each process in use maps exactly the pages below its size. -/
def Consistent (B : Board) (s : Kernel n) : Prop := ∃ g args, Sound B g s ∧ Inv B g args

lemma reachable_consistent (h : Reachable B initproc s) : Consistent B s := by
  obtain ⟨g, sound, inv⟩ := h.inv
  exact ⟨g, [], sound, inv⟩

def Free (s : Kernel n) (x : Nat) : Prop := ∃ l, Chain s.mem s.freelist l ∧ x ∈ l

lemma chain_unique : ∀ {head : Nat} {l' : List Nat}, Chain mem head l → Chain mem head l' → l = l' := by
  induction l with
  | nil =>
    intro head l' h h'
    cases l' with
    | nil => rfl
    | cons y l' => exact absurd (h'.1.symm.trans h) h'.2.1
  | cons x l ih =>
    intro head l' h h'
    cases l' with
    | nil => exact absurd (h.1.symm.trans h') h.2.1
    | cons y l' =>
      obtain rfl : x = y := h.1.symm.trans h'.1
      rw [ih h.2.2 h'.2.2]

lemma free_iff (h : Sound B g s) (x) : Free s x ↔ g.owner x = .free := by
  obtain ⟨l, chain, -, mem⟩ := h.free
  rw [← mem]
  constructor
  · rintro ⟨l', chain', inside⟩
    rwa [chain_unique chain chain']
  · exact fun inside => ⟨l, chain, inside⟩

lemma free_of_family (h : Sound B g s) (spare : NoTable g none) (family : Family none (g.owner x)) :
    g.owner x = .free := by
  cases own : g.owner x with
  | free => rfl
  | table id l v =>
    rw [own] at family
    cases family
    have here := (h.tables none l v x).mp own
    simp [Ghost.table, spare.1] at here
  | user id u =>
    rw [own] at family
    cases family
    exact absurd own (spare.2 x u)
  | _ =>
    rw [own] at family
    exact absurd family id

lemma undone_owner (h : Sound B g s) (spare : NoTable g none) (h' : Sound B g' t) (gone : NoTable g' none)
    (keeps : Keeps none g g') (x) : g'.owner x = g.owner x := by
  by_cases family : Family none (g.owner x)
  · have free := free_of_family h spare family
    rw [free]
    by_contra changed
    have family' : ¬ Family none (g'.owner x) := fun family' => changed (free_of_family h' gone family')
    exact changed (((keeps.owner x _ family').mp rfl).symm.trans free)
  · exact (keeps.owner x _ family).mpr rfl

def Kept (B : Board) (s t : Kernel n) : Prop := ∀ x, Managed B x → ¬ Free s x → t.mem x = s.mem x

/-- What belongs to a process is not free. -/
lemma Kept.view (kept : Kept B s t) (h : Sound B g s) (inv : Inv B g args)
    (live : (g.rest.proc p).state ≠ .unused) (va) :
    lookup B t (s.proc p).pagetable va = lookup B s (s.proc p).pagetable va ∧
      userByte B t (s.proc p).pagetable va = userByte B s (s.proc p).pagetable va := by
  obtain ⟨-, -, table⟩ := (inv.settled p).live live
  rw [← sound_proc h] at table
  refine view_congr ⟨h, table⟩ (frames_res B _) (fun x own => ?_) va
  have inside : g.owner x ≠ .outside ∧ g.owner x ≠ .free := by
    rcases own with ⟨l, v, own⟩ | ⟨u, own⟩ <;> simp [own]
  exact kept x ((h.managed x).mp inside.1) fun free => inside.2 ((free_iff h x).mp free)

/-- The process table, the pages that are not free, and the set of the free pages are as before. -/
structure SameMemory (B : Board) (s t : Kernel n) : Prop where
  proc : t.proc = s.proc
  free : ∀ x, Free t x ↔ Free s x
  used : Kept B s t

lemma exec_same_memory (h : Sound B g s) (inv : Inv B g args) (live : (g.rest.proc p).state ≠ .unused)
    (fs path argv) :
    ∃ r t, exec B fs p path argv s = .ok (r, t) ∧ (r = -1 ∧ SameMemory B s t ∨ r = argv.length) := by
  obtain ⟨tf, own, -⟩ := (inv.settled p).live live
  have addr : PageAddr (s.proc p).trapframe := by
    rw [sound_proc h]
    exact (h.managed_of (by simp [own])).pageAddr
  obtain ⟨r, t, ran, -⟩ := exec_returns h inv live fs path argv
  refine ⟨r, t, ran, ?_⟩
  rcases exec_undone h inv.spare addr fs path argv r t ran with ⟨bad, g1, sound, gone, keeps⟩ | good
  swap
  · exact .inr good
  have undone := exec_undone (freeze_sound h (within_keepable none)) (freeze_noTable inv.spare) addr fs path
    argv r t ran
  obtain ⟨g2, sound', -, keeps'⟩ := (undone.resolve_right (by omega)).2
  have owner := undone_owner h inv.spare sound gone keeps
  refine .inl ⟨bad, ?_, fun x => ?_, fun x managed used => ?_⟩
  · rw [sound_proc sound, sound_proc h, keeps.rest]
  · rw [free_iff sound, free_iff h, owner]
  · refine untouched_of_frozen sound' (fun page eq => (keeps'.owner x _ (by simp [Family])).mpr eq) ?_
    rintro (family | out)
    · rw [free_iff h] at used
      exact used (free_of_family h inv.spare family)
    · exact (h.managed x).mpr managed out

section
open FsMachine FsKeep

lemma outstanding_blind : Blind Fs.outstanding :=
  ⟨fun _ _ => rfl, fun _ _ => rfl, fun _ _ => rfl, fun _ _ => rfl, fun _ _ _ _ => rfl⟩

lemma op_modInode (k h) : FsKeep.Kept Fs.outstanding (modInode k h) := kept_modify fun _ => rfl

lemma op_acquiresleep (k) : FsKeep.Kept Fs.outstanding (acquiresleep k) :=
  kept_get fun _ => kept_ite kept_throw (op_modInode k _)

lemma op_ilock (k) : FsKeep.Kept Fs.outstanding (ilock k) :=
  kept_get fun _ => kept_ite kept_throw ((op_acquiresleep k).bind fun _ =>
    kept_ite kept_pure ((op_modInode k _).bind fun _ => kept_ite kept_throw kept_pure))

lemma op_iput (k) : FsKeep.Kept Fs.outstanding (iput sb k) :=
  kept_get fun _ => .bind (kept_ite ((op_acquiresleep k).bind fun _ =>
    (kept_itrunc outstanding_blind sb k).bind fun _ => (kept_modCopy outstanding_blind _).bind fun _ =>
      (kept_iupdate outstanding_blind sb k).bind fun _ => op_modInode k _) kept_pure)
    fun _ => op_modInode k _

lemma op_iunlock (k) : FsKeep.Kept Fs.outstanding (iunlock k) :=
  kept_get fun _ => kept_ite kept_throw (op_modInode k _)

lemma op_iunlockput (k) : FsKeep.Kept Fs.outstanding (iunlockput sb k) := (op_iunlock k).bind fun _ => op_iput k

lemma op_namexFrom (parent fuel k path name) :
    FsKeep.Kept Fs.outstanding (namexFrom sb parent fuel k path name) := by
  induction fuel generalizing k path name with
  | zero => exact kept_throw
  | succ fuel ih =>
    unfold namexFrom
    cases skipelem path with
    | none => exact kept_ite ((op_iput _).bind fun _ => kept_pure) kept_pure
    | some element =>
      refine (op_ilock k).bind fun _ => kept_get fun _ => kept_ite
        ((op_iunlockput k).bind fun _ => kept_pure) (kept_ite ((op_iunlock k).bind fun _ => kept_pure)
        ((kept_dirlookup outstanding_blind sb k _).bind fun r => ?_))
      cases r with
      | none => exact (op_iunlockput k).bind fun _ => kept_pure
      | some found => exact (op_iunlockput k).bind fun _ => ih _ _ _

lemma op_namei (cwd path) : FsKeep.Kept Fs.outstanding (namei sb cwd path) := by
  refine .bind (.bind ?_ fun _ => op_namexFrom _ _ _ _ _) fun _ => kept_pure
  exact kept_ite (kept_iget outstanding_blind _) ((kept_idup outstanding_blind _).bind fun _ => kept_pure)

lemma op_readAll (k reads) : FsKeep.Kept Fs.outstanding (FsCalls.readAll sb k reads) := by
  induction reads with
  | nil => exact kept_pure
  | cons read reads ih => exact (kept_readi outstanding_blind sb k _ _ _).bind fun _ => ih

variable {m : Nat} {files files' : FsCalls.State m}

/-- `exec` opens one operation and closes it, and only the inodes change. -/
lemma execFile_ensures (path reads) : Ensures (FsCalls.execFile sb q path reads) files fun _ t =>
    t.proc = files.proc ∧ t.ftable = files.ftable ∧ t.fs.outstanding = files.fs.outstanding := by
  have closed : ∀ u, u.outstanding = files.fs.outstanding + 1 →
    Ensures endOp u fun _ t => t.outstanding = files.fs.outstanding := by
    intro u open_ _ t ran
    cases ran
    change u.outstanding - 1 = _
    omega
  intro _ t ran
  rw [FsCalls.execFile, bind_of_eq rfl] at ran
  refine Exists.elim ((FileBytes.onFs_safe (Q := fun _ fs => fs.outstanding = files.fs.outstanding)
    (Ensures.safe ?_)).ensures _ t ran) ?_
  · refine Ensures.bind (Q := fun _ u => u.outstanding = files.fs.outstanding + 1) ?_ fun _ u opened => ?_
    · intro _ u ran
      cases ran
      rfl
    · refine (op_namei _ path u).bind fun r v named => ?_
      cases r with
      | none => exact closed v (named.trans opened)
      | some ip =>
        refine (op_ilock ip v).bind fun _ w locked => (op_readAll ip reads w).bind fun _ x read =>
          (op_iunlockput ip x).bind fun _ y put => closed y ?_
        rw [put, read, locked, named, opened]
  · rintro fs ⟨rfl, same⟩
    exact ⟨rfl, rfl, same⟩

structure LetGo (files files' : FsCalls.State m) : Prop where
  refs : ∀ k, (files'.fs.itable k).ref = (files.fs.itable k).ref
  locks : ∀ k, (files'.fs.itable k).lock = false
  operation : files'.fs.outstanding = files.fs.outstanding

lemma execFile_letGo (root : rootIno < sb.ninodes) (inv : FsRun.Inv sb O files)
    (step : FsCalls.Step sb files (.exec q path reads) files') :
    LetGo files files' := by
  obtain ⟨inv', -⟩ := FsSystem.step_done root inv step
  have facts : Ensures (FsCalls.perform sb (.exec q path reads)) files fun _ t =>
    t.proc = files.proc ∧ t.ftable = files.ftable ∧ t.fs.outstanding = files.fs.outstanding :=
    (execFile_ensures path reads).bind fun _ t post => by
      refine Returns.ensures (returns_pure ?_)
      exact post
  unfold FsCalls.Step FsCalls.next at step
  split_ifs at step
  split at step
  · rename_i r t ran
    obtain rfl := Option.some.inj step
    obtain ⟨proc, ftable, operation⟩ := facts r t ran
    have same : FsRun.uses t = FsRun.uses files := by
      funext k
      rw [FsRun.uses, FsRun.uses, proc, ftable]
    refine ⟨fun k => ?_, fun k => congrFun inv'.unlocked k, operation⟩
    rw [inv'.sound.table.ref, inv.sound.table.ref, same]
  · cases step

end

/-- `exec` fails and changes nothing, or it succeeds; it ends without a panic, and either way it
lets go of the program file. -/
theorem exec_all_or_nothing (ok : Consistent B s) (live : (s.proc p).state ≠ .unused)
    (fs : List UInt8 → Option (List UInt8)) (path : List UInt8) (argv : List (List UInt8)) :
    (∃ r t, exec B fs p path argv s = .ok (r, t) ∧ (r = -1 ∧ SameMemory B s t ∧
          (∀ va, lookup B t (s.proc p).pagetable va = lookup B s (s.proc p).pagetable va ∧
            userByte B t (s.proc p).pagetable va = userByte B s (s.proc p).pagetable va) ∨
        r = argv.length)) ∧
    ∀ {m : Nat} {sb : FsMachine.Super} {bitmap : Nat → Bool} {dinode : Nat → FsMachine.Dinode}
      {block : Nat → Bytes Params.bsize} {acts : List (FsCalls.Act (m + 1))}
      {files files' : FsCalls.State (m + 1)} {q : Fin (m + 1)} {reads : List (Nat × Nat)},
      FsDisk.Disk sb bitmap block dinode → FsMachine.rootIno < sb.ninodes →
      (dinode FsMachine.rootIno).type = .dir →
      Runs.Run (FsCalls.Step sb) (FsSystem.boot m bitmap dinode block) acts files →
      FsCalls.Step sb files (.exec q path reads) files' → LetGo files files' := by
  refine ⟨?_, fun disk root isDir run step => ?_⟩
  · obtain ⟨g, args, h, inv⟩ := ok
    rw [sound_proc h] at live
    obtain ⟨r, t, ran, ⟨failed, same⟩ | done⟩ := exec_same_memory h inv live fs path argv
    · exact ⟨r, t, ran, .inl ⟨failed, same, same.used.view h inv live⟩⟩
    · exact ⟨r, t, ran, .inr done⟩
  · exact execFile_letGo root (FsSystem.run_inv root (FsSystem.inv_boot disk root isDir) run) step

theorem exec_all_or_nothing_boot : ∃ s t : Kernel 2, Reachable smallBoard 0 s ∧ (s.proc 0).state ≠ .unused ∧
    exec smallBoard (fun _ => none) 0 [] [] s = .ok (-1, t) ∧ SameMemory smallBoard s t := by
  obtain ⟨s, -, booted, live, -, -⟩ := small_boots
  have reach : Reachable smallBoard 0 s := ⟨s, [], booted, .nil s⟩
  have used : (s.proc 0).state ≠ .unused := by simp [live]
  obtain ⟨⟨r, t, ran, outcome⟩, -⟩ := exec_all_or_nothing (reachable_consistent reach) used (fun _ => none) [] []
  have failed : exec smallBoard (fun _ => none) 0 [] [] s = .ok (-1, s) := rfl
  rw [failed] at ran
  cases ran
  rcases outcome with ⟨-, same, -⟩ | bad
  · exact ⟨s, s, reach, used, failed, same⟩
  · exact absurd bad (by decide)

end Xv6.ExecAtomic
