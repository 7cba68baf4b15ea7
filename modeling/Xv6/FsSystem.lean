import Mathlib.Algebra.BigOperators.Group.Finset.Piecewise
import Xv6.FsRun

/-! Runs of the file system calls. After the boot one process is in the root directory
of the disk; whatever calls follow, by whichever processes, and however they fail, the
inode table, the inodes, the free map and the blocks agree in between. -/

namespace Xv6.FsSystem

open Params FsMachine FsTree FsEdit FsBlocks FsData FsDisk FsTable FsName FsLocks FsOps FsCalls FsRun FsImage
  Total Runs
open FsCalls (next)

variable {n : Nat}

def boot (n : Nat) (bitmap : Nat → Bool) (dinode : Nat → Dinode)
    (block : Nat → ByteFields.Bytes bsize) : State (n + 1) where
  fs := {
    bitmap := bitmap
    dinode := dinode
    block := block
    itable := fun k => if k = 0 then ⟨rootIno, 1, false, false, Dinode.zero⟩
      else ⟨0, 0, false, false, Dinode.zero⟩
    outstanding := 0
    lh := [] }
  ftable _ := ⟨.none, 0, false, false, 0, 0, 0⟩
  proc p := ⟨decide (p = 0), 0, fun _ => none⟩

def Orphan (dinode : Nat → Dinode) (i : Nat) : Prop := (dinode i).type ≠ .free ∧ (dinode i).nlink = 0

variable {sb : Super} {bitmap : Nat → Bool} {dinode : Nat → Dinode}
  {block : Nat → ByteFields.Bytes bsize}

lemma uses_boot (k) : uses (boot n bitmap dinode block) k = if k = 0 then 1 else 0 := by
  have files : ∀ f, fileUse ((boot n bitmap dinode block).ftable f) k = 0 :=
    fun f => if_neg fun both => both.1 rfl
  have procs : ∀ p, cwdUse ((boot n bitmap dinode block).proc p) k = if p = 0 then if k = 0 then 1 else 0 else 0 := by
    intro p
    by_cases hp : p = 0
    · by_cases hk : k = 0
      · simp [cwdUse, boot, hp, hk]
      · simp [cwdUse, boot, hp, hk, Ne.symm hk]
    · simp [cwdUse, boot, hp]
  unfold uses
  simp [files, procs]

lemma inv_boot (disk : Disk sb bitmap block dinode) (root : rootIno < sb.ninodes)
    (isDir : (dinode rootIno).type = .dir) :
    Inv sb (Orphan dinode) (boot n bitmap dinode block) := by
  have only : ∀ k, 0 < uses (boot n bitmap dinode block) k → k = 0 := by
    intro k pos
    rw [uses_boot] at pos
    by_contra other
    rw [if_neg other] at pos
    omega
  refine ⟨⟨disk, ?_, ?_, ?_, ?_, ?_⟩, ?_, fun _ _ => rfl, ?_, ?_⟩
  · intro k
    rw [uses_boot]
    by_cases hk : k = 0 <;> simp [boot, hk]
  · intro k l posK posL _
    rw [only k posK, only l posL]
  · intro k pos
    rw [only k pos]
    exact root
  · intro k pos valid
    rw [only k pos] at valid
    cases valid
  · intro i known used zero
    exact absurd ⟨used, zero⟩ known
  · intro k pos
    rw [only k pos]
    change (dinode rootIno).type ≠ .free
    rw [isDir]
    decide
  · intro f isIno
    cases isIno
  · funext k
    by_cases hk : k = 0 <;> simp [locks, boot, hk]

variable {E : String → Prop} {O : Nat → Prop} {s t : State n}

/-- Every call, on every path, leaves the invariant; where the entries are in order, without a
lookup that meets a free inode. -/
lemma perform_safe (tame : Benign E) (look : Lookups E s.fs)
    (fits : E "ilock: no type" ∨ ∀ i, (tree s.fs).nlink i ≠ -1)
    (links : E "unlink: nlink < 1" ∨ Removable (tree s.fs)) (root : rootIno < sb.ninodes)
    (inv : Inv sb O s) (a) (enabled : Enabled s a) :
    Safe E (perform sb a) s fun _ => Done sb O s := by
  obtain ⟨live, free⟩ := enabled
  cases a with
  | «open» p path omode => exact sysOpen_safe tame look root inv live path omode
  | mkdir p path => exact sysMake_safe tame look root inv live path (by decide) 0 0
  | mknod p path major minor => exact sysMake_safe tame look root inv live path (by decide) major minor
  | link p old new => exact sysLink_safe tame look root inv live fits old new
  | unlink p path => exact sysUnlink_safe tame look root inv live links path
  | chdir p path => exact sysChdir_safe tame look root inv live path
  | close p fd => exact sysClose_safe tame inv fd
  | dup p fd => exact sysDup_safe tame inv fd
  | read p fd dst count answer => exact sysRead_safe tame inv fd dst count answer
  | write p fd src count answer => exact sysWrite_safe tame inv fd src count answer
  | fstat p fd ok => exact sysFstat_safe tame inv fd ok
  | exec p path reads =>
    exact (execFile_safe tame look root inv live path reads).bind fun _ _ done => safe_pure done
  | fork p np => exact (fork_safe tame inv live free).bind fun _ _ done => safe_pure done
  | exit p => exact (exit_safe tame inv live).bind fun _ _ done => safe_pure done

lemma step_done (root : rootIno < sb.ninodes) (inv : Inv sb O s) {a : Act n} (step : Step sb s a t) :
    Done sb O s t := by
  unfold Step next at step
  split at step
  · rename_i enabled
    have safe := perform_safe (fun _ _ => trivial) (.inl trivial) (.inl trivial) (.inl trivial) root inv a enabled
    split at step
    · rename_i r t' result
      cases step
      exact safe.ensures _ _ result
    · cases step
  · cases step

lemma run_inv (root : rootIno < sb.ninodes) (inv : Inv sb O s) {acts : List (Act n)}
    (run : Run (Step sb) s acts t) : Inv sb O t :=
  run.invariant _ (fun _ _ _ inv step => (step_done root inv step).1) inv

variable {acts : List (Act (n + 1))} {t : State (n + 1)}

/-- The holders of a block are told by the free map: no two places hold the same block, a bit
is set for the metadata and for what is held, and no file has a hole. -/
theorem blocks_owned (disk : Disk sb bitmap block dinode) (root : rootIno < sb.ninodes)
    (isDir : (dinode rootIno).type = .dir)
    (run : Run (Step sb) (boot n bitmap dinode block) acts t) :
    Owned sb t.fs.bitmap (ptr t.fs.block t.fs.dinode) ∧ (∀ k, 0 < (t.fs.itable k).ref → (t.fs.itable k).valid = true →
        (t.fs.itable k).copy = t.fs.dinode (t.fs.itable k).inum) ∧
      (∀ i, (t.fs.dinode i).type ≠ .free → Whole t.fs.block (t.fs.dinode i)) ∧
      ∀ a, Enabled t a → perform sb a t ≠ .error "freeing free block" := by
  have inv := run_inv root (inv_boot disk root isDir) run
  refine ⟨inv.sound.disk.owned, fun k pos valid => ?_, inv.sound.disk.whole, fun a enabled panic => ?_⟩
  · rw [inv.sound.table.ref] at pos
    exact inv.sound.clean pos valid
  · have safe := perform_safe (E := fun e => e ≠ "freeing free block") (fun _ other eq => other (by simp [eq]))
      (.inl (by decide)) (.inl (by decide)) (.inl (by decide)) root inv a enabled
    rw [Safe, panic] at safe
    exact safe rfl

def start : State 1 := boot 0 image.bitmap image.dinode image.block

def writing : List (Act 1) := [.open 0 (some [120]) (oCreate ||| oRdwr), .write 0 0 (fun _ => some 7) 5 0]

lemma exec_writing : ((exec (next super) start writing).map fun t =>
    ((t.fs.dinode 2).type, (t.fs.dinode 2).size, t.fs.bitmap 47, t.fs.bitmap 48)) =
    some (.file, 5, true, false) := by
  decide +kernel

theorem blocks_owned_writing : ∃ t, Run (Step super) start writing t ∧ t.fs.bitmap 47 = true ∧
    Owned super t.fs.bitmap (ptr t.fs.block t.fs.dinode) := by
  obtain ⟨t, eq, facts⟩ := Option.map_eq_some_iff.mp exec_writing
  have run := run_of_exec (next super) eq
  exact ⟨t, run, congrArg (fun x => x.2.2.1) facts, (blocks_owned disk_image (by decide) rfl run).1⟩

/-- The slots of the inode table are counted by the current directories and the open files. A call
frees only inodes without a link that nobody uses, and leaves none of them, unless the disk came
with it. -/
theorem inode_refs_exact (disk : Disk sb bitmap block dinode) (root : rootIno < sb.ninodes)
    (isDir : (dinode rootIno).type = .dir)
    (run : Run (Step sb) (boot n bitmap dinode block) acts t) :
    (∀ k l, 0 < (t.fs.itable k).ref → 0 < (t.fs.itable l).ref → (t.fs.itable k).inum = (t.fs.itable l).inum → k = l) ∧
      (∀ k, (t.fs.itable k).ref = uses t k) ∧
      (∀ k, (t.fs.itable k).lock = false) ∧
      (∀ k, 0 < (t.fs.itable k).ref → (t.fs.dinode (t.fs.itable k).inum).type ≠ .free) ∧
      (∀ i, (t.fs.dinode i).type ≠ .free → (t.fs.dinode i).nlink = 0 →
        (∃ k, 0 < (t.fs.itable k).ref ∧ (t.fs.itable k).inum = i) ∨ Orphan dinode i) ∧
      Owned sb t.fs.bitmap (ptr t.fs.block t.fs.dinode) ∧
      ∀ a u, Step sb t a u → Outcome (fun _ => False) (tree t.fs) (tree u.fs) := by
  have inv := run_inv root (inv_boot disk root isDir) run
  have ref := inv.sound.table.ref
  refine ⟨fun k l posK posL => ?_, ref, fun k => congrFun inv.unlocked k, fun k pos => ?_,
    fun i used zero => ?_, inv.sound.disk.owned, fun a u step => (step_done root inv step).outcome⟩
  · rw [ref] at posK posL
    exact inv.sound.table.uniq k l posK posL
  · rw [ref] at pos
    exact inv.alive k pos
  · by_cases known : Orphan dinode i
    · exact .inr known
    · obtain ⟨k, pos, inum, -⟩ := inv.sound.table.held i known used zero
      rw [← ref] at pos
      exact .inl ⟨k, pos, inum⟩

def unlinking : List (Act 1) := [.open 0 (some [120]) (oCreate ||| oRdwr), .unlink 0 (some [120])]

lemma exec_unlinking : ((exec (next super) start unlinking).map fun t =>
    ((t.fs.dinode 2).type, (t.fs.dinode 2).nlink, (t.fs.itable 1).inum, (t.fs.itable 1).ref)) =
    some (.file, 0, 2, 1) := by
  decide +kernel

theorem inode_refs_exact_unlinking : ∃ t, Run (Step super) start unlinking t ∧
    (t.fs.dinode 2).nlink = 0 ∧ uses t 1 = 1 := by
  obtain ⟨t, eq, facts⟩ := Option.map_eq_some_iff.mp exec_unlinking
  have run := run_of_exec (next super) eq
  have ref := (inode_refs_exact disk_image (by decide) rfl run).2.1 1
  exact ⟨t, run, congrArg (fun x => x.2.1) facts, ref.symm.trans (congrArg (fun x => x.2.2.2) facts)⟩

end Xv6.FsSystem
