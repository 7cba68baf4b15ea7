import Mathlib.Algebra.Order.BigOperators.Group.Finset
import Xv6.Counting
import Xv6.FileBytes
import Xv6.FsOps

/-! The calls of all processes. A slot of the inode table is used by the processes
whose current directory it is and by the open files that point to it; every call leaves
the file system sound for exactly these uses, on all of its paths. -/

namespace Xv6.FsRun

open Params FsMachine FsTree FsEdit FsBlocks FsData FsDisk FsTable FsDir FsName FsLocks FsOps Total
  Counting FsCalls
open Function (update update_eq_self update_of_ne update_self)
open FileBytes (onFs_safe advance_safe)

variable {n : Nat}

def cwdUse (proc : Proc) (k : Slot) : Nat := if proc.live = true ∧ proc.cwd = k then 1 else 0

def fileUse (file : File) (k : Slot) : Nat := if file.type ≠ .none ∧ file.ip = k then 1 else 0

def uses (s : State n) (k : Slot) : Nat :=
  ∑ p, cwdUse (s.proc p) k + ∑ f, fileUse (s.ftable f) k

variable {s : State n} {p : Fin n} {f : Fin nfile} {k : Slot}

lemma uses_file (s : State n) (f) (file : File) (k) :
    uses { s with ftable := update s.ftable f file } k + fileUse (s.ftable f) k = uses s k + fileUse file k := by
  have moved := sum_update (fun file => fileUse file k) s.ftable f file
  unfold uses
  dsimp only at moved ⊢
  omega

lemma uses_proc (s : State n) (p) (proc : Proc) (k) :
    uses { s with proc := update s.proc p proc } k + cwdUse (s.proc p) k = uses s k + cwdUse proc k := by
  have moved := sum_update (fun proc => cwdUse proc k) s.proc p proc
  unfold uses
  dsimp only at moved ⊢
  omega

lemma cwdUse_le (s : State n) (p k) : cwdUse (s.proc p) k ≤ ∑ q, cwdUse (s.proc q) k :=
  Finset.single_le_sum (f := fun q => cwdUse (s.proc q) k) (fun _ _ => Nat.zero_le _) (Finset.mem_univ p)

lemma fileUse_le (s : State n) (f k) : fileUse (s.ftable f) k ≤ ∑ g, fileUse (s.ftable g) k :=
  Finset.single_le_sum (f := fun g => fileUse (s.ftable g) k) (fun _ _ => Nat.zero_le _) (Finset.mem_univ f)

lemma uses_cwd (live : (s.proc p).live = true) : 0 < uses s (s.proc p).cwd := by
  have here : cwdUse (s.proc p) (s.proc p).cwd = 1 := if_pos ⟨live, rfl⟩
  have le := cwdUse_le s p (s.proc p).cwd
  unfold uses
  omega

lemma uses_open (isOpen : (s.ftable f).type ≠ .none) : 0 < uses s (s.ftable f).ip := by
  have here : fileUse (s.ftable f) (s.ftable f).ip = 1 := if_pos ⟨isOpen, rfl⟩
  have le := fileUse_le s f (s.ftable f).ip
  unfold uses
  omega

structure Inv (sb : Super) (orphan : Nat → Prop) (s : State n) : Prop where
  sound : Sound sb orphan s.fs (uses s)
  alive : Alive (uses s) s.fs
  closed : ∀ f, (s.ftable f).ref = 0 → (s.ftable f).type = .none
  readOnly : ∀ f, (s.ftable f).type = .inode → (s.ftable f).writable = true →
    (tree s.fs).typ (s.fs.itable (s.ftable f).ip).inum ≠ .dir
  unlocked : locks s.fs = fun _ => false

variable {E : String → Prop} {sb : Super} {O : Nat → Prop} {t u : State n}

lemma Inv.known (inv : Inv sb O s) (live : (s.proc p).live = true) : Known E s.fs (s.proc p).cwd :=
  .inl (inv.alive _ (uses_cwd live))

lemma Inv.move (inv : Inv sb O s) (base) (le : ∀ k, base k ≤ uses s k) (now : uses t = refs)
    (sound : Sound sb O t.fs refs)
    (keeps : Keeps base s.fs t.fs) (out : Outcome (InUse base s.fs) (tree s.fs) (tree t.fs))
    (new : ∀ k, 0 < refs k → 0 < base k ∨ (tree t.fs).typ (t.fs.itable k).inum ≠ .free)
    (closed : ∀ f, (t.ftable f).ref = 0 → (t.ftable f).type = .none)
    (files : ∀ f, (t.ftable f).type = .inode → (t.ftable f).writable = true →
      (0 < base (t.ftable f).ip ∧ (s.ftable f).type = .inode ∧ (s.ftable f).writable = true ∧
        (s.ftable f).ip = (t.ftable f).ip) ∨
      (tree t.fs).typ (t.fs.itable (t.ftable f).ip).inum ≠ .dir)
    (free : locks t.fs = fun _ => false) : Inv sb O t := by
  have kept : ∀ k, 0 < base k → (t.fs.itable k).inum = (s.fs.itable k).inum ∧
    (tree t.fs).typ (s.fs.itable k).inum = (tree s.fs).typ (s.fs.itable k).inum := by
    intro k pos
    exact ⟨keeps.inum k pos, out.typ ⟨k, pos, rfl⟩ (inv.alive k (pos.trans_le (le k)))⟩
  subst now
  refine ⟨sound, fun k pos => ?_, closed, fun f isIno writable => ?_, free⟩
  · rcases new k pos with old | here
    · rw [(kept k old).1, (kept k old).2]
      exact inv.alive k (old.trans_le (le k))
    · exact here
  · rcases files f isIno writable with ⟨pos, isInode', writable', same⟩ | here
    · rw [(kept _ pos).1, (kept _ pos).2, ← same]
      exact inv.readOnly f isInode' writable'
    · exact here

lemma Inv.onFs (inv : Inv sb O s) (sound : Sound sb O fs (uses s))
    (keeps : Keeps (uses s) s.fs fs) (out : Outcome (InUse (uses s) s.fs) (tree s.fs) (tree fs))
    (free : locks fs = locks s.fs) : Inv sb O { s with fs := fs } := by
  refine inv.move (uses s) (fun _ => le_rfl) rfl sound keeps out (fun k pos => .inl pos) inv.closed
    (fun f isIno writable => .inl ⟨uses_open (by rw [isIno]; decide), isIno, writable, rfl⟩) ?_
  rw [free, inv.unlocked]

/-- The result of a call: a change, during which nothing that was in use is freed, or the
end of some uses. -/
def Done (sb : Super) (orphan : Nat → Prop) (s t : State n) : Prop :=
  Inv sb orphan t ∧ (Outcome (InUse (uses s) s.fs) (tree s.fs) (tree t.fs) ∨
    Reaps (fun _ => False) (tree s.fs) (tree t.fs))

lemma Inv.done (inv : Inv sb O s) : Done sb O s s := ⟨inv, .inr .refl⟩

lemma Done.outcome (h : Done sb O s t) : Outcome (fun _ => False) (tree s.fs) (tree t.fs) := by
  rcases h.2 with out | reaps
  · exact out.mono fun _ => False.elim
  · exact .of_reaps reaps

section
def begun (s : Fs) : Fs := { s with outstanding := s.outstanding + 1 }

def ended (s : Fs) : Fs := { s with
  outstanding := s.outstanding - 1
  lh := if s.outstanding = 1 then [] else s.lh }

lemma sound_begun (h : Sound sb O fs refs) : Sound sb O (begun fs) refs := ⟨h.disk, h.table⟩

lemma sound_ended (h : Sound sb O fs refs) : Sound sb O (ended fs) refs := ⟨h.disk, h.table⟩

structure Good (sb : Super) (orphan : Nat → Prop) (refs : Slot → Nat) (s t : Fs) : Prop where
  sound : Sound sb orphan t refs
  keeps : Keeps refs s t
  out : Outcome (InUse refs s) (tree s) (tree t)

lemma Good.operation (h : Good sb O refs (begun fs) fs') : Good sb O refs fs (ended fs') :=
  ⟨sound_ended h.sound, ⟨h.keeps.inum, h.keeps.valid⟩, h.out⟩

lemma Good.of_quiet (sound : Sound sb O fs' refs) (quiet : Quiet refs fs fs') : Good sb O refs fs fs' :=
  ⟨sound, quiet.keeps, .of_reaps quiet.reaps⟩

lemma Good.quiet (h : Keeps refs fs fs')
    (out : Outcome (InUse refs fs) (tree fs) (tree fs')) (sound : Sound sb O fs'' refs)
    (quiet : Quiet refs fs' fs'') : Good sb O refs fs fs'' :=
  ⟨sound, h.trans quiet.keeps, out.after (quiet.reaps.mono fun _ use => h.inUse.mpr use)⟩

lemma kept_beginOp : LocksKept beginOp := kept_modify fun _ => rfl

lemma kept_endOp : LocksKept endOp := kept_modify fun _ => rfl

lemma onFs_done (inv : Inv sb O s) (h : Safe E g s.fs fun _ fs => Good sb O (uses s) s.fs fs) (kept : LocksKept g) :
    Safe E (onFs g) s fun _ => Done sb O s := by
  refine (onFs_safe (safe_and h (kept s.fs))).mono fun r t post => ?_
  obtain ⟨fs, rfl, good, same⟩ := post
  exact ⟨inv.onFs good.sound good.keeps good.out same, .inl good.out⟩

section
variable (tame : Benign E) (look : Lookups E s.fs) (root : rootIno < sb.ninodes)
  (inv : Inv sb O s) (live : (s.proc p).live = true)
include tame look root inv live

lemma sysLink_safe (fits : E "ilock: no type" ∨ ∀ i, (tree s.fs).nlink i ≠ -1) (old new) :
    Safe E (sysLink sb p old new) s fun _ => Done sb O s := by
  cases old with
  | none => exact safe_pure inv.done
  | some old =>
    cases new with
    | none => exact safe_pure inv.done
    | some new =>
      refine safe_bind_eq rfl (onFs_done inv (safe_mod ?_)
        (kept_beginOp.bind fun _ => (kept_link sb _ old new).bind fun _ => kept_endOp.bind fun _ => kept_pure))
      refine (link_safe tame (sound_begun inv.sound) root (uses_cwd live) look (inv.known live) fits old new).bind
        fun _ fs post => safe_mod (safe_pure ?_)
      exact Good.operation ⟨post.1, post.2.1, post.2.2⟩

lemma sysUnlink_safe (links : E "unlink: nlink < 1" ∨ Removable (tree s.fs)) (path) :
    Safe E (sysUnlink sb p path) s fun _ => Done sb O s := by
  cases path with
  | none => exact safe_pure inv.done
  | some path =>
    refine safe_bind_eq rfl (onFs_done inv (safe_mod ?_)
      (kept_beginOp.bind fun _ => (kept_unlink sb _ path).bind fun _ => kept_endOp.bind fun _ => kept_pure))
    refine (unlink_safe tame (sound_begun inv.sound) root (uses_cwd live) look (inv.known live) links path).bind
      fun _ fs post => safe_mod (safe_pure ?_)
    exact Good.operation ⟨post.1, post.2.1, post.2.2⟩

lemma sysMake_safe (path) (real : type ≠ .free) (major minor : Int16) :
    Safe E (sysMake sb p path type major minor) s fun _ => Done sb O s := by
  refine safe_bind_eq rfl ?_
  have done : ∀ r fs, Good sb O (uses s) (begun s.fs) fs →
    Safe E (do endOp; pure r : F Int) fs fun _ fs => Good sb O (uses s) s.fs fs :=
    fun r fs good => safe_mod (safe_pure good.operation)
  have finish : ∀ r, LocksKept (do endOp; pure r : F Int) := fun r => kept_endOp.bind fun _ => kept_pure
  cases path with
  | none =>
    refine onFs_done inv (safe_mod (safe_pure_bind (done (-1) _ ?_)))
      (kept_beginOp.bind fun _ => kept_pure.bind finish)
    exact .of_quiet (sound_begun inv.sound) .refl
  | some path =>
    refine onFs_done inv (safe_mod ?_) (kept_beginOp.bind fun _ => ?_)
    · refine (create_safe tame (sound_begun inv.sound) inv.alive root (uses_cwd live) look path real
        major minor).bind fun r t post => ?_
      obtain ⟨keeps, out, result⟩ := post
      cases r with
      | none => exact safe_pure_bind (done (-1) t ⟨result, keeps, out⟩)
      | some ip =>
        refine (iunlockput_safe tame result.1).bind fun _ u post => safe_pure_bind (done 0 u ?_)
        exact .quiet keeps out post.1 post.2.1
    · intro s
      refine (create_locks sb _ path type major minor s).bind fun r t post => ?_
      cases r with
      | none =>
        intro a u eq
        exact ((kept_pure.bind finish) t a u eq).trans post
      | some ip =>
        obtain ⟨free, locked⟩ := post
        refine (iunlockput_locks sb ip t).bind fun _ u freed a v eq => ?_
        rw [(kept_pure.bind finish) u a v eq, freed, locked, unlock_undo free]

lemma execFile_safe (path reads) : Safe E (execFile sb p path reads) s fun _ => Done sb O s := by
  refine safe_bind_eq rfl (onFs_done inv (safe_mod ?_)
    (kept_beginOp.bind fun _ => (kept_namei sb _ path).bind fun r => ?_))
  · refine (namei_safe tame (sound_begun inv.sound) root (uses_cwd live) look (inv.known live) path).bind
      fun r t post => ?_
    cases r with
    | none => exact safe_modify (Good.of_quiet post.1 post.2).operation
    | some ip =>
      obtain ⟨sound0, quiet0, known0⟩ := post
      refine (ilock_safe tame sound0 bump_gt known0).bind fun _ t1 post => ?_
      obtain ⟨sound1, keeps1, on1, valid1⟩ := post
      refine safe_bind_eq (readAll_eq (sound1.whole bump_gt valid1) reads) ?_
      refine (iunlockput_safe tame sound1).bind fun _ t2 post => safe_modify ?_
      obtain ⟨sound2, quiet2, -⟩ := post
      have quiet := quiet0.trans ((Quiet.of_onTable keeps1 on1).of_bump.trans quiet2)
      exact (Good.of_quiet sound2 quiet).operation
  · cases r with
    | none => exact kept_endOp
    | some ip =>
      refine locked_between fun s => (kept_readAll sb ip reads s).bind fun _ t same => ?_
      refine (iunlockput_locks sb ip t).bind fun _ u freed a v eq => ?_
      rw [kept_endOp u a v eq, freed, same]

end

end

abbrev SameProcs (s t : State n) : Prop :=
  ∀ q, (t.proc q).live = (s.proc q).live ∧ (t.proc q).cwd = (s.proc q).cwd

abbrev SameFiles (s t : State n) : Prop :=
  ∀ g, (t.ftable g).type = (s.ftable g).type ∧ (t.ftable g).ip = (s.ftable g).ip ∧
    (t.ftable g).writable = (s.ftable g).writable

lemma uses_congr (procs : SameProcs s t)
    (files : ∀ g, (t.ftable g).type = (s.ftable g).type ∧ (t.ftable g).ip = (s.ftable g).ip) :
    uses t = uses s := by
  funext k
  simp [uses, cwdUse, fileUse, (procs _).1, (procs _).2, (files _).1, (files _).2]

lemma Inv.tables (inv : Inv sb O s) (fs : t.fs = s.fs) (procs : SameProcs s t) (files : SameFiles s t)
    (closed : ∀ g, (t.ftable g).ref = 0 → (t.ftable g).type = .none) : Inv sb O t := by
  have same := uses_congr procs fun g => ⟨(files g).1, (files g).2.1⟩
  refine ⟨?_, ?_, closed, fun g isIno writable => ?_, ?_⟩
  · rw [fs, same]
    exact inv.sound
  · rw [fs, same]
    exact inv.alive
  · obtain ⟨type, ip, write⟩ := files g
    rw [fs, ip]
    exact inv.readOnly g (type ▸ isIno) (write ▸ writable)
  · rw [fs]
    exact inv.unlocked

lemma Inv.setRef (inv : Inv sb O s) (f) (used : ref ≠ 0) :
    Inv sb O { s with ftable := update s.ftable f { s.ftable f with ref := ref } } := by
  refine inv.tables rfl (fun _ => ⟨rfl, rfl⟩) (fun g => ?_) fun g zero => ?_
  · by_cases hg : g = f
    · subst hg
      simp
    · simp [update_of_ne hg]
  · by_cases hg : g = f
    · subst hg
      simp only [update_self] at zero
      exact absurd zero used
    · simp only [update_of_ne hg] at zero ⊢
      exact inv.closed g zero

lemma uses_split (live : (s.proc p).live = true) :
    uses s = bump (fun k => uses s k - cwdUse (s.proc p) k) (s.proc p).cwd := by
  have pos := uses_cwd live
  funext k
  by_cases hk : k = (s.proc p).cwd
  · subst hk
    have here : cwdUse (s.proc p) (s.proc p).cwd = 1 := if_pos ⟨live, rfl⟩
    rw [bump_self, here]
    omega
  · have there : cwdUse (s.proc p) k = 0 := if_neg fun both => hk both.2.symm
    rw [bump_of_ne hk, there, Nat.sub_zero]

lemma uses_moved (live : (s.proc p).live = true) (proc : Proc) (alive : proc.live = true) :
    uses { s with proc := update s.proc p proc } = bump (fun k => uses s k - cwdUse (s.proc p) k) proc.cwd := by
  funext k
  have moved := uses_proc s p proc k
  have old := congrFun (uses_split live) k
  by_cases hk : k = proc.cwd
  · subst hk
    have here : cwdUse proc proc.cwd = 1 := if_pos ⟨alive, rfl⟩
    have le : cwdUse (s.proc p) proc.cwd ≤ uses s proc.cwd := by
      unfold uses
      have := Finset.single_le_sum (f := fun q => cwdUse (s.proc q) proc.cwd)
        (fun _ _ => Nat.zero_le _) (Finset.mem_univ p)
      omega
    rw [bump_self]
    omega
  · have there : cwdUse proc k = 0 := if_neg fun both => hk both.2.symm
    rw [bump_of_ne hk]
    omega

lemma uses_left (proc : Proc) (dead : proc.live = false) (k : Slot) :
    uses { s with proc := update s.proc p proc } k = uses s k - cwdUse (s.proc p) k := by
  have moved := uses_proc s p proc k
  have none : cwdUse proc k = 0 := if_neg fun both => by
    rw [dead] at both
    cases both.1
  omega

lemma uses_started (dead : (s.proc p).live = false) (proc : Proc) (alive : proc.live = true) :
    uses { s with proc := update s.proc p proc } = bump (uses s) proc.cwd := by
  funext k
  have moved := uses_proc s p proc k
  have none : cwdUse (s.proc p) k = 0 := if_neg fun both => by
    rw [dead] at both
    cases both.1
  by_cases hk : k = proc.cwd
  · subst hk
    have here : cwdUse proc proc.cwd = 1 := if_pos ⟨alive, rfl⟩
    rw [bump_self]
    omega
  · have there : cwdUse proc k = 0 := if_neg fun both => hk both.2.symm
    rw [bump_of_ne hk]
    omega

lemma uses_closed (isOpen : (s.ftable f).type ≠ .none) (file : File) (shut : file.type = .none) :
    uses s = bump (uses { s with ftable := update s.ftable f file }) (s.ftable f).ip := by
  funext k
  have moved := uses_file s f file k
  have none : fileUse file k = 0 := if_neg fun both => both.1 shut
  by_cases hk : k = (s.ftable f).ip
  · subst hk
    have here : fileUse (s.ftable f) (s.ftable f).ip = 1 := if_pos ⟨isOpen, rfl⟩
    rw [bump_self]
    omega
  · have there : fileUse (s.ftable f) k = 0 := if_neg fun both => hk both.2.symm
    rw [bump_of_ne hk]
    omega

lemma uses_opened (shut : (s.ftable f).type = .none) (file : File) (isOpen : file.type ≠ .none) :
    uses { s with ftable := update s.ftable f file } = bump (uses s) file.ip := by
  funext k
  have moved := uses_file s f file k
  have none : fileUse (s.ftable f) k = 0 := if_neg fun both => both.1 shut
  by_cases hk : k = file.ip
  · subst hk
    have here : fileUse file file.ip = 1 := if_pos ⟨isOpen, rfl⟩
    rw [bump_self]
    omega
  · have there : fileUse file k = 0 := if_neg fun both => hk both.2.symm
    rw [bump_of_ne hk]
    omega

def shutAt (s : State n) (f : Fin nfile) : State n :=
  { s with ftable := Function.update s.ftable f { s.ftable f with ref := 0, type := .none } }

lemma shutAt_self : ((shutAt s f).ftable f).type = .none := by simp [shutAt]

lemma shutAt_of_ne (hg : g ≠ f) : (shutAt s f).ftable g = s.ftable g := update_of_ne hg _ _

lemma shutAt_kept (isOpen : ((shutAt s f).ftable g).type ≠ .none) : (shutAt s f).ftable g = s.ftable g :=
  shutAt_of_ne fun hg => isOpen (hg ▸ shutAt_self)

lemma Inv.shut_closed (inv : Inv sb O s) (g) (zero : ((shutAt s f).ftable g).ref = 0) :
    ((shutAt s f).ftable g).type = .none := by
  by_cases hg : g = f
  · rw [hg]
    exact shutAt_self
  · rw [shutAt_of_ne hg] at zero ⊢
    exact inv.closed g zero

lemma uses_shut (isOpen : (s.ftable f).type ≠ .none) : uses s = bump (uses (shutAt s f)) (s.ftable f).ip :=
  uses_closed isOpen _ rfl

lemma le_bump (refs ip k) : refs k ≤ bump refs ip k := by
  by_cases hk : k = ip
  · subst hk
    rw [bump_self]
    omega
  · rw [bump_of_ne hk]

lemma shut_safe (tame : Benign E) (inv : Inv sb O s) (isOpen : (s.ftable f).type ≠ .none) :
    Safe E (onFs (do beginOp; iput sb (s.ftable f).ip; endOp)) (shutAt s f) fun _ t =>
      Inv sb O t ∧ t.proc = s.proc ∧ Reaps (fun _ => False) (tree s.fs) (tree t.fs) := by
  have split := uses_shut isOpen
  have sound := inv.sound
  rw [split] at sound
  have body : Safe E (do beginOp; iput sb (s.ftable f).ip; endOp) (shutAt s f).fs fun _ fs =>
    Sound sb O fs (uses (shutAt s f)) ∧ Quiet (uses (shutAt s f)) s.fs fs ∧
    locks fs = locks s.fs := by
    refine safe_mod ?_
    refine (safe_and (iput_safe tame (sound_begun sound)) (kept_iput sb _ (begun s.fs))).bind
      fun _ fs post => safe_modify ?_
    obtain ⟨⟨sound', keeps, reaps, -⟩, same⟩ := post
    exact ⟨sound_ended sound', ⟨⟨keeps.inum, keeps.valid⟩, reaps⟩, same⟩
  refine (onFs_safe body).mono fun _ t post => ?_
  obtain ⟨fs, rfl, sound', quiet, same⟩ := post
  refine ⟨inv.move _ ?_ rfl sound' quiet.keeps (.of_reaps quiet.reaps) (fun k pos => .inl pos)
    inv.shut_closed (fun g isIno writable => .inl ?_) ?_, rfl, quiet.reaps.mono fun _ => False.elim⟩
  · intro k
    rw [split]
    exact le_bump _ _ k
  · have stays : ((shutAt s f).ftable g).type ≠ .none := by
      rw [isIno]
      decide
    have eq := shutAt_kept stays
    refine ⟨uses_open stays, ?_, ?_, ?_⟩
    · rw [← eq]
      exact isIno
    · rw [← eq]
      exact writable
    · rw [← eq]
  · rw [same]
    exact inv.unlocked

lemma fileclose_safe (tame : Benign E) (inv : Inv sb O s) (f) :
    Safe E (fileclose sb f) s fun _ t => Inv sb O t ∧ t.proc = s.proc ∧
      Reaps (fun _ => False) (tree s.fs) (tree t.fs) := by
  apply safe_get
  by_cases zero : (s.ftable f).ref < 1
  · rw [if_pos zero]
    exact safe_throw (tame _ (by decide))
  rw [if_neg zero]
  by_cases more : 1 < (s.ftable f).ref
  · rw [if_pos more]
    exact safe_modify ⟨inv.setRef f (by omega), rfl, .refl⟩
  rw [if_neg more]
  refine safe_mod ?_
  change Safe E _ (shutAt s f) _
  by_cases shut : (s.ftable f).type = .none
  · rw [if_pos shut]
    refine safe_pure ⟨inv.tables rfl (fun _ => ⟨rfl, rfl⟩) (fun g => ?_) inv.shut_closed, rfl, .refl⟩
    by_cases hg : g = f
    · subst hg
      simp [shutAt, shut]
    · rw [shutAt_of_ne hg]
      exact ⟨rfl, rfl, rfl⟩
  · rw [if_neg shut]
    exact shut_safe tame inv shut

lemma argfd_done (inv : Inv sb O s) {g : Option (Fin nofile × Fin nfile) → M n Int} (fails : g none = pure (-1))
    (works : ∀ fd f, Safe E (g (some (fd, f))) s fun _ => Done sb O s) :
    Safe E (argfd p fd >>= g) s fun _ => Done sb O s := by
  have same : Safe E (argfd p fd) s fun _ t => s = t := by
    refine safe_get ?_
    split <;> exact safe_pure rfl
  refine same.bind fun r t eq => ?_
  subst eq
  cases r with
  | none => exact fails ▸ safe_pure inv.done
  | some found => exact works found.1 found.2

def withOfile (s : State n) (p : Fin n) (fd : Fin nofile) (f : Option (Fin nfile)) : State n :=
  { s with
    proc := Function.update s.proc p
      { s.proc p with ofile := Function.update (s.proc p).ofile fd f } }

lemma withOfile_proc : ((withOfile s p fd o).proc q).live = (s.proc q).live ∧
    ((withOfile s p fd o).proc q).cwd = (s.proc q).cwd := by
  by_cases hq : q = p
  · subst hq
    simp [withOfile]
  · simp [withOfile, update_of_ne hq]

lemma Inv.withOfile (inv : Inv sb O s) (p fd f) : Inv sb O (withOfile s p fd f) :=
  inv.tables rfl (fun _ => withOfile_proc) (fun _ => ⟨rfl, rfl, rfl⟩) inv.closed

lemma fdalloc_safe (p f) : Safe E (fdalloc p f) s fun r t =>
    match r with
    | none => t = s
    | some fd => t = withOfile s p fd (some f) := by
  refine safe_get ?_
  split
  · exact safe_pure rfl
  · exact safe_mod (safe_pure rfl)

section
variable (tame : Benign E) (inv : Inv sb O s)
include tame inv

lemma sysClose_safe (fd) : Safe E (sysClose sb p fd) s fun _ => Done sb O s := by
  refine argfd_done inv rfl fun fd f => ?_
  refine safe_mod ((fileclose_safe tame (inv.withOfile p fd none) f).bind fun _ t post => ?_)
  exact safe_pure ⟨post.1, .inr post.2.2⟩

lemma filedup_safe (f) : Safe E (filedup f) s fun _ t => Inv sb O t ∧ t.fs = s.fs ∧ t.proc = s.proc := by
  refine safe_get ?_
  split
  · exact safe_throw (tame _ (by decide))
  · exact safe_modify ⟨inv.setRef f (by omega), rfl, rfl⟩

lemma sysDup_safe (fd) : Safe E (sysDup p fd) s fun _ => Done sb O s := by
  refine argfd_done inv rfl fun fd f => ?_
  refine (fdalloc_safe p f).bind fun r t post => ?_
  cases r with
  | none =>
    obtain rfl : t = s := post
    exact safe_pure inv.done
  | some fd =>
    obtain rfl : t = withOfile s p fd (some f) := post
    refine (filedup_safe tame (inv.withOfile p fd _) f).bind fun _ t post => safe_pure ⟨post.1, ?_⟩
    rw [post.2.1]
    exact .inr .refl

end

/-- A call that locks the inode of an open file and leaves the tree alone. -/
structure Touched (sb : Super) (orphan : Nat → Prop) (f : Fin nfile) (s t : State n) : Prop where
  inv : Inv sb orphan t
  tree : tree t.fs = tree s.fs
  proc : t.proc = s.proc
  file : (t.ftable f).type = (s.ftable f).type ∧ (t.ftable f).writable = (s.ftable f).writable

lemma Inv.touched (inv : Inv sb O s) (sound : Sound sb O fs (uses s)) (keeps : Keeps (uses s) s.fs fs)
    (same : tree fs = tree s.fs) (free : locks fs = fun _ => false) :
    Touched sb O f s { s with
      fs := fs
      ftable := update s.ftable f { s.ftable f with off := off } } := by
  have moved : Inv sb O { s with fs := fs } := by
    refine inv.onFs sound keeps ?_ (by rw [free, inv.unlocked])
    rw [same]
    exact .of_reaps .refl
  have files : ∀ g, (update s.ftable f { s.ftable f with off := off } g).type = (s.ftable g).type ∧
    (update s.ftable f { s.ftable f with off := off } g).ip = (s.ftable g).ip ∧
    (update s.ftable f { s.ftable f with off := off } g).writable = (s.ftable g).writable ∧
    (update s.ftable f { s.ftable f with off := off } g).ref = (s.ftable g).ref := by
    intro g
    by_cases hg : g = f
    · subst hg
      simp
    · simp [update_of_ne hg]
  refine ⟨moved.tables rfl (fun _ => ⟨rfl, rfl⟩) (fun g => ⟨(files g).1, (files g).2.1, (files g).2.2.1⟩)
    fun g zero => ?_, same, rfl, (files f).1, (files f).2.2.1⟩
  change (update s.ftable f { s.ftable f with off := off } g).ref = 0 at zero
  change (update s.ftable f { s.ftable f with off := off } g).type = _
  rw [(files g).2.2.2] at zero
  rw [(files g).1]
  exact inv.closed g zero

lemma Inv.touched_refl (inv : Inv sb O s) : Touched sb O f s s := ⟨inv, rfl, rfl, rfl, rfl⟩

section
variable (tame : Benign E) (inv : Inv sb O s)
include tame inv

lemma fileread_safe (dst count answer) : Safe E (fileread sb f dst count answer) s fun _ => Touched sb O f s := by
  apply safe_get
  by_cases unreadable : (s.ftable f).readable = false
  · rw [if_pos unreadable]
    exact safe_pure inv.touched_refl
  rw [if_neg unreadable]
  cases type : (s.ftable f).type with
  | none => exact safe_throw (tame _ (by decide))
  | device => exact safe_pure inv.touched_refl
  | inode =>
    have pos := uses_open (by rw [type]; decide)
    refine (onFs_safe (safe_and (ilock_safe tame inv.sound pos (.inl (inv.alive _ pos)))
      (ilock_locks _ _))).bind fun _ t1 post => ?_
    obtain ⟨fs, rfl, ⟨sound1, keeps1, on1, valid1⟩, free, locked⟩ := post
    obtain ⟨r, eq⟩ : ∃ r, readi sb (s.ftable f).ip dst (s.ftable f).off (uint count) fs = .ok (r, fs) :=
      readi_eq (sound1.whole pos valid1) dst _ _
    refine safe_bind_eq (FileBytes.onFs_eq eq) ?_
    refine (advance_safe f r.1).bind fun _ t2 post => ?_
    obtain ⟨here, proc, ftable⟩ := post
    obtain ⟨fs2, ftable2, proc2⟩ := t2
    obtain rfl : fs2 = fs := here
    obtain rfl : proc2 = s.proc := proc
    subst ftable
    refine (onFs_safe (safe_and (iunlock_safe tame sound1 pos) (iunlock_locks _ _))).bind fun _ t3 post => ?_
    obtain ⟨fs3, rfl, ⟨sound3, keeps3, on3⟩, freed⟩ := post
    refine safe_pure (inv.touched sound3 (keeps1.trans keeps3) ?_ ?_)
    · rw [on3.tree, on1.tree]
    · rw [freed, locked, unlock_undo free, inv.unlocked]

lemma sysRead_safe (fd dst count answer) : Safe E (sysRead sb p fd dst count answer) s fun _ => Done sb O s := by
  refine argfd_done inv rfl fun fd f => ?_
  refine (fileread_safe tame inv dst count answer).bind fun _ t post => safe_pure ⟨post.inv, ?_⟩
  rw [post.tree]
  exact .inr .refl

lemma sysFstat_safe (fd ok) : Safe E (sysFstat p fd ok) s fun _ => Done sb O s := by
  refine argfd_done inv rfl fun fd f => ?_
  refine safe_get ?_
  by_cases shut : (s.ftable f).type = .none
  · rw [if_pos shut]
    exact safe_pure inv.done
  · rw [if_neg shut]
    refine (onFs_done inv ?_ (locked_between fun s => iunlock_locks _ s)).bind fun _ t post => safe_pure post
    refine (ilock_safe tame inv.sound (uses_open shut) (.inl (inv.alive _ (uses_open shut)))).bind fun _ t1 post => ?_
    obtain ⟨sound1, keeps1, on1, -⟩ := post
    refine (iunlock_safe tame sound1 (uses_open shut)).mono fun _ t2 post => ?_
    obtain ⟨sound2, keeps2, on2⟩ := post
    exact .of_quiet sound2 ((Quiet.of_onTable keeps1 on1).trans (Quiet.of_onTable keeps2 on2))

lemma writeOp_safe (isIno : (s.ftable f).type = .inode) (writable : (s.ftable f).writable = true) (src n1) :
    Safe E (writeOp sb f src n1) s fun _ => Touched sb O f s := by
  have pos := uses_open (by rw [isIno]; decide)
  apply safe_get
  have enter : Safe E (do beginOp; ilock (s.ftable f).ip) s.fs fun _ fs =>
    Sound sb O fs (uses s) ∧ Keeps (uses s) s.fs fs ∧ tree fs = tree s.fs ∧
    (fs.itable (s.ftable f).ip).valid = true ∧
    locks fs = update (locks s.fs) (s.ftable f).ip true := by
    refine safe_mod ?_
    refine (safe_and (ilock_safe tame (sound_begun inv.sound) pos (.inl (inv.alive _ pos)))
      (ilock_locks _ _)).mono fun _ fs post => ?_
    obtain ⟨⟨sound, keeps, on, valid⟩, -, locked⟩ := post
    exact ⟨sound, ⟨keeps.inum, keeps.valid⟩, on.tree, valid, locked⟩
  refine (onFs_safe enter).bind fun _ t1 post => ?_
  obtain ⟨fs1, rfl, sound1, keeps1, tree1, valid1, locked⟩ := post
  have clean := sound1.clean pos valid1
  have file : (fs1.itable (s.ftable f).ip).copy.type ≠ .dir := by
    rw [← sound1.typ pos valid1, keeps1.inum _ pos, tree1]
    exact inv.readOnly f isIno writable
  have wrote := safe_and (writei_safe tame.logged sound1.disk clean (sound1.used pos valid1) src
    (s.ftable f).off n1) (kept_writei sb (s.ftable f).ip src (s.ftable f).off n1 fs1)
  refine (onFs_safe wrote).bind fun r t2 post => ?_
  obtain ⟨fs2, rfl, result, same⟩ := post
  have after : Sound sb O fs2 (uses s) ∧ Keeps (uses s) fs1 fs2 ∧ tree fs2 = tree fs1 := by
    rcases result with ⟨-, rfl, -⟩ | ⟨tot, c, -, wrote⟩
    · exact ⟨sound1, .refl, rfl⟩
    · obtain ⟨table, keeps, -⟩ := sound1.wrote pos valid1 wrote
      obtain ⟨disk, tree⟩ := wrote.disk_file sound1.disk clean file
      exact ⟨⟨disk, table⟩, keeps, tree⟩
  obtain ⟨sound2, keeps2, tree2⟩ := after
  refine (advance_safe f r).bind fun _ t3 post => ?_
  obtain ⟨here, proc, ftable⟩ := post
  obtain ⟨fs3, ftable3, proc3⟩ := t3
  obtain rfl : fs3 = fs2 := here
  obtain rfl : proc3 = s.proc := proc
  subst ftable
  have leave : Safe E (do iunlock (s.ftable f).ip; endOp) fs3 fun _ fs =>
    Sound sb O fs (uses s) ∧ Keeps (uses s) fs3 fs ∧ tree fs = tree fs3 ∧
    locks fs = update (locks fs3) (s.ftable f).ip false := by
    refine (safe_and (iunlock_safe tame sound2 pos) (iunlock_locks _ _)).bind fun _ fs post => safe_modify ?_
    obtain ⟨⟨sound, keeps, on⟩, freed⟩ := post
    exact ⟨sound_ended sound, ⟨keeps.inum, keeps.valid⟩, on.tree, freed⟩
  refine (onFs_safe leave).bind fun _ t4 post => ?_
  obtain ⟨fs4, rfl, sound4, keeps4, tree4, freed⟩ := post
  refine safe_pure (inv.touched sound4 (keeps1.trans (keeps2.trans keeps4)) ?_ ?_)
  · rw [tree4, tree2, tree1]
  · rw [freed, same, locked, inv.unlocked, unlock_undo rfl]

end

lemma Touched.trans (h : Touched sb O f s t) (h' : Touched sb O f t u) : Touched sb O f s u :=
  ⟨h'.inv, h'.tree.trans h.tree, h'.proc.trans h.proc, h'.file.1.trans h.file.1, h'.file.2.trans h.file.2⟩

lemma writeChunks_safe (tame : Benign E) (src)
    (count) : ∀ (fuel i : Nat) (s : State n), Inv sb O s → (s.ftable f).type = .inode → (s.ftable f).writable = true →
      Safe E (writeChunks sb f src fuel count i) s fun _ t => Touched sb O f s t
  | 0, _, _, inv, _, _ => safe_pure inv.touched_refl
  | fuel + 1, i, s, inv, isIno, writable => by
    unfold writeChunks
    split
    · refine (writeOp_safe tame inv isIno writable _ _).bind fun r t first => ?_
      split
      · exact (writeChunks_safe tame src count fuel _ t first.inv (first.file.1.trans isIno)
          (first.file.2.trans writable)).mono fun _ u => first.trans
      · exact safe_pure first
    · exact safe_pure inv.touched_refl

lemma sysWrite_safe (tame : Benign E) (inv : Inv sb O s) (fd src count answer) :
    Safe E (sysWrite sb p fd src count answer) s fun _ => Done sb O s := by
  refine argfd_done inv rfl fun fd f => ?_
  apply safe_get
  by_cases fixed : (s.ftable f).writable = false
  · rw [if_pos fixed]
    exact safe_pure inv.done
  rw [if_neg fixed]
  cases type : (s.ftable f).type with
  | none => exact safe_throw (tame _ (by decide))
  | device => exact safe_pure inv.done
  | inode =>
    refine (writeChunks_safe tame src count.toNat count.toNat 0 s inv type
      (Bool.eq_true_of_not_eq_false fixed)).bind fun i t post => safe_pure ⟨post.inv, ?_⟩
    rw [post.tree]
    exact .inr .refl

def others (s : State n) (p : Fin n) (k : Slot) : Nat := uses s k - cwdUse (s.proc p) k

lemma others_le (k) : others s p k ≤ uses s k := Nat.sub_le _ _

lemma bump_others (live : (s.proc p).live = true) : bump (others s p) (s.proc p).cwd = uses s :=
  (uses_split live).symm

lemma others_open (isOpen : (s.ftable f).type ≠ .none) : 0 < others s p (s.ftable f).ip := by
  have here : fileUse (s.ftable f) (s.ftable f).ip = 1 := if_pos ⟨isOpen, rfl⟩
  have le := fileUse_le s f (s.ftable f).ip
  have le' := cwdUse_le s p (s.ftable f).ip
  unfold others uses
  omega

lemma sysChdir_safe (tame : Benign E) (look : Lookups E s.fs) (root : rootIno < sb.ninodes)
    (inv : Inv sb O s) (live : (s.proc p).live = true) (path) :
    Safe E (sysChdir sb p path) s fun _ => Done sb O s := by
  refine safe_bind_eq rfl ?_
  cases path with
  | none =>
    have body : Safe E (do beginOp; let r ← pure none; endOp; return r : F (Option Slot)) s.fs
      fun r fs => r = none ∧ Good sb O (uses s) s.fs fs :=
      safe_mod (safe_pure_bind (safe_mod (safe_pure ⟨rfl, (Good.of_quiet (sound_begun inv.sound) .refl).operation⟩)))
    have kept : LocksKept (do beginOp; let r ← pure none; endOp; return r : F (Option Slot)) :=
      kept_beginOp.bind fun _ => kept_pure.bind fun _ => kept_endOp.bind fun _ => kept_pure
    refine (onFs_safe (safe_and body (kept s.fs))).bind fun r t post => ?_
    obtain ⟨fs, rfl, ⟨rfl, good⟩, same⟩ := post
    exact safe_pure ⟨inv.onFs good.sound good.keeps good.out same, .inl good.out⟩
  | some path =>
    have sound := inv.sound
    rw [← bump_others live] at sound
    have body : Safe E (do beginOp; let r ← chdirInode sb (s.proc p).cwd path; endOp; return r) s.fs
      fun r fs => r.elim (Good sb O (uses s) s.fs fs) fun k =>
        Sound sb O fs (bump (others s p) k) ∧ Quiet (others s p) s.fs fs ∧ (fs.itable k).valid = true := by
      refine safe_mod ((chdirInode_safe tame (sound_begun sound) root look (inv.known live) path).bind
        fun r fs post => safe_mod (safe_pure ?_))
      cases r with
      | none =>
        rw [bump_others live] at post
        exact (Good.of_quiet post.1 post.2).operation
      | some k => exact ⟨sound_ended post.1, ⟨⟨post.2.1.keeps.inum, post.2.1.keeps.valid⟩,
          post.2.1.reaps⟩, post.2.2⟩
    have kept : LocksKept (do beginOp; let r ← chdirInode sb (s.proc p).cwd path; endOp; return r) :=
      kept_beginOp.bind fun _ => (kept_chdirInode sb _ path).bind fun _ => kept_endOp.bind fun _ => kept_pure
    refine (onFs_safe (safe_and body (kept s.fs))).bind fun r t post => ?_
    obtain ⟨fs, rfl, result, same⟩ := post
    cases r with
    | none => exact safe_pure ⟨inv.onFs result.sound result.keeps result.out same, .inl result.out⟩
    | some k =>
      obtain ⟨sound', quiet, valid⟩ := result
      refine safe_mod (safe_pure ⟨inv.move (others s p) others_le
        (uses_moved live { s.proc p with cwd := k } live) sound' quiet.keeps
        (.of_reaps quiet.reaps) (fun l pos => ?_) inv.closed (fun f isIno writable => .inl ?_) ?_,
        .inr (quiet.reaps.mono fun _ => False.elim)⟩)
      · change 0 < bump (others s p) k l at pos
        by_cases hl : l = k
        · subst hl
          refine .inr (ne_of_eq_of_ne (sound'.typ bump_gt valid) ?_)
          exact sound'.used bump_gt valid
        · rw [bump_of_ne hl] at pos
          exact .inl pos
      · have isOpen : (s.ftable f).type ≠ .none := by
          rw [show (s.ftable f).type = .inode from isIno]
          decide
        exact ⟨others_open isOpen, isIno, writable, rfl⟩
      · exact same.trans inv.unlocked

lemma dupFiles_safe (tame : Benign E) (p np) : ∀ (fds : List (Fin nofile)) (s : State n),
    Inv sb O s → Safe E (dupFiles p np fds) s fun _ t => Inv sb O t ∧ t.fs = s.fs ∧ SameProcs s t
  | [], _, inv => safe_pure ⟨inv, rfl, fun _ => ⟨rfl, rfl⟩⟩
  | fd :: fds, s, inv => by
    apply safe_get
    cases found : (s.proc p).ofile fd with
    | none => exact dupFiles_safe tame p np fds s inv
    | some f =>
      have one : Safe E (do filedup f; setOfile np fd (some f)) s fun _ t => Inv sb O t ∧
        t.fs = s.fs ∧ SameProcs s t := by
        refine (filedup_safe tame inv f).bind fun _ t post => safe_modify ?_
        obtain ⟨inv', fs, proc⟩ := post
        refine ⟨inv'.withOfile np fd (some f), fs, fun q => ?_⟩
        rw [← proc]
        exact withOfile_proc
      refine one.bind fun _ t post => ?_
      obtain ⟨inv', fs, proc⟩ := post
      refine (dupFiles_safe tame p np fds t inv').mono fun _ u post => ?_
      obtain ⟨inv'', fs', proc'⟩ := post
      exact ⟨inv'', fs'.trans fs, fun q => ⟨(proc' q).1.trans (proc q).1, (proc' q).2.trans (proc q).2⟩⟩

lemma fork_safe (tame : Benign E) (inv : Inv sb O s) (live : (s.proc p).live = true)
    (dead : (s.proc np).live = false) :
    Safe E (fork p np) s fun _ => Done sb O s := by
  refine (dupFiles_safe tame p np _ s inv).bind fun _ t post => safe_get ?_
  obtain ⟨inv', fs, proc⟩ := post
  have live' := (proc p).1.trans live
  have dead' := (proc np).1.trans dead
  refine (onFs_safe (safe_and (idup_safe inv'.sound (uses_cwd live'))
    (kept_idup (t.proc p).cwd t.fs))).bind fun _ u post => ?_
  obtain ⟨fs', rfl, ⟨sound, keeps, on⟩, same⟩ := post
  have quiet := Quiet.of_onTable keeps on
  refine safe_modify ⟨inv'.move (uses t) (fun _ => le_rfl)
    (uses_started dead' { t.proc np with live := true, cwd := (t.proc p).cwd } rfl) sound keeps
    (.of_reaps quiet.reaps) (fun l pos => .inl ?_) inv'.closed (fun f isIno writable => .inl ?_)
    (same.trans inv'.unlocked), ?_⟩
  · change 0 < bump (uses t) (t.proc p).cwd l at pos
    by_cases hl : l = (t.proc p).cwd
    · rw [hl]
      exact uses_cwd live'
    · rwa [bump_of_ne hl] at pos
  · have isOpen : (t.ftable f).type ≠ .none := by
      rw [show (t.ftable f).type = .inode from isIno]
      decide
    exact ⟨uses_open isOpen, isIno, writable, rfl⟩
  · refine .inr ?_
    change Reaps _ (tree s.fs) (tree fs')
    rw [on.tree, fs]
    exact .refl

lemma closeFiles_safe (tame : Benign E) (p) : ∀ (fds : List (Fin nofile)) (s : State n),
    Inv sb O s → Safe E (closeFiles sb p fds) s fun _ t => Inv sb O t ∧ Reaps (fun _ => False) (tree s.fs) (tree t.fs) ∧
      SameProcs s t
  | [], _, inv => safe_pure ⟨inv, .refl, fun _ => ⟨rfl, rfl⟩⟩
  | fd :: fds, s, inv => by
    apply safe_get
    cases found : (s.proc p).ofile fd with
    | none => exact closeFiles_safe tame p fds s inv
    | some f =>
      have one : Safe E (do fileclose sb f; setOfile p fd none) s fun _ t => Inv sb O t ∧
        Reaps (fun _ => False) (tree s.fs) (tree t.fs) ∧
        SameProcs s t := by
        refine (fileclose_safe tame inv f).bind fun _ t post => safe_modify ?_
        obtain ⟨inv', proc, reaps⟩ := post
        refine ⟨inv'.withOfile p fd none, reaps, fun q => ?_⟩
        rw [← proc]
        exact withOfile_proc
      refine one.bind fun _ t post => ?_
      obtain ⟨inv', reaps, proc⟩ := post
      refine (closeFiles_safe tame p fds t inv').mono fun _ u post => ?_
      obtain ⟨inv'', reaps', proc'⟩ := post
      exact ⟨inv'', reaps.trans reaps', fun q => ⟨(proc' q).1.trans (proc q).1, (proc' q).2.trans (proc q).2⟩⟩

lemma exit_safe (tame : Benign E) (inv : Inv sb O s) (live : (s.proc p).live = true) :
    Safe E (exit sb p) s fun _ => Done sb O s := by
  refine (closeFiles_safe tame p _ s inv).bind fun _ t post => safe_get ?_
  obtain ⟨inv', reaps, proc⟩ := post
  have live' := (proc p).1.trans live
  have sound := inv'.sound
  rw [← bump_others live'] at sound
  have body : Safe E (do beginOp; iput sb (t.proc p).cwd; endOp) t.fs fun _ fs =>
    Sound sb O fs (others t p) ∧ Quiet (others t p) t.fs fs ∧ locks fs = locks t.fs := by
    refine safe_mod ?_
    refine (safe_and (iput_safe tame (sound_begun sound)) (kept_iput sb _ (begun t.fs))).bind
      fun _ fs post => safe_modify ?_
    obtain ⟨⟨sound', keeps, reaps, -⟩, same⟩ := post
    exact ⟨sound_ended sound', ⟨⟨keeps.inum, keeps.valid⟩, reaps⟩, same⟩
  refine (onFs_safe body).bind fun _ u post => ?_
  obtain ⟨fs, rfl, sound', quiet, same⟩ := post
  have left : ∀ l, uses { t with proc := update t.proc p { t.proc p with live := false } } l =
    others t p l := uses_left _ rfl
  refine safe_modify ⟨inv'.move (others t p) others_le (funext left) sound' quiet.keeps
    (.of_reaps quiet.reaps) (fun l pos => .inl pos) inv'.closed (fun f isIno writable => .inl ?_)
    (same.trans inv'.unlocked), ?_⟩
  · have isOpen : (t.ftable f).type ≠ .none := by
      rw [show (t.ftable f).type = .inode from isIno]
      decide
    exact ⟨others_open isOpen, isIno, writable, rfl⟩
  · exact .inr (reaps.trans (quiet.reaps.mono fun _ => False.elim))

variable {ip : Slot} {fs : Fs} {omode : Nat}

lemma truncate_safe (tame : Benign E) (sound : Sound sb O fs refs)
    (pos : 0 < refs ip) (valid : (fs.itable ip).valid = true)
    (file : (fs.itable ip).copy.type = .file) :
    Safe E (itrunc sb ip) fs fun _ fs' => Sound sb O fs' refs ∧ Keeps refs fs fs' ∧ tree fs' = tree fs := by
  have clean := sound.clean pos valid
  have inoEq : ino fs ip = fs.dinode := by rw [ino, clean, update_eq_self]
  have used := sound.used pos valid
  refine (itrunc_safe tame.logged (by rw [inoEq]; exact sound.disk.owned) used).mono fun _ t post => ?_
  obtain ⟨bm, l, rfl, owned⟩ := post
  rw [inoEq] at owned
  refine ⟨⟨sound.disk.setEmpty owned rfl rfl (.inr (sound.table.inside ip pos)),
    sound.table.rewrite pos valid used⟩, .of_update rfl fun _ => ⟨rfl, id⟩, ?_⟩
  change treeOf fs.block _ = treeOf fs.block fs.dinode
  rw [treeOf_update]
  apply Tree.ext
  · intro j
    by_cases hj : j = (fs.itable ip).inum
    · subst hj
      simp [treeOf, Dinode.emptied, clean]
    · simp [hj]
  · intro j
    by_cases hj : j = (fs.itable ip).inum
    · subst hj
      simp [treeOf, Dinode.emptied, clean]
    · simp [hj]
  · intro j
    by_cases hj : j = (fs.itable ip).inum
    · subst hj
      rw [clean] at file
      simp [treeOf, entsOf, Dinode.emptied, clean, file]
    · simp [hj]

/-- The file system holds a locked inode for `open`, on top of the uses of `s`. -/
structure Opened (sb : Super) (orphan : Nat → Prop) (s : State n) (omode : Nat) (ip : Slot) (fs : Fs) :
    Prop where
  keeps : Keeps (uses s) s.fs fs
  out : Outcome (InUse (uses s) s.fs) (tree s.fs) (tree fs)
  sound : Sound sb orphan fs (bump (uses s) ip)
  valid : (fs.itable ip).valid = true
  type : (fs.itable ip).copy.type = .dir → omode = oRdonly
  locked : locks fs = Function.update (fun _ => false) ip true

lemma Opened.giveBack (tame : Benign E) (inv : Inv sb O s) (h : Opened sb O s omode ip fs) (procs : SameProcs s t)
    (files : SameFiles s t)
    (closed : ∀ g, (t.ftable g).ref = 0 → (t.ftable g).type = .none) (here : t.fs = fs) :
    Safe E (do onFs (iunlockput sb ip); return (-1 : Int)) t fun _ => Done sb O s := by
  subst here
  refine (onFs_safe (safe_and (iunlockput_safe tame h.sound) (iunlockput_locks sb ip t.fs))).bind fun _ u post => ?_
  obtain ⟨fs', rfl, ⟨sound, quiet, -⟩, freed⟩ := post
  have good := Good.quiet h.keeps h.out sound quiet
  have same : locks fs' = locks s.fs := by rw [freed, h.locked, unlock_undo rfl, inv.unlocked]
  exact safe_pure ⟨(inv.onFs good.sound good.keeps good.out same).tables rfl procs files closed, .inl good.out⟩

lemma Opened.finish [Decidable trunc] (tame : Benign E)
    (h : Opened sb O s omode ip fs) (file : trunc → (fs.itable ip).copy.type = .file) :
    Safe E (do (if trunc then itrunc sb ip else pure ()); iunlock ip) fs fun _ fs' =>
      Sound sb O fs' (bump (uses s) ip) ∧ Keeps (bump (uses s) ip) fs fs' ∧ tree fs' = tree fs ∧
      locks fs' = fun _ => false := by
  have first : Safe E (if trunc then itrunc sb ip else pure ()) fs fun _ fs' =>
    (Sound sb O fs' (bump (uses s) ip) ∧ Keeps (bump (uses s) ip) fs fs' ∧ tree fs' = tree fs) ∧
    locks fs' = locks fs := by
    split
    · rename_i yes
      exact safe_and (truncate_safe tame h.sound bump_gt h.valid (file yes)) (kept_itrunc sb ip fs)
    · exact safe_pure ⟨⟨h.sound, .refl, rfl⟩, rfl⟩
  refine first.bind fun _ fs1 post => ?_
  obtain ⟨⟨sound, keeps, same⟩, held⟩ := post
  refine (safe_and (iunlock_safe tame sound bump_gt) (iunlock_locks ip fs1)).mono fun _ fs2 post => ?_
  obtain ⟨⟨sound', keeps', on⟩, freed⟩ := post
  refine ⟨sound', keeps.trans keeps', on.tree.trans same, ?_⟩
  rw [freed, held, h.locked, unlock_undo rfl]

def taken (s : State n) (f : Fin nfile) : State n :=
  { s with ftable := Function.update s.ftable f { s.ftable f with ref := 1 } }

lemma taken_files : ((taken s f).ftable g).type = (s.ftable g).type ∧ ((taken s f).ftable g).ip = (s.ftable g).ip ∧
    ((taken s f).ftable g).writable = (s.ftable g).writable := by
  by_cases hg : g = f
  · subst hg
    simp [taken]
  · simp [taken, update_of_ne hg]

lemma taken_of_ne (hg : g ≠ f) : (taken s f).ftable g = s.ftable g := update_of_ne hg _ _

lemma filealloc_safe : Safe E filealloc s fun r t =>
    match r with
    | none => t = s
    | some f => (s.ftable f).ref = 0 ∧ t = taken s f := by
  refine safe_get ?_
  split
  · exact safe_pure rfl
  · rename_i f found
    have free := List.find?_some found
    exact safe_mod (safe_pure ⟨of_decide_eq_true free, rfl⟩)

lemma fileclose_taken (shut : (s.ftable f).type = .none) :
    fileclose sb f (taken s f) = .ok ((), shutAt (taken s f) f) := by
  have one : ((taken s f).ftable f).ref = 1 := by simp only [taken, update_self]
  have none : ((taken s f).ftable f).type = .none := by simp only [taken, update_self, shut]
  refine (bind_of_eq rfl).trans ?_
  rw [if_neg (by omega), if_neg (by omega), if_pos none]
  rfl

def opened (file : File) (d : Dinode) (ip : Slot) (omode : Nat) : File := { file with
  type := if d.type = .device then .device else .inode
  major := if d.type = .device then d.major else file.major
  off := if d.type = .device then file.off else 0
  ip := ip
  readable := omode &&& oWronly = 0
  writable := omode &&& oWronly ≠ 0 ∨ omode &&& oRdwr ≠ 0 }

lemma opened_type : (opened file d ip omode).type ≠ .none := by
  unfold opened
  dsimp only
  split <;> decide

section
variable (tame : Benign E) (inv : Inv sb O s) (h : Opened sb O s omode ip fs)
include tame inv h

lemma Opened.success (shut : (s.ftable f).type = .none) : Safe E (do
    onFs (do
      (if omode &&& oTrunc ≠ 0 ∧ (fs.itable ip).copy.type = .file then itrunc sb ip else pure ())
      iunlock ip)
    return (fd.val : Int))
    { withOfile (taken { s with fs := fs } f) p fd (some f) with
      ftable := update (taken { s with fs := fs } f).ftable f
        (opened ((taken { s with fs := fs } f).ftable f) (fs.itable ip).copy ip omode) }
    fun _ => Done sb O s := by
  refine (onFs_safe (h.finish tame fun both => both.2)).bind fun _ u post => safe_pure ?_
  obtain ⟨fs', rfl, sound, keeps, same, free⟩ := post
  change Keeps (bump (uses s) ip) fs fs' at keeps
  change tree fs' = tree fs at same
  have here : (tree fs').typ (fs'.itable ip).inum = (fs.itable ip).copy.type := by
    rw [same, keeps.inum ip bump_gt, h.sound.typ bump_gt h.valid]
  have before : uses (withOfile (taken s f) p fd (some f)) = uses s :=
    uses_congr (fun _ => withOfile_proc) fun g => ⟨taken_files.1, taken_files.2.1⟩
  have now := uses_opened (s := withOfile (taken s f) p fd (some f)) (taken_files.1.trans shut)
    (opened ((taken s f).ftable f) (fs.itable ip).copy ip omode) opened_type
  rw [before] at now
  have out : Outcome (InUse (uses s) s.fs) (tree s.fs) (tree fs') := by
    rw [same]
    exact h.out
  refine ⟨inv.move (uses s) (fun _ => le_rfl) now sound (h.keeps.trans keeps.of_bump) out
    (fun l pos => ?_) (fun g zero => ?_) (fun g isIno writable => ?_) free, (.inl out)⟩
  · change 0 < bump (uses s) ip l at pos
    by_cases hl : l = ip
    · subst hl
      exact .inr (ne_of_eq_of_ne here (h.sound.used bump_gt h.valid))
    · rw [bump_of_ne hl] at pos
      exact .inl pos
  · by_cases hg : g = f
    · subst hg
      simp [opened, taken] at zero
    · dsimp only at zero ⊢
      rw [update_of_ne hg, taken_of_ne hg] at zero ⊢
      exact inv.closed g zero
  · dsimp only at isIno writable ⊢
    by_cases hg : g = f
    · subst hg
      refine .inr ?_
      rw [update_self] at writable ⊢
      refine ne_of_eq_of_ne here fun dir => ?_
      rw [h.type dir] at writable
      simp [opened, oRdonly] at writable
    · rw [update_of_ne hg, taken_of_ne hg] at isIno writable ⊢
      exact .inl ⟨uses_open (by rw [isIno]; decide), isIno, writable, rfl⟩

lemma openFile_safe : Safe E (openFile sb p ip omode) { s with fs := fs } fun _ => Done sb O s := by
  apply safe_get
  by_cases bad : (fs.itable ip).copy.type = .device ∧ ((fs.itable ip).copy.major < 0 ∨ ndev ≤ (fs.itable ip).copy.major)
  · rw [if_pos bad]
    exact h.giveBack tame inv (fun _ => ⟨rfl, rfl⟩) (fun _ => ⟨rfl, rfl, rfl⟩) inv.closed rfl
  rw [if_neg bad]
  refine filealloc_safe.bind fun r t post => ?_
  cases r with
  | none =>
    obtain rfl : t = { s with fs := fs } := post
    exact h.giveBack tame inv (fun _ => ⟨rfl, rfl⟩) (fun _ => ⟨rfl, rfl, rfl⟩) inv.closed rfl
  | some f =>
    obtain ⟨free, rfl⟩ := post
    have shut := inv.closed f free
    refine (fdalloc_safe p f).bind fun r t post => ?_
    cases r with
    | none =>
      obtain rfl : t = taken { s with fs := fs } f := post
      refine safe_bind_eq (fileclose_taken shut) (h.giveBack tame inv (fun _ => ⟨rfl, rfl⟩)
        (fun g => ?_) (fun g zero => ?_) rfl)
      · by_cases hg : g = f
        · subst hg
          simp [shutAt, taken, shut]
        · rw [shutAt_of_ne hg]
          exact taken_files
      · by_cases hg : g = f
        · subst hg
          exact shutAt_self
        · rw [shutAt_of_ne hg, taken_files.1]
          rw [shutAt_of_ne hg, taken_of_ne hg] at zero
          exact inv.closed g zero
    | some fd =>
      obtain rfl : t = withOfile (taken { s with fs := fs } f) p fd (some f) := post
      refine safe_mod ?_
      exact h.success tame inv shut

end

section
variable (tame : Benign E) (look : Lookups E s.fs) (root : rootIno < sb.ninodes) (inv : Inv sb O s)
  (live : (s.proc p).live = true)
include tame look root inv live

lemma openInode_opened (path omode) : Safe E (openInode sb (s.proc p).cwd path omode) (begun s.fs) fun r fs =>
    match r with
    | none => Done sb O s { s with fs := fs }
    | some ip => Opened sb O s omode ip fs := by
  refine (safe_and (openInode_safe tame (sound_begun inv.sound) inv.alive root (uses_cwd live)
    look path omode) (openInode_locks sb (s.proc p).cwd path omode (begun s.fs))).mono fun r fs post => ?_
  obtain ⟨⟨keeps, out, result⟩, held⟩ := post
  cases r with
  | none => exact ⟨inv.onFs result ⟨keeps.inum, keeps.valid⟩ out held, .inl out⟩
  | some ip =>
    obtain ⟨sound, valid, type⟩ := result
    refine ⟨⟨keeps.inum, keeps.valid⟩, out, sound, valid, type, ?_⟩
    rw [held.2, show locks (begun s.fs) = locks s.fs from rfl, inv.unlocked]

lemma sysOpen_safe (path omode) : Safe E (sysOpen sb p path omode) s fun _ => Done sb O s := by
  cases path with
  | none => exact safe_pure inv.done
  | some path =>
    have ending : ∀ (r : Int) (t : State n), Done sb O s t →
      Safe E (do onFs endOp; return r) t fun _ => Done sb O s := by
      intro r t done
      have after :=
        done.1.onFs (sound_ended done.1.sound) ⟨fun _ _ => rfl, fun _ _ valid => valid⟩ (.of_reaps .refl) rfl
      exact safe_bind_eq rfl (safe_pure ⟨after, done.2⟩)
    refine safe_bind_eq rfl (safe_bind_eq rfl ?_)
    refine (onFs_safe (openInode_opened tame look root inv live path omode)).bind fun r t post => ?_
    obtain ⟨fs, rfl, post⟩ := post
    cases r with
    | none => exact safe_pure_bind (ending (-1) _ post)
    | some ip => exact (openFile_safe tame inv post).bind fun r t done => ending r t done

end

end Xv6.FsRun
