import Xv6.FsKeep

/-! Which inodes are locked. Most of the file system leaves the locks alone; `ilock` and
`iunlock` move one, and every function that locks an inode for its own use lets go of it
on all of its paths. -/

namespace Xv6.FsLocks

open Params FsMachine Total Function
open FsCalls (linkBad link isdirempty unlinkAt unlink createEntries createNew create openInode
  chdirInode readAll)

def locks (s : Fs) : Slot → Bool := fun k => (s.itable k).lock

def LocksKept {α : Type} (f : F α) : Prop := ∀ s, Ensures f s fun _ t => locks t = locks s

variable {α β : Type} {s : Fs} {k : Slot}

lemma LocksKept.after (kept : LocksKept f) (same : locks s = l) : Ensures f s fun _ t => locks t = l :=
  fun a t eq => (kept s a t eq).trans same

lemma LocksKept.bind (first : LocksKept f) (rest : ∀ a, LocksKept (g a)) :
    LocksKept (f >>= g) := FsKeep.Kept.bind first rest

lemma kept_pure : LocksKept (pure a : F α) := FsKeep.kept_pure

lemma kept_throw : LocksKept (throw e : F α) := FsKeep.kept_throw

lemma kept_get {g : Fs → F β} (h : ∀ s, LocksKept (g s)) : LocksKept (get >>= g) := FsKeep.kept_get h

lemma kept_modify (h : ∀ s, locks (m s) = locks s) : LocksKept (modify m : F Unit) := FsKeep.kept_modify h

lemma kept_ite [Decidable p] {f g : F α} (yes : LocksKept f) (no : LocksKept g) :
    LocksKept (if p then f else g) := FsKeep.kept_ite yes no

lemma locks_blind : FsKeep.Blind locks where
  bitmap _ _ := rfl
  dinode _ _ := rfl
  block _ _ := rfl
  lh _ _ := rfl
  inode s k h same := by
    refine funext fun l => ?_
    by_cases hl : l = k
    · subst hl
      simp [locks, same]
    · simp [locks, update_of_ne hl]

lemma kept_modInode (same : ∀ ip, (h ip).lock = ip.lock) :
    LocksKept (modInode k h) := FsKeep.kept_modInode locks_blind same

lemma kept_modCopy (h) : LocksKept (modCopy k h) := FsKeep.kept_modCopy locks_blind h

section
variable (sb : Super)

lemma kept_iupdate (k) : LocksKept (iupdate sb k) := FsKeep.kept_iupdate locks_blind sb k

lemma kept_itrunc (k) : LocksKept (itrunc sb k) := FsKeep.kept_itrunc locks_blind sb k

lemma kept_readi (k dst off n) : LocksKept (readi sb k dst off n) :=
  FsKeep.kept_readi locks_blind sb k dst off n

lemma kept_writei (k src off n) : LocksKept (writei sb k src off n) := FsKeep.kept_writei locks_blind sb k src off n

lemma kept_iget (i) : LocksKept (iget i) := FsKeep.kept_iget locks_blind i

lemma kept_idup (k) : LocksKept (idup k) := FsKeep.kept_idup locks_blind k

lemma kept_ialloc (type : FType) : LocksKept (ialloc sb type) := FsKeep.kept_ialloc locks_blind sb type

lemma kept_readDirent (k off) : LocksKept (readDirent sb k off) := FsKeep.kept_readDirent locks_blind sb k off

lemma kept_dirlookup (k name) : LocksKept (dirlookup sb k name) := FsKeep.kept_dirlookup locks_blind sb k name

lemma kept_freeDirent (k fuel off) : LocksKept (freeDirent sb k fuel off) :=
  FsKeep.kept_freeDirent locks_blind sb k fuel off

end

section
variable (sb : Super)

lemma acquiresleep_locks (k s) : Ensures (acquiresleep k) s fun _ t =>
    locks s k = false ∧ locks t = update (locks s) k true := by
  refine ensures_get ?_
  split
  · exact ensures_throw
  · rename_i free
    intro a t eq
    cases eq
    refine ⟨by simpa [locks] using free, funext fun l => ?_⟩
    by_cases hl : l = k
    · subst hl
      simp [locks]
    · simp [locks, update_of_ne hl]

lemma ilock_locks (k s) : Ensures (ilock k) s fun _ t =>
    locks s k = false ∧ locks t = update (locks s) k true := by
  refine ensures_get ?_
  split
  · exact ensures_throw
  · refine (acquiresleep_locks k s).bind fun _ t post => ?_
    have rest : LocksKept (if (s.itable k).valid then pure () else do
      modInode k fun ip => { ip with copy := s.dinode ip.inum, valid := true }
      if (s.dinode (s.itable k).inum).type = .free then throw "ilock: no type" else pure ()) :=
      kept_ite kept_pure (.bind (kept_modInode fun _ => rfl) fun _ => kept_ite kept_throw kept_pure)
    intro a u eq
    exact ⟨post.1, (rest t a u eq).trans post.2⟩

lemma modInode_unlock (free : ∀ ip, (h ip).lock = false) (k s) :
    Ensures (modInode k h) s fun _ t => locks t = update (locks s) k false := by
  intro a t eq
  cases eq
  refine funext fun l => ?_
  by_cases hl : l = k
  · subst hl
    simp [locks, free]
  · simp [locks, update_of_ne hl]

lemma iunlock_locks (k s) : Ensures (iunlock k) s fun _ t => locks t = update (locks s) k false := by
  refine ensures_get ?_
  split
  · exact ensures_throw
  · exact modInode_unlock (fun _ => rfl) k s

lemma unlock_undo {L : Slot → Bool} (free : L k = false) : update (update L k true) k false = L := by
  rw [update_idem, ← free, update_eq_self]

lemma kept_iput (k) : LocksKept (iput sb k) := by
  refine kept_get fun s => LocksKept.bind ?_ fun _ => kept_modInode fun _ => rfl
  refine kept_ite (fun s => ?_) kept_pure
  refine (acquiresleep_locks k s).bind fun _ t post => ?_
  refine (kept_itrunc sb k t).bind fun _ t1 same1 => ?_
  refine (kept_modCopy _ t1).bind fun _ t2 same2 => ?_
  refine (kept_iupdate sb k t2).bind fun _ t3 same3 => ?_
  intro a u eq
  have freed := modInode_unlock (fun _ => rfl) k t3 a u eq
  rw [freed, same3, same2, same1, post.2, unlock_undo post.1]

lemma iunlockput_locks (k s) : Ensures (iunlockput sb k) s fun _ t => locks t = update (locks s) k false :=
  (iunlock_locks k s).bind fun _ t same a u eq => (kept_iput sb k t a u eq).trans same

end

section
variable (sb : Super)

lemma kept_dirlink (k name inum) : LocksKept (dirlink sb k name inum) := by
  refine (kept_dirlookup sb k name).bind fun r => ?_
  cases r with
  | some found => exact (kept_iput sb _).bind fun _ => kept_pure
  | none => exact kept_get fun _ => (kept_freeDirent sb _ _ _).bind fun _ =>
    (kept_writei sb _ _ _ _).bind fun _ => kept_pure

lemma locked_between {f : F α} (inner : ∀ s, Ensures f s fun _ t =>
    locks t = update (locks s) k false) : LocksKept (do ilock k; f) := fun s =>
  (ilock_locks k s).bind fun _ t post a u eq => by rw [inner t a u eq, post.2, unlock_undo post.1]

lemma kept_namexFrom (parent fuel k path name) : LocksKept (namexFrom sb parent fuel k path name) := by
  induction fuel generalizing k path name with
  | zero => exact kept_throw
  | succ fuel ih =>
    unfold namexFrom
    cases skipelem path with
    | none => exact kept_ite ((kept_iput sb _).bind fun _ => kept_pure) kept_pure
    | some element =>
      obtain ⟨name, rest⟩ := element
      have leave : ∀ s, Ensures (do iunlockput sb k; return none : F (Option (Slot × List UInt8))) s
        fun _ t => locks t = update (locks s) k false := fun s =>
        (iunlockput_locks sb k s).bind fun _ t same a u eq => (kept_pure t a u eq).trans same
      refine locked_between fun s => ensures_get ?_
      split
      · exact leave s
      · split
        · exact (iunlock_locks k s).bind fun _ t same a u eq => (kept_pure t a u eq).trans same
        · refine (kept_dirlookup sb k name s).bind fun r t same => ?_
          cases r with
          | none =>
            intro a u eq
            rw [leave t a u eq, same]
          | some found =>
            obtain ⟨off, l⟩ := found
            refine (iunlockput_locks sb k t).bind fun _ u same' a v eq => ?_
            rw [ih l rest name u a v eq, same', same]

lemma kept_namex (cwd path parent) : LocksKept (namex sb cwd path parent) := by
  refine LocksKept.bind ?_ fun _ => kept_namexFrom sb _ _ _ _ _
  exact kept_ite (kept_iget _) ((kept_idup _).bind fun _ => kept_pure)

lemma kept_namei (cwd path) : LocksKept (namei sb cwd path) := (kept_namex sb _ _ _).bind fun _ => kept_pure

lemma kept_nameiparent (cwd path) : LocksKept (nameiparent sb cwd path) := kept_namex sb _ _ _

end

section
variable (sb : Super) {k : Slot}

def Holding (s : Fs) (r : Option Slot) (t : Fs) : Prop :=
  match r with
  | none => locks t = locks s
  | some k => locks s k = false ∧ locks t = Function.update (locks s) k true

lemma kept_linkBad (k) : LocksKept (linkBad sb k) := by
  refine locked_between fun s => ?_
  refine (kept_modCopy _ s).bind fun _ t same => (kept_iupdate sb k t).bind fun _ u same' => ?_
  refine (iunlockput_locks sb k u).bind fun _ v freed a w eq => ?_
  rw [kept_pure v a w eq, freed, same', same]

lemma kept_link (cwd old new) : LocksKept (link sb cwd old new) := by
  refine (kept_namei sb cwd old).bind fun r => ?_
  cases r with
  | none => exact kept_pure
  | some ip =>
    intro s
    refine (ilock_locks ip s).bind fun _ t post => ensures_get ?_
    have back : update (locks t) ip false = locks s := by rw [post.2, unlock_undo post.1]
    split
    · refine (iunlockput_locks sb ip t).bind fun _ u freed a v eq => ?_
      rw [kept_pure u a v eq, freed, back]
    · refine (kept_modCopy _ t).bind fun _ t1 same1 => (kept_iupdate sb ip t1).bind fun _ t2 same2 => ?_
      refine (iunlock_locks ip t2).bind fun _ t3 freed => ?_
      have here : locks t3 = locks s := by rw [freed, same2, same1, back]
      refine LocksKept.after ?_ here
      refine (kept_nameiparent sb cwd new).bind fun r => ?_
      cases r with
      | none => exact kept_linkBad sb ip
      | some found =>
        obtain ⟨dp, name⟩ := found
        refine locked_between fun s => (kept_dirlink sb dp name _ s).bind fun ok u same => ?_
        split
        · refine (iunlockput_locks sb dp u).bind fun _ v freed => (kept_iput sb ip v).bind fun _ w kept a x eq => ?_
          rw [kept_pure w a x eq, kept, freed, same]
        · refine (iunlockput_locks sb dp u).bind fun _ v freed a w eq => ?_
          rw [kept_linkBad sb ip v a w eq, freed, same]

lemma kept_isdirempty (k fuel off) : LocksKept (isdirempty sb k fuel off) := by
  induction fuel generalizing off with
  | zero => exact kept_pure
  | succ fuel ih =>
    refine kept_get fun s => kept_ite ((kept_readDirent sb _ _).bind fun de => ?_) kept_pure
    cases de with
    | none => exact kept_throw
    | some de => exact kept_ite kept_pure (ih _)

lemma unlinkAt_locks (dp ip off s) : Ensures (unlinkAt sb dp ip off) s fun _ t =>
    locks s ip = false ∧ locks t = update (locks s) dp false := by
  refine (ilock_locks ip s).bind fun _ t post => ensures_get ?_
  obtain ⟨free, locked⟩ := post
  dsimp only
  split
  · exact ensures_throw
  have rest : ∀ empty u, locks u = locks t → Ensures (if empty = true then do
    let r ← writei sb dp (kernelSrc (List.replicate direntSize 0)) off direntSize
    if r ≠ direntSize then throw "unlink: writei"
    else
      (if (t.itable ip).copy.type = .dir then do
        modCopy dp fun d => { d with nlink := d.nlink - 1 }
        iupdate sb dp
      else pure ())
      iunlockput sb dp
      modCopy ip fun d => { d with nlink := d.nlink - 1 }
      iupdate sb ip
      iunlockput sb ip
      return 0
    else do
      iunlockput sb ip
      iunlockput sb dp
      return -1 : F Int) u fun _ t =>
        locks s ip = false ∧ locks t = update (locks s) dp false := by
    intro empty u same
    split
    · refine (kept_writei sb dp _ _ _ u).bind fun r v same1 => ?_
      split
      · exact ensures_throw
      · have count : LocksKept (if (t.itable ip).copy.type = .dir then do
          modCopy dp fun d => { d with nlink := d.nlink - 1 }
          iupdate sb dp
          else pure ()) :=
          kept_ite ((kept_modCopy _).bind fun _ => kept_iupdate sb dp) kept_pure
        refine (count v).bind fun _ v1 same2 => (iunlockput_locks sb dp v1).bind fun _ v2 freed => ?_
        refine (kept_modCopy _ v2).bind fun _ v3 same3 => (kept_iupdate sb ip v3).bind fun _ v4 same4 => ?_
        refine (iunlockput_locks sb ip v4).bind fun _ v5 freed' a w eq => ?_
        refine ⟨free, ?_⟩
        rw [kept_pure v5 a w eq, freed', same4, same3, freed, same2, same1, same, locked]
        by_cases ne : ip = dp
        · subst ne
          simp [update_idem]
        · rw [update_comm (Ne.symm ne), unlock_undo free]
    · refine (iunlockput_locks sb ip u).bind fun _ v freed =>
        (iunlockput_locks sb dp v).bind fun _ w freed' a x eq => ?_
      refine ⟨free, ?_⟩
      rw [kept_pure w a x eq, freed', freed, same, locked, unlock_undo free]
  by_cases dir : (t.itable ip).copy.type = .dir
  · rw [if_pos dir]
    exact (kept_isdirempty sb _ _ _ t).bind fun empty u same => rest empty u same
  · rw [if_neg dir]
    exact rest true t rfl

lemma kept_unlink (cwd path) : LocksKept (unlink sb cwd path) := by
  refine (kept_nameiparent sb cwd path).bind fun r => ?_
  cases r with
  | none => exact kept_pure
  | some found =>
    obtain ⟨dp, name⟩ := found
    have leave : ∀ s, Ensures (do iunlockput sb dp; return -1 : F Int) s
      fun _ t => locks t = update (locks s) dp false := fun s =>
      (iunlockput_locks sb dp s).bind fun _ t same a u eq => (kept_pure t a u eq).trans same
    refine locked_between fun s => ?_
    split
    · exact leave s
    · refine (kept_dirlookup sb dp name s).bind fun r t same => ?_
      cases r with
      | none =>
        intro a u eq
        rw [leave t a u eq, same]
      | some found =>
        intro a u eq
        rw [(unlinkAt_locks sb dp found.2 found.1 t a u eq).2, same]

lemma kept_createEntries (dp ip name) (type : FType) : LocksKept (createEntries sb dp ip name type) := by
  refine kept_get fun s => ?_
  have named : ∀ made, LocksKept (if made = true then dirlink sb dp name (s.itable ip).inum
    else pure false) := fun _ => kept_ite (kept_dirlink sb _ _ _) kept_pure
  refine kept_ite ((kept_dirlink sb _ _ _).bind fun _ => kept_ite
    ((kept_dirlink sb _ _ _).bind named) (kept_pure.bind named)) (kept_pure.bind named)

lemma createNew_locks (dp name) (type : FType) (major minor : Int16) (s) :
    Ensures (createNew sb dp name type major minor) s fun r t =>
      match r with
      | none => locks t = update (locks s) dp false
      | some k => locks s k = false ∧
          locks t = update (update (locks s) k true) dp false := by
  refine (kept_ialloc sb type s).bind fun r t same => ?_
  cases r with
  | none =>
    refine (iunlockput_locks sb dp t).bind fun _ u freed a v eq => ?_
    cases eq
    rw [← same]
    exact freed
  | some ip =>
    refine (ilock_locks ip t).bind fun _ t1 post => ?_
    obtain ⟨free, locked⟩ := post
    refine (kept_modCopy _ t1).bind fun _ t2 same2 => (kept_iupdate sb ip t2).bind fun _ t3 same3 => ?_
    refine (kept_createEntries sb dp ip name type t3).bind fun ok t4 same4 => ?_
    split
    · have count : LocksKept (if type = .dir then do
        modCopy dp fun d => { d with nlink := d.nlink + 1 }
        iupdate sb dp
        else pure ()) :=
        kept_ite ((kept_modCopy _).bind fun _ => kept_iupdate sb dp) kept_pure
      refine (count t4).bind fun _ t5 same5 => (iunlockput_locks sb dp t5).bind fun _ t6 freed a v eq => ?_
      cases eq
      refine ⟨by rw [← same]; exact free, ?_⟩
      rw [freed, same5, same4, same3, same2, locked, same]
    · refine (kept_modCopy _ t4).bind fun _ t5 same5 => (kept_iupdate sb ip t5).bind fun _ t6 same6 => ?_
      refine (iunlockput_locks sb ip t6).bind fun _ t7 freed =>
        (iunlockput_locks sb dp t7).bind fun _ t8 freed' a v eq => ?_
      cases eq
      change locks t8 = _
      rw [freed', freed, same6, same5, same4, same3, same2, locked, unlock_undo free, same]

lemma create_locks (cwd path) (type : FType) (major minor : Int16) (s) :
    Ensures (create sb cwd path type major minor) s fun r t => Holding s r t := by
  refine (kept_nameiparent sb cwd path s).bind fun r t same => ?_
  cases r with
  | none =>
    intro a u eq
    cases eq
    exact same
  | some found =>
    obtain ⟨dp, name⟩ := found
    refine (ilock_locks dp t).bind fun _ t1 post => ?_
    obtain ⟨free, locked⟩ := post
    refine (kept_dirlookup sb dp name t1).bind fun r t2 same2 => ?_
    cases r with
    | none =>
      intro a u eq
      have made := createNew_locks sb dp name type major minor t2 a u eq
      cases a with
      | none =>
        change locks u = _
        rw [made, same2, locked, unlock_undo free, same]
      | some k =>
        obtain ⟨free', locked'⟩ := made
        have ne : k ≠ dp := by
          rintro rfl
          rw [same2, locked, update_self] at free'
          cases free'
        rw [same2, locked, update_of_ne ne, same] at free'
        refine ⟨free', ?_⟩
        rw [locked', same2, locked, update_comm (Ne.symm ne), unlock_undo, same]
        rw [update_of_ne (Ne.symm ne)]
        exact free
    | some found =>
      obtain ⟨off, ip⟩ := found
      refine (iunlockput_locks sb dp t2).bind fun _ t3 freed => ?_
      have here : locks t3 = locks s := by rw [freed, same2, locked, unlock_undo free, same]
      refine (ilock_locks ip t3).bind fun _ t4 post' => ensures_get ?_
      obtain ⟨free', locked'⟩ := post'
      rw [here] at free' locked'
      dsimp only
      split
      · intro a u eq
        cases eq
        exact ⟨free', locked'⟩
      · refine (iunlockput_locks sb ip t4).bind fun _ t5 freed' a u eq => ?_
        cases eq
        change locks t5 = _
        rw [freed', locked', unlock_undo free']

lemma openInode_locks (cwd path omode s) : Ensures (openInode sb cwd path omode) s fun r t => Holding s r t := by
  unfold openInode
  split
  · exact create_locks sb cwd path .file 0 0 s
  · refine (kept_namei sb cwd path s).bind fun r t same => ?_
    cases r with
    | none =>
      intro a u eq
      cases eq
      exact same
    | some ip =>
      refine (ilock_locks ip t).bind fun _ t1 post => ensures_get ?_
      obtain ⟨free, locked⟩ := post
      rw [same] at free locked
      split
      · refine (iunlockput_locks sb ip t1).bind fun _ t2 freed a u eq => ?_
        cases eq
        change locks t2 = _
        rw [freed, locked, unlock_undo free]
      · intro a u eq
        cases eq
        exact ⟨free, locked⟩

lemma kept_chdirInode (cwd path) : LocksKept (chdirInode sb cwd path) := by
  refine (kept_namei sb cwd path).bind fun r => ?_
  cases r with
  | none => exact kept_pure
  | some ip =>
    refine locked_between fun s => ensures_get ?_
    split
    · refine (iunlockput_locks sb ip s).bind fun _ t freed a u eq => ?_
      rw [kept_pure t a u eq, freed]
    · refine (iunlock_locks ip s).bind fun _ t freed => (kept_iput sb cwd t).bind fun _ u kept a v eq => ?_
      rw [kept_pure u a v eq, kept, freed]

lemma kept_readAll (k reads) : LocksKept (readAll sb k reads) := by
  induction reads with
  | nil => exact kept_pure
  | cons read reads ih => exact (kept_readi sb _ _ _ _).bind fun _ => ih

end

end Xv6.FsLocks
