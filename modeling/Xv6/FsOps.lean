import Xv6.FsEdit
import Xv6.FsLocks
import Xv6.FsName

/-! The calls of `kernel/sysfile.c` inside one operation: `link`, `unlink`, `create`, and
what `open` and `chdir` do to the file system. -/

namespace Xv6.FsOps

open Params CString FsMachine FsTree FsEdit FsBlocks FsData FsDisk FsTable FsDir FsName FsLocks Total Function
open FsCalls (linkBad link isdirempty unlinkAt unlink createEntries createNew create openInode
  chdirInode readAll)

variable {sb : Super} {s t u : Fs}
  {refs refs' : Slot → Nat} {k l : Slot} {i : Nat}

lemma safe_and (h : Safe E f s Q) (h' : Ensures f s R) : Safe E f s fun a t => Q a t ∧ R a t := by
  unfold Safe at h ⊢
  split
  · rename_i a t eq
    rw [eq] at h
    exact ⟨h, h' a t eq⟩
  · rename_i e eq
    rw [eq] at h
    exact h

lemma type_kept (sound : Sound sb O s refs) (sound' : Sound sb O' t refs')
    (inum : (t.itable k).inum = (s.itable k).inum) (pos : 0 < refs k) (pos' : 0 < refs' k)
    (valid : (s.itable k).valid = true) (valid' : (t.itable k).valid = true)
    (typ : (tree t).typ (s.itable k).inum = (tree s).typ (s.itable k).inum) :
    (t.itable k).copy.type = (s.itable k).copy.type := by
  rw [← sound'.typ pos' valid', inum, typ, sound.typ pos valid]

lemma treeOf_setMeta (type : d.type = (inode i).type) (size : d.size = (inode i).size)
    (addrs : d.addrs = (inode i).addrs) (used : d.type ≠ .free) :
    treeOf block (update inode i d) = (treeOf block inode).setNlink i d.nlink := by
  rw [treeOf_update]
  apply Tree.ext
  · intro j
    by_cases hj : j = i
    · subst hj
      simp [treeOf, Tree.setNlink, type]
    · simp [Tree.setNlink, hj]
  · intro j
    by_cases hj : j = i
    · subst hj
      simp [Tree.setNlink, used]
    · simp [Tree.setNlink, hj]
  · intro j
    by_cases hj : j = i
    · subst hj
      simp [treeOf, Tree.setNlink, entsOf_congr type size addrs]
    · simp [Tree.setNlink, hj]

/-- The link count of the inode in slot `k` is set, in the table and on disk. -/
structure Recount (sb : Super) (orphan : Nat → Prop) (refs : Slot → Nat) (k : Slot) (v : Int16)
    (s t : Fs) : Prop where
  sound : Sound sb orphan t refs
  keeps : Keeps refs s t
  tree : tree t = (tree s).setNlink (s.itable k).inum v

section
variable (tame : Benign E) (sound : Sound sb O s refs) (pos : 0 < refs k)
  (valid : (s.itable k).valid = true)
include tame sound pos valid

lemma recount_safe (g) (same : ∀ d, (g d).type = d.type ∧ (g d).size = d.size ∧ (g d).addrs = d.addrs) :
    Safe E (do modCopy k g; iupdate sb k) s fun _ t =>
      Recount sb O refs k (g (s.itable k).copy).nlink s t := by
  have clean := sound.clean pos valid
  have used := sound.used pos valid
  obtain ⟨type, size, addrs⟩ := same (s.itable k).copy
  have used' : (g (s.itable k).copy).type ≠ .free := by rwa [type]
  apply safe_mod
  apply (iupdate_safe tame.logged k).mono
  rintro _ _ ⟨l, rfl⟩
  have inode : ino { s with itable := update s.itable k { s.itable k with
    copy := g (s.itable k).copy } } k =
    update s.dinode (s.itable k).inum (g (s.itable k).copy) := by
    simp only [ino, update_self]
  rw [inode]
  refine ⟨⟨?_, sound.table.rewrite pos valid used'⟩, .of_update rfl fun _ => ⟨rfl, id⟩, ?_⟩
  · exact sound.disk.setMeta (type.trans (by rw [clean])) (size.trans (by rw [clean])) (addrs.trans (by rw [clean]))
  · exact treeOf_setMeta (type.trans (by rw [clean])) (size.trans (by rw [clean])) (addrs.trans (by rw [clean])) used'

lemma recount_bind_safe (g) (same : ∀ d, (g d).type = d.type ∧ (g d).size = d.size ∧ (g d).addrs = d.addrs)
    (rest : ∀ t, Recount sb O refs k (g (s.itable k).copy).nlink s t → locks t = locks s → Safe E h t R) :
    Safe E (do modCopy k g; iupdate sb k; h) s R := by
  have whole := safe_and (recount_safe tame sound pos valid g same)
    (((kept_modCopy g).bind fun _ => kept_iupdate sb k) s)
  exact whole.bind fun _ t post => rest t post.1 post.2

end

lemma ptr_free (free : (inode i).type = .free) :
    (fun p => if p.inode = i then 0 else ptr block inode p) = ptr block inode := by
  funext p
  split
  · rename_i here
    subst here
    cases p <;> simp only [ptr, Place.inode] at * <;> rw [if_pos free]
  · rfl

structure Fresh (sb : Super) (orphan : Nat → Prop) (refs : Slot → Nat) (type : FType) (i : Nat)
    (k : Slot) (s t : Fs) : Prop where
  free : (s.dinode i).type = .free
  pos : i ≠ 0
  lt : i < sb.ninodes
  sound : Sound sb (fun j => orphan j ∨ j = i) t (bump refs k)
  keeps : Keeps refs s t
  inum : (t.itable k).inum = i
  dinode : t.dinode = Function.update s.dinode i { Dinode.zero with type := type }
  block : t.block = s.block

lemma ialloc_safe (tame : Benign E) (sound : Sound sb O s refs) (type : FType) : Safe E (ialloc sb type) s fun r t =>
    match r with
    | none => t = s
    | some k => ∃ i, Fresh sb O refs type i k s t := by
  apply safe_get
  cases found : (List.range sb.ninodes).find? fun i => decide (1 ≤ i ∧ (s.dinode i).type = .free) with
  | none => exact safe_pure rfl
  | some i =>
    obtain ⟨one, free⟩ : 1 ≤ i ∧ (s.dinode i).type = .free := by simpa using List.find?_some found
    have lt := List.mem_range.mp (List.mem_of_find?_eq_some found)
    apply Safe.bind (setDinode_safe tame.logged i _)
    rintro _ _ ⟨lh, rfl⟩
    have apart : ∀ l, 0 < refs l → (s.itable l).valid = true → (s.itable l).inum ≠ i := by
      rintro l pos valid rfl
      exact (sound.table.loaded l pos valid).2 free
    have sound' : Sound sb (fun j => O j ∨ j = i) { s with
      dinode := update s.dinode i { Dinode.zero with type := type }
      lh := lh } refs := by
      refine ⟨sound.disk.setEmpty ?_ rfl rfl (.inr lt), sound.table.ref, sound.table.uniq,
        sound.table.inside, fun l pos valid => ?_, fun j notOrphan used zero => ?_⟩
      · rw [ptr_free free]
        exact sound.disk.owned
      · dsimp only at valid ⊢
        rw [update_of_ne (apart l pos valid)]
        exact sound.table.loaded l pos valid
      · have ne : j ≠ i := fun eq => notOrphan (.inr eq)
        dsimp only at used zero
        rw [update_of_ne ne] at used zero
        exact sound.table.held j (fun bad => notOrphan (.inl bad)) used zero
    apply Safe.bind (iget_safe (fun _ => tame _ (by decide)) sound' lt)
    intro k t got
    refine safe_pure ⟨i, free, by omega, lt, got.sound, ?_, got.inum, got.onTable.2.1, got.onTable.2.2⟩
    exact ⟨fun l pos => got.keeps.inum l pos, fun l pos valid => got.keeps.valid l pos valid⟩

lemma Sound.adopt (sound : Sound sb (fun j => O j ∨ j = (s.itable k).inum) s refs)
    (pos : 0 < refs k) (valid : (s.itable k).valid = true) : Sound sb O s refs := by
  refine ⟨sound.disk, sound.table.ref, sound.table.uniq, sound.table.inside, sound.table.loaded,
    fun j notOrphan used zero => ?_⟩
  by_cases here : j = (s.itable k).inum
  · exact ⟨k, pos, here.symm, valid⟩
  · exact sound.table.held j (fun either => either.elim notOrphan here) used zero

variable {dp ip cwd : Slot}

abbrev Edited (sb : Super) (orphan : Nat → Prop) (refs : Slot → Nat) (s t : Fs) : Prop :=
  Sound sb orphan t refs ∧ Keeps refs s t ∧ Outcome (InUse refs s) (tree s) (tree t)

lemma linkBad_safe (tame : Benign E) (sound : Sound sb O s (bump refs k)) (known : Known E s k) :
    Safe E (linkBad sb k) s fun _ t => Sound sb O t refs ∧ Keeps refs s t ∧
      Reaps (InUse refs s) ((tree s).setNlink (s.itable k).inum ((tree s).nlink (s.itable k).inum - 1)) (tree t) := by
  apply Safe.bind (ilock_safe tame sound bump_gt known)
  rintro _ t ⟨sound1, keeps1, on1, valid1⟩
  have inum1 := keeps1.inum k bump_gt
  refine recount_bind_safe tame sound1 bump_gt valid1
    (fun d => { d with nlink := d.nlink - 1 }) (fun _ => ⟨rfl, rfl, rfl⟩) fun t2 count _ => ?_
  apply Safe.bind (iunlockput_safe tame count.sound)
  rintro _ t3 ⟨sound3, quiet3, -⟩
  have keeps2 := keeps1.trans count.keeps
  refine safe_pure ⟨sound3, keeps2.of_bump.trans quiet3.keeps, ?_⟩
  have nlink := sound1.nlink bump_gt valid1
  have reaps := quiet3.reaps
  rw [count.tree, ← nlink, on1.tree, inum1] at reaps
  exact reaps.mono fun _ use => keeps2.of_bump.inUse.mpr use

lemma link_safe (tame : Benign E) (sound : Sound sb O s refs) (root : rootIno < sb.ninodes)
    (pos : 0 < refs cwd) (look : Lookups E s) (known : Known E s cwd)
    (fits : E "ilock: no type" ∨ ∀ i, (tree s).nlink i ≠ -1) (old new) :
    Safe E (link sb cwd old new) s fun _ => Edited sb O refs s := by
  apply Safe.bind (namei_safe tame sound root pos look known old)
  intro r t0 post
  cases r with
  | none => exact safe_pure ⟨post.1, post.2.keeps, .of_reaps post.2.reaps⟩
  | some ip =>
    obtain ⟨sound0, quiet0, known0⟩ := post
    apply Safe.bind (ilock_safe tame sound0 bump_gt known0)
    rintro _ t1 ⟨sound1, keeps1, on1, valid1⟩
    have quiet1 := quiet0.trans (Quiet.of_onTable keeps1 on1).of_bump
    apply safe_get
    by_cases isDir : (t1.itable ip).copy.type = .dir
    · rw [if_pos isDir]
      apply Safe.bind (iunlockput_safe tame sound1)
      rintro _ t2 ⟨sound2, quiet2, -⟩
      have quiet := quiet1.trans quiet2
      exact safe_pure ⟨sound2, quiet.keeps, .of_reaps quiet.reaps⟩
    rw [if_neg isDir]
    have typ1 := sound1.typ bump_gt valid1
    have nlink1 := sound1.nlink bump_gt valid1
    have used1 := sound1.used bump_gt valid1
    have small := sound1.table.inside ip bump_gt
    refine recount_bind_safe tame sound1 bump_gt valid1
      (fun d => { d with nlink := d.nlink + 1 }) (fun _ => ⟨rfl, rfl, rfl⟩) fun t2 count _ => ?_
    apply Safe.bind (iunlock_safe tame count.sound bump_gt)
    rintro _ t3 ⟨sound3, keeps3, on3⟩
    have keeps13 := count.keeps.trans keeps3
    generalize hi : (t1.itable ip).inum = i at *
    generalize hn : (t1.itable ip).copy.nlink = n at *
    have inum3 : (t3.itable ip).inum = i := by rw [keeps13.inum ip bump_gt, hi]
    have counted : tree t3 = (tree t1).setNlink i (n + 1) := by rw [on3.tree, count.tree, hi]
    -- What the tree would be without the new count, in a later state.
    have later : ∀ t4, Quiet (bump refs ip) t3 t4 →
      Reaps (InUse refs s) (tree s) ((tree t4).setNlink i n) ∧ (tree t4).nlink i = n + 1 ∧
        (tree t4).typ i = (tree t1).typ i := by
      intro t4 quiet
      have kept := quiet.kept bump_gt
      rw [inum3, counted] at kept
      refine ⟨?_, ?_, kept.1⟩
      · have back := reaps_setNlink quiet.reaps ⟨ip, bump_gt, inum3⟩ n
        rw [counted, setNlink_idem, ← nlink1, setNlink_self] at back
        rw [← nlink1]
        exact quiet1.reaps.trans (back.mono fun _ use =>
          InUse.bump (keeps13.of_bump.inUse.mpr (quiet1.keeps.inUse.mpr use)))
      · rw [kept.2.1]
        exact update_self ..
    have bad : ∀ t4, Sound sb O t4 (bump refs ip) → Quiet (bump refs ip) t3 t4 →
      Safe E (linkBad sb ip) t4 fun _ => Edited sb O refs s := by
      intro t4 sound4 quiet
      have valid4 := quiet.keeps.valid ip bump_gt (keeps13.valid ip bump_gt valid1)
      apply (linkBad_safe tame sound4 (known_of_valid sound4 bump_gt valid4)).mono
      rintro _ t5 ⟨sound5, keeps5, reaps5⟩
      have keeps := quiet1.keeps.trans (keeps13.of_bump.trans quiet.of_bump.keeps)
      refine ⟨sound5, keeps.trans keeps5, .of_reaps ?_⟩
      obtain ⟨first, value, -⟩ := later t4 quiet
      rw [quiet.keeps.inum ip bump_gt, inum3, value, Int16.add_sub_cancel] at reaps5
      exact first.trans (reaps5.mono fun _ use => keeps.inUse.mpr use)
    have look3 : Lookups E t3 := by
      rcases fits with allowed | fits
      · exact .inl allowed
      refine (look.quiet quiet1).imp_right fun closed => ?_
      rw [counted]
      refine closed.more fun wraps => ?_
      have last : n = -1 := by
        rw [← Int16.add_sub_cancel n 1, wraps]
        rfl
      rw [last] at nlink1
      obtain ⟨gone, ok, eq⟩ := quiet1.reaps
      rw [eq] at nlink1
      by_cases freed : gone i = true
      · rw [show ((tree s).free gone).nlink i = 0 from if_pos freed] at nlink1
        exact absurd nlink1 (by decide)
      · exact fits i ((if_neg freed).symm.trans nlink1)
    have known3 : Known E t3 cwd := by
      refine (known.quiet quiet1 pos).imp_left fun used => ?_
      change (tree t3).typ (t3.itable cwd).inum ≠ .free
      rw [keeps13.inum cwd (bump_pos pos), counted]
      exact used
    apply Safe.bind (namex_safe tame sound3 root (bump_pos pos) look3 known3 new true)
    intro r t4 post
    cases r with
    | none => exact bad t4 post.1 post.2
    | some found =>
      obtain ⟨dp, name⟩ := found
      have named := post
      obtain ⟨validDir, isDir'⟩ := named.dir rfl
      apply Safe.bind (ilock_safe tame named.sound bump_gt named.known)
      rintro _ t5 ⟨sound5, keeps5, on5, valid5⟩
      have quiet5 := named.quiet.trans (Quiet.of_onTable keeps5 on5).of_bump
      have dir5 : (t5.itable dp).copy.type = .dir := by
        rw [on5.copy named.sound sound5 keeps5 bump_gt bump_gt validDir]
        exact isDir'
      apply Safe.bind (dirlink_safe (tame _ (by decide))
        (.inr (tame _ (by decide))) tame.logged sound5 bump_gt valid5 dir5 name
        small)
      rintro ok t6 ⟨sound6, keeps6, -, ⟨rfl, absent, linked⟩ | ⟨rfl, same, -⟩⟩
      · rw [if_pos rfl]
        apply Safe.bind (iunlockput_safe tame sound6)
        rintro _ t7 ⟨sound7, quiet7, -⟩
        apply Safe.bind (iput_safe tame sound7)
        rintro _ t8 ⟨sound8, keeps8, reaps8, -⟩
        have keeps6' := quiet1.keeps.trans (keeps13.of_bump.trans (quiet5.of_bump.keeps.trans keeps6.of_bump.of_bump))
        have quiet8 := quiet7.of_bump.trans ⟨keeps8, reaps8⟩
        obtain ⟨first, value, typ⟩ := later t5 quiet5
        refine safe_pure ⟨sound8, keeps6'.trans quiet8.keeps, (tree t5).setNlink i n, tree t6, first, .inr ?_,
          quiet8.reaps.mono fun _ use => keeps6'.inUse.mpr use⟩
        have edit := Edit.link (T := (tree t5).setNlink i n) (t5.itable dp).inum i name
          ((sound5.typ bump_gt valid5).trans dir5) (by
            change (tree t5).typ i ≠ .dir
            rw [typ, typ1]
            exact isDir) (by
            change (tree t5).typ i ≠ .free
            rw [typ, typ1]
            exact used1) absent
        have count' : ((tree t5).setNlink i n).nlink i = n := update_self ..
        rw [count', setNlink_idem, ← value, setNlink_self] at edit
        rw [linked]
        exact edit
      · rw [if_neg Bool.false_ne_true]
        apply Safe.bind (iunlockput_safe tame sound6)
        rintro _ t7 ⟨sound7, quiet7, -⟩
        have quiet6 : Quiet (bump refs ip) t5 t6 := ⟨keeps6.of_bump, by rw [same]; exact .refl⟩
        exact bad t7 sound7 ((quiet5.trans quiet6).trans quiet7)

variable {name : List UInt8}

/-- The tree without entry `j` of directory `d`, which named `i`; an entry `..` counts for `d`. -/
def cut (T : Tree) (d i j : Nat) : Tree :=
  (T.setEnts d (putEnt (T.ents d) j ⟨0, []⟩)).setNlink d (if T.typ i = .dir then T.nlink d - 1 else T.nlink d)

lemma uncountParent_safe (tame : Benign E) (sound : Sound sb O s (bump (bump refs dp) ip))
    (valid : (s.itable ip).valid = true) (validDp : (s.itable dp).valid = true)
    (sound' : Sound sb O t (bump (bump refs dp) ip)) (keeps : Keeps (bump (bump refs dp) ip) s t)
    (erased : tree t = (tree s).setEnts (s.itable dp).inum (putEnt ((tree s).ents (s.itable dp).inum) j ⟨0, []⟩)) :
    Safe E (if (s.itable ip).copy.type = .dir then do
        modCopy dp fun d => { d with nlink := d.nlink - 1 }
        iupdate sb dp
      else pure ()) t fun _ u => Sound sb O u (bump (bump refs dp) ip) ∧ Keeps (bump (bump refs dp) ip) s u ∧
        tree u = cut (tree s) (s.itable dp).inum (s.itable ip).inum j := by
  have posDp : 0 < bump (bump refs dp) ip dp := bump_pos bump_gt
  have typIp := sound.typ bump_gt valid
  have keptDp := keeps.inum dp posDp
  by_cases sub : (s.itable ip).copy.type = .dir
  · rw [if_pos sub]
    have validDp' := keeps.valid dp posDp validDp
    refine (recount_safe tame sound' posDp validDp' (fun d => { d with nlink := d.nlink - 1 })
      (fun _ => ⟨rfl, rfl, rfl⟩)).mono fun _ u count => ⟨count.sound, keeps.trans count.keeps, ?_⟩
    have nlink := sound'.nlink posDp validDp'
    rw [count.tree, erased, keptDp, cut, typIp, if_pos sub]
    rw [erased, keptDp] at nlink
    change (tree s).nlink _ = _ at nlink
    rw [nlink]
  · rw [if_neg sub]
    refine safe_pure ⟨sound', keeps, ?_⟩
    rw [cut, typIp, if_neg sub, erased]
    exact (setNlink_self).symm

/-- The end of `unlink`: the directory is given back, and the inode loses a link. -/
lemma dropLink_safe (tame : Benign E) (quiet : Quiet refs s t) (valid : (t.itable ip).valid = true)
    (apart : (t.itable ip).inum ≠ (t.itable dp).inum) (sound : Sound sb O u (bump (bump refs dp) ip))
    (keeps : Keeps (bump (bump refs dp) ip) t u)
    (eq : tree u = cut (tree t) (t.itable dp).inum (t.itable ip).inum j)
    (edit : Edit (tree t) ((cut (tree t) (t.itable dp).inum (t.itable ip).inum j).setNlink (t.itable ip).inum
      ((tree t).nlink (t.itable ip).inum - 1))) :
    Safe E (do
      iunlockput sb dp
      modCopy ip fun d => { d with nlink := d.nlink - 1 }
      iupdate sb ip
      iunlockput sb ip
      return 0 : F Int) u fun _ => Edited sb O refs s := by
  have posIp : 0 < bump (bump refs dp) ip ip := bump_gt
  have sound' : Sound sb O u (bump (bump refs ip) dp) := by
    rw [bump_comm]
    exact sound
  have inum := keeps.inum ip posIp
  apply Safe.bind (iunlockput_safe tame sound')
  rintro _ t1 ⟨sound1, quiet1, -⟩
  have inum1 : (t1.itable ip).inum = (t.itable ip).inum := (quiet1.keeps.inum ip bump_gt).trans inum
  have valid1 := quiet1.keeps.valid ip bump_gt (keeps.valid ip posIp valid)
  refine recount_bind_safe tame sound1 bump_gt valid1
    (fun d => { d with nlink := d.nlink - 1 }) (fun _ => ⟨rfl, rfl, rfl⟩) fun t2 count _ => ?_
  apply Safe.bind (iunlockput_safe tame count.sound)
  rintro _ t3 ⟨sound3, quiet3, -⟩
  have before : Keeps refs s u := quiet.keeps.trans keeps.of_bump.of_bump
  have keeps2 : Keeps refs s t2 := before.trans (quiet1.keeps.of_bump.trans count.keeps.of_bump)
  have kept := quiet1.kept bump_gt
  rw [inum, eq] at kept
  have nlink1 : (t1.itable ip).copy.nlink = (tree t).nlink (t.itable ip).inum := by
    rw [← sound1.nlink bump_gt valid1, inum1, kept.2.1]
    exact update_of_ne apart ..
  refine safe_pure ⟨sound3, keeps2.trans quiet3.keeps, tree t, _, quiet.reaps, .inr edit, ?_⟩
  have moved := reaps_setNlink quiet1.reaps ⟨ip, bump_gt, inum⟩ ((tree t).nlink (t.itable ip).inum - 1)
  rw [eq] at moved
  have tree2 : tree t2 = (tree t1).setNlink (t.itable ip).inum ((tree t).nlink (t.itable ip).inum - 1) := by
    rw [count.tree, inum1, nlink1]
  rw [← tree2] at moved
  exact (moved.mono fun _ use => InUse.bump (before.inUse.mpr use)).trans
    (quiet3.reaps.mono fun _ use => keeps2.inUse.mpr use)

lemma unlinkAt_safe (tame : Benign E) (sound : Sound sb O s (bump (bump refs dp) ip)) (known : Known E s ip)
    (links : E "unlink: nlink < 1" ∨ Removable (tree s)) (valid : (s.itable dp).valid = true)
    (isDir : (s.itable dp).copy.type = .dir) (held : locks s dp = true)
    (used : (s.itable ip).inum ≠ 0)
    (found : find ((tree s).ents (s.itable dp).inum) name = some j)
    (here : ((tree s).ents (s.itable dp).inum)[j]? = some ⟨(s.itable ip).inum, cstr name⟩)
    (notDot : cstr name ≠ dot) (notDots : cstr name ≠ dotdot) :
    Safe E (unlinkAt sb dp ip (direntSize * j)) s fun _ t => Sound sb O t refs ∧
      Keeps refs s t ∧ Outcome (InUse refs s) (tree s) (tree t) := by
  have posDp : 0 < bump (bump refs dp) ip dp := bump_pos bump_gt
  have posIp : 0 < bump (bump refs dp) ip ip := bump_gt
  apply Safe.bind (safe_and (ilock_safe tame sound posIp known) (ilock_locks ip s))
  rintro _ t1 ⟨⟨sound1, keeps1, on1, valid1⟩, free, -⟩
  have ne : ip ≠ dp := by
    rintro rfl
    rw [held] at free
    cases free
  have inumDp := keeps1.inum dp posDp
  have inumIp := keeps1.inum ip posIp
  have apart : (t1.itable ip).inum ≠ (t1.itable dp).inum := fun eq => ne (sound1.table.uniq ip dp posIp posDp eq)
  have validDp := keeps1.valid dp posDp valid
  have dirDp : (t1.itable dp).copy.type = .dir := by
    rw [on1.copy sound sound1 keeps1 posDp posDp valid]
    exact isDir
  have quiet1 : Quiet refs s t1 := (Quiet.of_onTable keeps1 on1).of_bump.of_bump
  rw [← on1.tree, ← inumDp] at found here
  rw [← inumIp] at here used
  have typIp := sound1.typ posIp valid1
  have usedIp := sound1.used posIp valid1
  have nlinkIp := sound1.nlink posIp valid1
  have typDp := (sound1.typ posDp validDp).trans dirDp
  apply safe_get
  dsimp only
  by_cases few : (t1.itable ip).copy.nlink < 1
  · rw [if_pos few]
    refine safe_throw (links.resolve_right fun removable => ?_)
    rw [← on1.tree] at removable
    have linked := removable _ _ _ typDp here used notDot notDots
    rw [nlinkIp] at linked
    exact Int16.not_lt.mpr linked few
  rw [if_neg few]
  have some_ : 1 ≤ (tree t1).nlink (t1.itable ip).inum := by
    rw [nlinkIp]
    exact Int16.not_lt.mp few
  have rest : ∀ empty, (empty = true → (tree t1).typ (t1.itable ip).inum = .dir →
    isEmpty ((tree t1).ents (t1.itable ip).inum) = true) → Safe E (if empty = true then do
    let r ← writei sb dp (kernelSrc (List.replicate direntSize 0)) (direntSize * j) direntSize
    if r ≠ direntSize then throw "unlink: writei"
    else
      (if (t1.itable ip).copy.type = .dir then do
        modCopy dp fun d => { d with nlink := d.nlink - 1 }
        iupdate sb dp
      else pure ())
      iunlockput sb dp
      modCopy ip fun d => { d with nlink := d.nlink - 1 }
      iupdate sb ip
      iunlockput sb ip
      return 0
    else do
      iunlockput sb ip
      iunlockput sb dp
      return -1 : F Int) t1 fun _ => Edited sb O refs s := by
    intro empty isEmpty_
    cases empty with
    | false =>
      rw [if_neg Bool.false_ne_true]
      apply Safe.bind (iunlockput_safe tame sound1)
      rintro _ t2 ⟨sound2, quiet2, -⟩
      apply Safe.bind (iunlockput_safe tame sound2)
      rintro _ t3 ⟨sound3, quiet3, -⟩
      have quiet := quiet1.trans (quiet2.of_bump.trans quiet3)
      exact safe_pure ⟨sound3, quiet.keeps, .of_reaps quiet.reaps⟩
    | true =>
      rw [if_pos rfl]
      have inside := (List.getElem?_eq_some_iff.mp here).1
      apply Safe.bind (erase_safe tame.logged sound1 posDp validDp dirDp inside)
      rintro r t2 ⟨sound2, keeps2, -, rfl, erased⟩
      rw [if_neg (not_not.mpr rfl)]
      have erasedCount := uncountParent_safe tame sound1 valid1 validDp sound2 keeps2 erased
      refine erasedCount.bind fun _ t3 post => ?_
      obtain ⟨sound3, keeps3, tree3⟩ := post
      exact dropLink_safe tame quiet1 valid1 apart sound3 keeps3 tree3 (Edit.unlink _ _ j name typDp apart used found
        here notDot notDots (by rw [typIp]; exact usedIp) some_ (isEmpty_ rfl))
  by_cases sub : (t1.itable ip).copy.type = .dir
  · rw [if_pos sub]
    apply Safe.bind (isdirempty_safe (.inr (tame _ (by decide))) sound1 posIp valid1 sub
      _ 2 (by omega))
    rintro empty _ ⟨rfl, eq⟩
    refine rest empty fun yes _ => ?_
    rw [sound1.ents posIp valid1, isEmpty, ← eq]
    exact yes
  · rw [if_neg sub]
    refine rest true fun _ dir => ?_
    rw [typIp] at dir
    exact absurd dir sub

lemma unlink_safe (tame : Benign E) (sound : Sound sb O s refs) (root : rootIno < sb.ninodes)
    (pos : 0 < refs cwd) (look : Lookups E s) (known : Known E s cwd)
    (links : E "unlink: nlink < 1" ∨ Removable (tree s)) (path) :
    Safe E (unlink sb cwd path) s fun _ => Edited sb O refs s := by
  apply Safe.bind (namex_safe tame sound root pos look known path true)
  intro r t0 post
  cases r with
  | none => exact safe_pure ⟨post.1, post.2.keeps, .of_reaps post.2.reaps⟩
  | some found =>
    obtain ⟨dp, name⟩ := found
    have named := post
    obtain ⟨valid0, dir0⟩ := named.dir rfl
    apply Safe.bind (safe_and (ilock_safe tame named.sound bump_gt named.known) (ilock_locks dp t0))
    rintro _ t1 ⟨⟨sound1, keeps1, on1, valid1⟩, -, locked⟩
    have quiet1 := named.quiet.trans (Quiet.of_onTable keeps1 on1).of_bump
    have dir1 : (t1.itable dp).copy.type = .dir := by
      rw [on1.copy named.sound sound1 keeps1 bump_gt bump_gt valid0]
      exact dir0
    have leave : Safe E (do iunlockput sb dp; return -1 : F Int) t1 fun _ => Edited sb O refs s := by
      apply Safe.bind (iunlockput_safe tame sound1)
      rintro _ t2 ⟨sound2, quiet2, -⟩
      have quiet := quiet1.trans quiet2
      exact safe_pure ⟨sound2, quiet.keeps, .of_reaps quiet.reaps⟩
    by_cases dots : namecmp name dot = 0 ∨ namecmp name dotdot = 0
    · rw [if_pos dots]
      exact leave
    rw [if_neg dots]
    have plain : cstr name ≠ dot ∧ cstr name ≠ dotdot := by
      rw [not_or, namecmp_eq_zero, namecmp_eq_zero] at dots
      exact dots
    apply Safe.bind (safe_and (dirlookup_safe (fun _ => tame _ (by decide))
      (.inr (tame _ (by decide))) sound1 bump_gt valid1 dir1 name)
      (kept_dirlookup sb dp name t1))
    rintro r t2 ⟨⟨rfl, rfl, -, -⟩ | ⟨j, i, ip, rfl, found, here, got⟩, same⟩
    · exact leave
    · obtain ⟨i', here', used⟩ := find_some found
      have eq : i = i' := by
        have both := here.symm.trans here'
        injection both with both
        injection both
      subst eq
      have inum2 := got.keeps.inum dp bump_gt
      have quiet2 := (quiet1.trans (Quiet.of_onTable got.keeps got.onTable).of_bump)
      have known2 := (look.quiet quiet1).named sound1 bump_gt valid1 found here got
      refine (unlinkAt_safe tame got.sound known2 (links.imp_right fun removable => removable.reaps quiet2.reaps)
        (got.keeps.valid dp bump_gt valid1) ?_ ?_ ?_ ?_ ?_ plain.1 plain.2).mono
        fun _ t3 post => ⟨post.1, quiet2.keeps.trans post.2.1, ?_⟩
      · rw [got.onTable.copy sound1 got.sound got.keeps bump_gt (bump_pos bump_gt) valid1]
        exact dir1
      · rw [same, locked, update_self]
      · rw [got.inum]
        exact used
      · rw [got.onTable.tree, inum2]
        exact found
      · rw [got.onTable.tree, inum2, got.inum]
        exact here
      · exact .before quiet2.reaps (post.2.2.mono fun _ use => quiet2.keeps.inUse.mpr use)

variable {type : FType}

def Alive (refs : Slot → Nat) (s : Fs) : Prop :=
  ∀ k, 0 < refs k → (tree s).typ (s.itable k).inum ≠ .free

lemma Alive.quiet (h : Alive refs s) (quiet : Quiet refs s t) : Alive refs t := by
  intro k pos
  rw [quiet.keeps.inum k pos, (quiet.kept pos).1]
  exact h k pos

lemma Alive.bump (h : Alive refs s) (sound : Sound sb O s (bump refs k))
    (valid : (s.itable k).valid = true) : Alive (bump refs k) s := by
  intro l pos
  by_cases here : l = k
  · subst here
    rw [sound.typ bump_gt valid]
    exact sound.used bump_gt valid
  · rw [bump_of_ne here] at pos
    exact h l pos

def newDir (T : Tree) (type : FType) (d i : Nat) : Tree :=
  if type = .dir then T.setEnts i [⟨i, dot⟩, ⟨d, dotdot⟩] else T

def Entered (sb : Super) (orphan : Nat → Prop) (refs : Slot → Nat) (dp ip : Slot) (name : List UInt8)
    (type : FType) (s : Fs) (ok : Bool) (t : Fs) : Prop :=
  Sound sb orphan t (bump (bump refs dp) ip) ∧ Keeps (bump (bump refs dp) ip) s t ∧
    (ok = true ∧ find ((tree s).ents (s.itable dp).inum) name = none ∧
      tree t = (newDir (tree s) type (s.itable dp).inum (s.itable ip).inum).setEnts
        (s.itable dp).inum (withEntry (tree s) (s.itable dp).inum ⟨(s.itable ip).inum, cstr name⟩) ∨
      ok = false ∧ ∃ es, tree t = (tree s).setEnts (s.itable ip).inum es)

lemma createEntries_safe (tame : Benign E) (sound : Sound sb O s (bump (bump refs dp) ip))
    (valid : (s.itable dp).valid = true) (isDir : (s.itable dp).copy.type = .dir)
    (validIp : (s.itable ip).valid = true) (typeIp : (s.itable ip).copy.type = type)
    (apart : (s.itable dp).inum ≠ (s.itable ip).inum) (nonzero : (s.itable ip).inum ≠ 0)
    (empty : (tree s).ents (s.itable ip).inum = []) :
    Safe E (createEntries sb dp ip name type) s (Entered sb O refs dp ip name type s) := by
  have posDp : 0 < bump (bump refs dp) ip dp := bump_pos bump_gt
  have posIp : 0 < bump (bump refs dp) ip ip := bump_gt
  have smallIp := sound.table.inside ip posIp
  have smallDp := sound.table.inside dp posDp
  have full : E "iget: no inodes" := tame _ (by decide)
  have read : E "dirlookup read" := tame _ (by decide)
  apply safe_get
  have notMade : ∀ t, Sound sb O t (bump (bump refs dp) ip) → Keeps (bump (bump refs dp) ip) s t →
    (∃ es, tree t = (tree s).setEnts (s.itable ip).inum es) →
    Safe E (if false = true then dirlink sb dp name (s.itable ip).inum else pure false : F Bool) t
      (Entered sb O refs dp ip name type s) := by
    intro t sound' keeps es
    rw [if_neg Bool.false_ne_true]
    exact safe_pure ⟨sound', keeps, .inr ⟨rfl, es⟩⟩
  have made : ∀ t, Sound sb O t (bump (bump refs dp) ip) → Keeps (bump (bump refs dp) ip) s t →
    tree t = newDir (tree s) type (s.itable dp).inum (s.itable ip).inum →
    Safe E (if true = true then dirlink sb dp name (s.itable ip).inum else pure false : F Bool) t
      (Entered sb O refs dp ip name type s) := by
    intro t sound' keeps eq
    rw [if_pos rfl]
    have inum := keeps.inum dp posDp
    have valid' := keeps.valid dp posDp valid
    have typ : (tree t).typ (s.itable dp).inum = (tree s).typ (s.itable dp).inum := by
      rw [eq, newDir]
      split <;> rfl
    have entsDp : (tree t).ents (s.itable dp).inum = (tree s).ents (s.itable dp).inum := by
      rw [eq, newDir]
      split
      · exact update_of_ne apart ..
      · rfl
    have dir' : (t.itable dp).copy.type = .dir := by
      rw [type_kept sound sound' inum posDp posDp valid valid' typ]
      exact isDir
    apply (dirlink_safe full (.inr read) tame.logged sound' posDp valid' dir' name smallIp).mono
    rintro ok u ⟨sound'', keeps', -, ⟨rfl, absent, linked⟩ | ⟨rfl, same, -⟩⟩
    · rw [inum, entsDp] at absent linked
      exact ⟨sound'', keeps.trans keeps', .inl ⟨rfl, absent, by rw [linked, eq]; rfl⟩⟩
    · refine ⟨sound'', keeps.trans keeps', .inr ⟨rfl, ?_⟩⟩
      rw [same, eq, newDir]
      split
      · exact ⟨_, rfl⟩
      · exact ⟨_, (setEnts_self _ _).symm⟩
  by_cases dir : type = .dir
  · rw [if_pos dir]
    have dirIp : (s.itable ip).copy.type = .dir := typeIp.trans dir
    apply Safe.bind (dirlink_safe full (.inr read) tame.logged sound posIp validIp dirIp dot smallIp)
    rintro ok t ⟨sound1, keeps1, -, ⟨rfl, -, linked⟩ | ⟨rfl, same, -⟩⟩
    · rw [if_pos rfl]
      have inum1 := keeps1.inum ip posIp
      have first : tree t = (tree s).setEnts (s.itable ip).inum [⟨(s.itable ip).inum, dot⟩] := by
        rw [linked, empty]
        rfl
      have valid1 := keeps1.valid ip posIp validIp
      have dir1 : (t.itable ip).copy.type = .dir := by
        rw [type_kept sound sound1 inum1 posIp posIp validIp valid1 (by rw [first]; rfl)]
        exact dirIp
      have ents1 : (tree t).ents (t.itable ip).inum = [⟨(s.itable ip).inum, dot⟩] := by
        rw [inum1, first]
        exact update_self ..
      apply Safe.bind (dirlink_safe full (.inr read) tame.logged sound1 posIp valid1 dir1 dotdot smallDp)
      rintro ok t2 ⟨sound2, keeps2, -, ⟨rfl, -, linked2⟩ | ⟨rfl, same2, -⟩⟩
      · refine made t2 sound2 (keeps1.trans keeps2) ?_
        have last : freeIdx [(⟨(s.itable ip).inum, dot⟩ : Dirent)] = 1 := by
          simp [freeIdx, List.findIdx_cons, nonzero]
        rw [linked2, ents1, last, inum1, first, newDir, if_pos dir]
        simp only [Tree.setEnts, update_idem]
        rfl
      · exact notMade t2 sound2 (keeps1.trans keeps2) ⟨_, same2.trans first⟩
    · rw [if_neg Bool.false_ne_true]
      exact safe_pure_bind (notMade t sound1 keeps1 ⟨_, same.trans (setEnts_self _ _).symm⟩)
  · rw [if_neg dir]
    refine safe_pure_bind (made s sound .refl ?_)
    rw [newDir, if_neg dir]

/-- What `create` and its parts leave: nothing in hand, or an inode of the right type. -/
def Created (sb : Super) (orphan : Nat → Prop) (refs : Slot → Nat) (s : Fs) (types : FType → Prop)
    (r : Option Slot) (t : Fs) : Prop :=
  Keeps refs s t ∧ Outcome (InUse refs s) (tree s) (tree t) ∧
    match r with
    | none => Sound sb orphan t refs
    | some k => Sound sb orphan t (bump refs k) ∧ (t.itable k).valid = true ∧
        types (t.itable k).copy.type

lemma Fresh.tree_make (fresh : Fresh sb O refs type i ip s t) : (tree t).setNlink i 1 = (tree s).make i type := by
  change (treeOf t.block t.dinode).setNlink i 1 = _
  rw [fresh.dinode, fresh.block, treeOf_update]
  apply Tree.ext
  all_goals
    intro j
    by_cases hj : j = i
    · subst hj
      simp [Tree.setNlink, Tree.make, entsOf, Dinode.zero]
    · simp [Tree.setNlink, Tree.make, hj, tree]

/-- The new inode `i` is in slot `ip`, and `s` is the state before it was taken. -/
structure Making (sb : Super) (orphan : Nat → Prop) (refs : Slot → Nat) (dp ip : Slot) (i : Nat) (s t : Fs) :
    Prop where
  sound : Sound sb orphan t (bump (bump refs dp) ip)
  keeps : Keeps (bump refs dp) s t
  inum : (t.itable ip).inum = i
  valid : (t.itable ip).valid = true

section
variable (tame : Benign E)
include tame

section
variable (sound : Sound sb O s (bump refs dp)) (valid : (s.itable dp).valid = true)
  (isDir : (s.itable dp).copy.type = .dir) (real : type ≠ .free) (free : (s.dinode i).type = .free) (pos : i ≠ 0)
  (ne : (s.itable dp).inum ≠ i) (making : Making sb O refs dp ip i s t)
  (absent : find ((tree s).ents (s.itable dp).inum) name = none)
  (eq : tree t = (newDir ((tree s).make i type) type (s.itable dp).inum i).setEnts (s.itable dp).inum
    (withEntry ((tree s).make i type) (s.itable dp).inum ⟨i, cstr name⟩))
include sound valid isDir real free pos ne making absent eq

/-- A new directory has an entry `..`, which counts for its parent. -/
lemma countParent_safe : Safe E (if type = .dir then do
      modCopy dp fun d => { d with nlink := d.nlink + 1 }
      iupdate sb dp
    else pure ()) t fun _ u => Sound sb O u (bump (bump refs dp) ip) ∧ Keeps (bump (bump refs dp) ip) t u ∧
      (tree u).typ i = type ∧ Edit (tree s) (tree u) := by
  have posDp : 0 < bump (bump refs dp) ip dp := bump_pos bump_gt
  have inumDp := making.keeps.inum dp bump_gt
  have validDp := making.keeps.valid dp bump_gt valid
  have entsDp : ((tree s).make i type).ents (s.itable dp).inum = (tree s).ents (s.itable dp).inum :=
    update_of_ne ne ..
  have typ : (tree t).typ i = type := by
    rw [eq, newDir]
    split <;> exact update_self ..
  by_cases dir : type = .dir
  · rw [if_pos dir]
    refine (recount_safe tame making.sound posDp validDp (fun d => { d with nlink := d.nlink + 1 })
      (fun _ => ⟨rfl, rfl, rfl⟩)).mono fun _ u count => ⟨count.sound, count.keeps, ?_, ?_⟩
    · rw [count.tree]
      exact typ
    · have edit := Edit.mkdir (s.itable dp).inum i name ((sound.typ bump_gt valid).trans isDir) free pos absent
      have nlink := making.sound.nlink posDp validDp
      have same : (tree t).nlink (s.itable dp).inum = (tree s).nlink (s.itable dp).inum := by
        rw [eq, newDir]
        split <;> exact update_of_ne ne ..
      rw [inumDp, same] at nlink
      rw [count.tree, inumDp, ← nlink, eq, newDir, if_pos dir, withEntry, entsDp, dir]
      exact edit
  · rw [if_neg dir]
    refine safe_pure ⟨making.sound, .refl, typ, ?_⟩
    have edit := Edit.make (s.itable dp).inum i name type ((sound.typ bump_gt valid).trans isDir) free pos real dir
      absent
    rw [eq, newDir, if_neg dir, withEntry, entsDp]
    exact edit

lemma createDone_safe : Safe E (do
      (if type = .dir then do
        modCopy dp fun d => { d with nlink := d.nlink + 1 }
        iupdate sb dp
      else pure ())
      iunlockput sb dp
      return some ip : F (Option Slot)) t (Created sb O refs s (· = type)) := by
  have posIp : 0 < bump (bump refs dp) ip ip := bump_gt
  refine (countParent_safe tame sound valid isDir real free pos ne making absent eq).bind ?_
  rintro _ t1 ⟨sound1, keeps1, typ1, edit⟩
  have sound1' : Sound sb O t1 (bump (bump refs ip) dp) := by
    rw [bump_comm]
    exact sound1
  apply Safe.bind (iunlockput_safe tame sound1')
  rintro _ t2 ⟨sound2, quiet2, -⟩
  have keeps := making.keeps.of_bump.trans keeps1.of_bump.of_bump
  have inum1 := (keeps1.inum ip posIp).trans making.inum
  have valid2 := quiet2.keeps.valid ip bump_gt (keeps1.valid ip posIp making.valid)
  have kept := quiet2.kept bump_gt
  refine safe_pure ⟨keeps.trans quiet2.of_bump.keeps, ?_, sound2, valid2, ?_⟩
  · exact .after (.of_edit edit) (quiet2.of_bump.reaps.mono fun _ use => keeps.inUse.mpr use)
  · rw [← sound2.typ bump_gt valid2, quiet2.keeps.inum ip bump_gt, kept.1, inum1, typ1]

end

/-- The inode that was made is freed again, and nothing of it is left. -/
lemma createFailed_safe (real : type ≠ .free) (free : (s.dinode i).type = .free) (unused : bump refs dp ip = 0)
    (making : Making sb O refs dp ip i s t) (eq : tree t = ((tree s).make i type).setEnts i es) :
    Safe E (do
      modCopy ip fun d => { d with nlink := 0 }
      iupdate sb ip
      iunlockput sb ip
      iunlockput sb dp
      return none : F (Option Slot)) t (Created sb O refs s (· = type)) := by
  have posIp : 0 < bump (bump refs dp) ip ip := bump_gt
  have was : (tree s).typ i = .free ∧ (tree s).nlink i = 0 ∧ (tree s).ents i = [] := by
    refine ⟨free, if_pos free, ?_⟩
    simp [tree, treeOf, entsOf, free]
  refine recount_bind_safe tame making.sound posIp making.valid (fun d => { d with nlink := 0 })
    (fun _ => ⟨rfl, rfl, rfl⟩) fun t1 count _ => ?_
  have keeps := making.keeps.trans count.keeps.of_bump
  have inum1 := (count.keeps.inum ip posIp).trans making.inum
  have valid1 := count.keeps.valid ip posIp making.valid
  have tree1 : tree t1 = (((tree s).make i type).setEnts i es).setNlink i 0 := by
    rw [count.tree, making.inum, eq]
  have zero1 : (t1.itable ip).copy.nlink = 0 := by
    rw [← count.sound.nlink posIp valid1, inum1, tree1]
    exact update_self ..
  apply Safe.bind (iunlockput_safe tame count.sound)
  rintro _ t2 ⟨sound2, quiet2, freed⟩
  have gone := freed unused valid1 zero1
  rw [inum1] at gone
  have reaps : Reaps (InUse (bump refs dp) t1) (tree s) (tree t2) := by
    refine reaps_forget (fun j other => ?_) was ?_ gone quiet2.reaps
    · rw [tree1]
      simp [Tree.setNlink, Tree.setEnts, Tree.make, other]
    · rw [tree1]
      simpa [Tree.setNlink, Tree.setEnts, Tree.make] using real
  apply Safe.bind (iunlockput_safe tame sound2)
  rintro _ t3 ⟨sound3, quiet3, -⟩
  have keeps2 := keeps.trans quiet2.keeps
  refine safe_pure ⟨keeps2.of_bump.trans quiet3.keeps, .of_reaps ?_, sound3⟩
  exact (reaps.mono fun _ use => InUse.bump (keeps.of_bump.inUse.mpr use)).trans
    (quiet3.reaps.mono fun _ use => keeps2.of_bump.inUse.mpr use)

lemma createNew_safe (sound : Sound sb O s (bump refs dp))
    (alive : Alive (bump refs dp) s) (valid : (s.itable dp).valid = true)
    (isDir : (s.itable dp).copy.type = .dir) (real : type ≠ .free) (major minor : Int16) :
    Safe E (createNew sb dp name type major minor) s (Created sb O refs s (· = type)) := by
  unfold createNew
  apply Safe.bind (ialloc_safe tame sound type)
  intro r t1 post
  cases r with
  | none =>
    obtain rfl : t1 = s := post
    apply Safe.bind (iunlockput_safe tame sound)
    rintro _ t2 ⟨sound2, quiet2, -⟩
    exact safe_pure ⟨quiet2.keeps, .of_reaps quiet2.reaps, sound2⟩
  | some ip =>
    obtain ⟨i, fresh⟩ : ∃ i, Fresh sb O (bump refs dp) type i ip s t1 := post
    have unused : bump refs dp ip = 0 := by
      by_contra used
      have pos := Nat.pos_of_ne_zero used
      have here := fresh.keeps.inum ip pos
      rw [fresh.inum] at here
      exact alive ip pos (by rw [← here]; exact fresh.free)
    have posDp : 0 < bump (bump refs dp) ip dp := bump_pos bump_gt
    have posIp : 0 < bump (bump refs dp) ip ip := bump_gt
    have typ1 : (t1.dinode (t1.itable ip).inum).type ≠ .free := by
      rw [fresh.dinode, fresh.inum, update_self]
      exact real
    apply Safe.bind (ilock_safe tame fresh.sound posIp (.inl typ1))
    rintro _ t2 ⟨sound2, keeps2, on2, valid2⟩
    have inum2 := (keeps2.inum ip posIp).trans fresh.inum
    refine recount_bind_safe tame sound2 posIp valid2 (fun d => { d with major := major, minor := minor, nlink := 1 })
      (fun _ => ⟨rfl, rfl, rfl⟩) fun t3 count _ => ?_
    have inum3 := (count.keeps.inum ip posIp).trans inum2
    have valid3 := count.keeps.valid ip posIp valid2
    have sound3 : Sound sb O t3 (bump (bump refs dp) ip) := by
      refine Sound.adopt ?_ posIp valid3
      rw [inum3]
      exact count.sound
    have keeps3 := fresh.keeps.trans (keeps2.trans count.keeps).of_bump
    have inumDp := keeps3.inum dp bump_gt
    have validDp := keeps3.valid dp bump_gt valid
    have ne : (s.itable dp).inum ≠ i := by
      intro eq
      exact alive dp bump_gt (by rw [eq]; exact fresh.free)
    have tree3 : tree t3 = (tree s).make i type := by
      rw [count.tree, inum2, on2.tree]
      exact fresh.tree_make
    have typIp : (t3.itable ip).copy.type = type := by
      rw [← sound3.typ posIp valid3, inum3, tree3]
      exact update_self ..
    have typDp : (t3.itable dp).copy.type = .dir := by
      rw [type_kept sound sound3 inumDp bump_gt posDp valid validDp ?_]
      · exact isDir
      · rw [tree3]
        exact update_of_ne ne ..
    apply Safe.bind (createEntries_safe tame sound3 validDp typDp valid3
      typIp (by rw [inumDp, inum3]; exact ne) (by rw [inum3]; exact fresh.pos) (by
        rw [inum3, tree3]
        exact update_self ..))
    rintro ok t4 ⟨sound4, keeps4, made⟩
    have making : Making sb O refs dp ip i s t4 :=
      ⟨sound4, keeps3.trans keeps4.of_bump, (keeps4.inum ip posIp).trans inum3, keeps4.valid ip posIp valid3⟩
    rw [inumDp, inum3, tree3] at made
    rcases made with ⟨rfl, absent, tree4⟩ | ⟨rfl, es, tree4⟩
    · rw [if_pos rfl]
      rw [show ((tree s).make i type).ents (s.itable dp).inum = (tree s).ents (s.itable dp).inum from
        update_of_ne ne ..] at absent
      exact createDone_safe tame sound valid isDir real fresh.free fresh.pos ne making absent tree4
    · rw [if_neg Bool.false_ne_true]
      exact createFailed_safe tame real fresh.free unused making tree4

section
variable (sound : Sound sb O s refs) (living : Alive refs s) (root : rootIno < sb.ninodes)
  (pos : 0 < refs cwd) (look : Lookups E s)
include sound living root pos look

lemma create_safe (path)
    (real : type ≠ .free) (major minor : Int16) :
    Safe E (create sb cwd path type major minor) s
      (Created sb O refs s fun c => c = type ∨ type = .file ∧ (c = .file ∨ c = .device)) := by
  apply Safe.bind (namex_safe tame sound root pos look (.inl (living cwd pos)) path true)
  intro r t0 post
  cases r with
  | none => exact safe_pure ⟨post.2.keeps, .of_reaps post.2.reaps, post.1⟩
  | some found =>
    obtain ⟨dp, name⟩ := found
    have named := post
    obtain ⟨valid0, dir0⟩ := named.dir rfl
    apply Safe.bind (ilock_safe tame named.sound bump_gt named.known)
    rintro _ t1 ⟨sound1, keeps1, on1, valid1⟩
    have quiet1 := named.quiet.trans (Quiet.of_onTable keeps1 on1).of_bump
    have dir1 : (t1.itable dp).copy.type = .dir := by
      rw [on1.copy named.sound sound1 keeps1 bump_gt bump_gt valid0]
      exact dir0
    apply Safe.bind (dirlookup_safe (fun _ => tame _ (by decide))
      (.inr (tame _ (by decide))) sound1 bump_gt valid1 dir1 name)
    rintro r t2 (⟨rfl, rfl, -, -⟩ | ⟨j, i, ip, rfl, found, here, got⟩)
    · have living1 := (living.quiet quiet1).bump sound1 valid1
      refine (createNew_safe tame sound1 living1 valid1 dir1 real major minor).mono fun r t post => ?_
      obtain ⟨keeps, outcome, result⟩ := post
      refine ⟨quiet1.keeps.trans keeps, .before quiet1.reaps (outcome.mono fun _ use =>
        quiet1.keeps.inUse.mpr use), ?_⟩
      cases r with
      | none => exact result
      | some k => exact ⟨result.1, result.2.1, .inl result.2.2⟩
    · dsimp only
      have sound2 : Sound sb O t2 (bump (bump refs ip) dp) := by
        rw [bump_comm]
        exact got.sound
      have quiet2 := quiet1.trans (Quiet.of_onTable got.keeps got.onTable).of_bump
      have known2 := (look.quiet quiet1).named sound1 bump_gt valid1 found here got
      apply Safe.bind (iunlockput_safe tame sound2)
      rintro _ t3 ⟨sound3, quiet3, -⟩
      apply Safe.bind (ilock_safe tame sound3 bump_gt (known2.quiet quiet3 bump_gt))
      rintro _ t4 ⟨sound4, keeps4, on4, valid4⟩
      have quiet4 := quiet2.trans (quiet3.trans (Quiet.of_onTable keeps4 on4)).of_bump
      apply safe_get
      split
      · rename_i ok
        exact safe_pure ⟨quiet4.keeps, .of_reaps quiet4.reaps, sound4, valid4, .inr ok⟩
      · apply Safe.bind (iunlockput_safe tame sound4)
        rintro _ t5 ⟨sound5, quiet5, -⟩
        have quiet := quiet4.trans quiet5
        exact safe_pure ⟨quiet.keeps, .of_reaps quiet.reaps, sound5⟩

lemma openInode_safe (path)
    (omode) :
    Safe E (openInode sb cwd path omode) s (Created sb O refs s fun c => c = .dir → omode = FsCalls.oRdonly) := by
  unfold openInode
  split
  · refine (create_safe tame sound living root pos look path (by decide) 0 0).mono
      fun r t post => ⟨post.1, post.2.1, ?_⟩
    cases r with
    | none => exact post.2.2
    | some k =>
      obtain ⟨-, -, sound', valid, type⟩ := post
      refine ⟨sound', valid, fun dir => ?_⟩
      rw [dir] at type
      simp at type
  · apply Safe.bind (namei_safe tame sound root pos look (.inl (living cwd pos)) path)
    intro r t0 post
    cases r with
    | none => exact safe_pure ⟨post.2.keeps, .of_reaps post.2.reaps, post.1⟩
    | some ip =>
      obtain ⟨sound0, quiet0, known0⟩ := post
      apply Safe.bind (ilock_safe tame sound0 bump_gt known0)
      rintro _ t1 ⟨sound1, keeps1, on1, valid1⟩
      have quiet1 := quiet0.trans (Quiet.of_onTable keeps1 on1).of_bump
      apply safe_get
      split
      · apply Safe.bind (iunlockput_safe tame sound1)
        rintro _ t2 ⟨sound2, quiet2, -⟩
        have quiet := quiet1.trans quiet2
        exact safe_pure ⟨quiet.keeps, .of_reaps quiet.reaps, sound2⟩
      · rename_i ok
        refine safe_pure ⟨quiet1.keeps, .of_reaps quiet1.reaps, sound1, valid1, fun dir => ?_⟩
        by_contra other
        exact ok ⟨dir, other⟩

end

lemma chdirInode_safe (sound : Sound sb O s (bump refs cwd))
    (root : rootIno < sb.ninodes) (look : Lookups E s) (known : Known E s cwd) (path) :
    Safe E (chdirInode sb cwd path) s fun r t =>
      match r with
      | none => Sound sb O t (bump refs cwd) ∧ Quiet (bump refs cwd) s t
      | some k => Sound sb O t (bump refs k) ∧ Quiet refs s t ∧ (t.itable k).valid = true := by
  apply Safe.bind (namei_safe tame sound root bump_gt look known path)
  intro r t0 post
  cases r with
  | none => exact safe_pure ⟨post.1, post.2⟩
  | some ip =>
    obtain ⟨sound0, quiet0, known0⟩ := post
    apply Safe.bind (ilock_safe tame sound0 bump_gt known0)
    rintro _ t1 ⟨sound1, keeps1, on1, valid1⟩
    have quiet1 := quiet0.trans (Quiet.of_onTable keeps1 on1).of_bump
    apply safe_get
    split
    · apply Safe.bind (iunlockput_safe tame sound1)
      rintro _ t2 ⟨sound2, quiet2, -⟩
      exact safe_pure ⟨sound2, quiet1.trans quiet2⟩
    · apply Safe.bind (iunlock_safe tame sound1 bump_gt)
      rintro _ t2 ⟨sound2, keeps2, on2⟩
      have sound2' : Sound sb O t2 (bump (bump refs ip) cwd) := by
        rw [bump_comm]
        exact sound2
      have valid2 := keeps2.valid ip bump_gt valid1
      apply Safe.bind (iput_safe tame sound2')
      rintro _ t3 ⟨sound3, keeps3, reaps3, -⟩
      refine safe_pure ⟨sound3, ?_, keeps3.valid ip bump_gt valid2⟩
      have last : Quiet (bump refs ip) t2 t3 := ⟨keeps3, reaps3⟩
      exact quiet1.of_bump.trans ((Quiet.of_onTable keeps2 on2).of_bump.of_bump.trans last.of_bump)

end

lemma readAll_eq (whole : Whole s.block (s.itable k).copy) (reads) : readAll sb k reads s = .ok ((), s) := by
  induction reads with
  | nil => rfl
  | cons read reads ih =>
    obtain ⟨off, count⟩ := read
    obtain ⟨r, eq⟩ : ∃ r, readi sb k (fun _ => true) off count s = .ok (r, s) :=
      readi_eq whole (fun _ => true) off count
    unfold readAll
    rw [bind_of_eq eq]
    exact ih

end Xv6.FsOps
