import Xv6.FsData

/-! The disk as a directory tree. `Disk` collects what holds of every disk the file system
leaves behind: the free map agrees with the block maps, no file has a hole, and
directories are whole entries that name inodes of the disk. -/

namespace Xv6.FsDisk

open ByteFields CString Params FsMachine FsTree FsBlocks FsData Total Function List

def entAt (block : Nat → Bytes bsize) (d : Dinode) (j : Nat) : Dirent :=
  ⟨(rawEnt block d j).inum, cstr (rawEnt block d j).name⟩

def entsOf (block : Nat → Bytes bsize) (d : Dinode) : List Dirent :=
  if d.type = .dir then (List.range (d.size / direntSize)).map (entAt block d) else []

def treeOf (block : Nat → Bytes bsize) (inode : Nat → Dinode) : Tree where
  typ i := (inode i).type
  nlink i := if (inode i).type = .free then 0 else (inode i).nlink
  ents i := entsOf block (inode i)

structure Disk (sb : Super) (bitmap : Nat → Bool) (block : Nat → Bytes bsize)
    (inode : Nat → Dinode) : Prop where
  owned : Owned sb bitmap (ptr block inode)
  whole : ∀ i, (inode i).type ≠ .free → Whole block (inode i)
  outside : ∀ i, sb.ninodes ≤ i → (inode i).type = .free
  names : ∀ i, ∀ e ∈ entsOf block (inode i), e.inum < sb.ninodes

variable {sb : Super} {bitmap : Nat → Bool} {block block' : Nat → Bytes bsize}

lemma entAt_congr (same : ∀ t, t < direntSize →
      content block' d' (direntSize * j + t) = content block d (direntSize * j + t)) :
    entAt block' d' j = entAt block d j := by
  have raw : rawEnt block' d' j = rawEnt block d j := by
    unfold rawEnt
    congr 1
    apply map_congr_left
    intro t mem
    exact same t (mem_range.mp mem)
  rw [entAt, entAt, raw]

lemma entsOf_length (isDir : d.type = .dir) : (entsOf block d).length = d.size / direntSize := by
  simp [entsOf, isDir]

lemma entsOf_getElem? (isDir : d.type = .dir) :
    (entsOf block d)[j]? = if j < d.size / direntSize then some (entAt block d j) else none := by
  by_cases h : j < d.size / direntSize
  · simp [entsOf, isDir, h]
  · simp [entsOf, isDir, h]

section
variable (disk : Disk sb bitmap block inode)
include disk

lemma Disk.entry_mapped (isDir : (inode i).type = .dir) (h : j < (inode i).size / direntSize) (lt : t < direntSize) :
    addrOf block (inode i) ((direntSize * j + t) / bsize) ≠ 0 := by
  have used : (inode i).type ≠ .free := by rw [isDir]; decide
  apply disk.whole i used
  have below : direntSize * j + t < (inode i).size := by
    unfold direntSize dirsiz at *
    omega
  have := Nat.div_mul_le_self (direntSize * j + t) bsize
  omega

lemma entsOf_agree (agree : Agree P block block' inode inode') (size : (inode' i).size = (inode i).size)
    (kept : ∀ x, P i x) : entsOf block' (inode' i) = entsOf block (inode i) := by
  unfold entsOf
  rw [agree.type i, size]
  split
  · rename_i isDir
    apply map_congr_left
    intro j mem
    have used : (inode i).type ≠ .free := by rw [isDir]; decide
    apply entAt_congr
    intro t lt
    exact agree.bytes i _ used (disk.entry_mapped isDir (mem_range.mp mem) lt) (kept _)
  · rfl

lemma Disk.setEmpty (owned : Owned sb bitmap' fun p => if p.inode = i then 0 else ptr block inode p)
    (addrs : d.addrs = fun _ => 0) (size : d.size = 0) (inside : d.type = .free ∨ i < sb.ninodes) :
    Disk sb bitmap' block (update inode i d) := by
  have none : entsOf block d = [] := by simp [entsOf, size]
  constructor
  · rwa [ptr_emptied addrs]
  · intro i' used
    by_cases hi : i' = i
    · subst hi
      intro bn below
      rw [update_self, size] at below
      omega
    · rw [update_of_ne hi] at used ⊢
      exact disk.whole i' used
  · intro i' past
    by_cases hi : i' = i
    · subst hi
      rw [update_self]
      exact inside.resolve_right (by omega)
    · rw [update_of_ne hi]
      exact disk.outside i' past
  · intro i' e mem
    by_cases hi : i' = i
    · subst hi
      rw [update_self, none] at mem
      cases mem
    · rw [update_of_ne hi] at mem
      exact disk.names i' e mem

end

lemma treeOf_update (block inode i d) : treeOf block (update inode i d) = {
    typ := update (treeOf block inode).typ i d.type
    nlink := update (treeOf block inode).nlink i (if d.type = .free then 0 else d.nlink)
    ents := update (treeOf block inode).ents i (entsOf block d) } := by
  apply Tree.ext
  all_goals
    intro i'
    by_cases hi : i' = i
    · subst hi
      simp [treeOf]
    · simp [treeOf, update_of_ne hi]

lemma ptr_setMeta (type : d.type = (inode i).type) (addrs : d.addrs = (inode i).addrs) :
    ptr block (update inode i d) = ptr block inode := by
  funext p
  cases p with
  | indirect i' =>
    by_cases hi : i' = i
    · subst hi
      simp [ptr, type, addrs]
    · simp [ptr, update_of_ne hi]
  | data i' bn =>
    by_cases hi : i' = i
    · subst hi
      simp [ptr, addrOf, type, addrs]
    · simp [ptr, update_of_ne hi]

lemma content_congr (addrs : d'.addrs = d.addrs) (x) : content block d' x = content block d x := by
  simp [content, addrOf, addrs]

lemma entsOf_congr (type : d'.type = d.type) (size : d'.size = d.size)
    (addrs : d'.addrs = d.addrs) : entsOf block d' = entsOf block d := by
  unfold entsOf
  rw [type, size]
  split
  · apply map_congr_left
    intro j _
    exact entAt_congr fun t _ => content_congr addrs _
  · rfl

lemma Disk.setMeta (disk : Disk sb bitmap block inode) (type : d.type = (inode i).type)
    (size : d.size = (inode i).size) (addrs : d.addrs = (inode i).addrs) :
    Disk sb bitmap block (update inode i d) := by
  have same : ∀ i', (update inode i d i').type = (inode i').type ∧ (update inode i d i').size = (inode i').size ∧
    (update inode i d i').addrs = (inode i').addrs := by
    intro i'
    by_cases hi : i' = i
    · subst hi
      rw [update_self]
      exact ⟨type, size, addrs⟩
    · rw [update_of_ne hi]
      exact ⟨rfl, rfl, rfl⟩
  constructor
  · rw [ptr_setMeta type addrs]
    exact disk.owned
  · intro i' used bn below
    rw [(same i').1] at used
    rw [(same i').2.1] at below
    have has := disk.whole i' used bn below
    simpa only [addrOf, (same i').2.2] using has
  · intro i' past
    rw [(same i').1]
    exact disk.outside i' past
  · intro i' e mem
    rw [entsOf_congr (same i').1 (same i').2.1 (same i').2.2] at mem
    exact disk.names i' e mem

section
variable {s t : Fs} {k : Slot}

def Rewrites (k : Slot) (c : Dinode) (s t : Fs) : Prop :=
  ∃ bm bl l, t = { s with
    bitmap := bm
    block := bl
    dinode := Function.update s.dinode (s.itable k).inum c
    itable := Function.update s.itable k { s.itable k with copy := c }
    lh := l }

/-- `writei` has written `tot` bytes of `src` at `off`; the inode is now `c`. -/
structure Wrote (sb : Super) (k : Slot) (src : Nat → Option UInt8) (off n tot : Nat) (c : Dinode)
    (s t : Fs) : Prop where
  rewrites : Rewrites k c s t
  owned : Owned sb t.bitmap (ptr t.block t.dinode)
  agree : ∀ m, (m = n ∨ Readable src n ∧ m = tot) →
    Agree (Outside (s.itable k).inum off m) s.block t.block s.dinode t.dinode
  start : off ≤ (s.itable k).copy.size
  le : tot ≤ n
  size : c.size = max (s.itable k).copy.size (off + tot)
  filled : ∀ bn, bn * bsize < off + tot → addrOf t.block c bn ≠ 0
  bytes : ∀ x, off ≤ x → x < off + tot → src (x - off) = some (content t.block c x)
  chunks : Readable src n → tot = n ∨ tot = 0 ∨ (off + tot) % bsize = 0
  short : Readable src n → tot = n ∨ Full sb t.bitmap ∧
    ∃ bn, bn * bsize < off + n ∧ addrOf s.block (s.itable k).copy bn = 0

lemma ptr_resize (block inode i size d) :
    ptr block (update inode i { d with size := size }) = ptr block (update inode i d) := by
  funext p
  cases p with
  | indirect i' => by_cases hi : i' = i <;> simp [ptr, hi]
  | data i' bn => by_cases hi : i' = i <;> simp [ptr, hi, addrOf]

lemma Agree.resize (h : Agree P block block' inode (update inode' i d)) :
    Agree P block block' inode (update inode' i { d with size := size }) := by
  have same : ∀ i', ∃ size', update inode' i { d with size := size } i' =
    { update inode' i d i' with size := size' } := by
    intro i'
    by_cases hi : i' = i
    · subst hi
      exact ⟨size, by simp⟩
    · exact ⟨(inode' i').size, by simp [hi]⟩
  constructor
  · intro i'
    obtain ⟨_, eq⟩ := same i'
    rw [eq]
    exact h.type i'
  · intro i'
    obtain ⟨_, eq⟩ := same i'
    rw [eq]
    exact h.nlink i'
  · intro i' bn used has
    obtain ⟨_, eq⟩ := same i'
    rw [eq]
    exact h.mapped i' bn used has
  · intro i' x used has inP
    obtain ⟨_, eq⟩ := same i'
    rw [eq]
    exact h.bytes i' x used has inP

lemma writei_safe (log : Logged E s) (disk : Disk sb s.bitmap s.block s.dinode)
    (clean : (s.itable k).copy = s.dinode (s.itable k).inum)
    (used : (s.itable k).copy.type ≠ .free) (src off n) :
    Safe E (writei sb k src off n) s fun r t =>
      (r = -1 ∧ t = s ∧ ((s.itable k).copy.size < off ∨ maxfile * bsize < off + n)) ∨
      ∃ (tot : Nat) (c : Dinode), r = tot ∧ Wrote sb k src off n tot c s t := by
  have inoEq : ino s k = s.dinode := by rw [ino, clean, update_eq_self]
  apply safe_get
  split
  · rename_i early
    refine safe_pure (.inl ⟨rfl, rfl, early.imp_right fun wraps => ?_⟩)
    have : maxfile * bsize < 2 ^ 32 := by decide
    omega
  · rename_i start
    split
    · rename_i long
      exact safe_pure (.inl ⟨rfl, rfl, .inr long⟩)
    · have whole : Whole s.block (s.itable k).copy := by
        rw [clean] at used ⊢
        exact disk.whole _ used
      apply Safe.bind (writeLoop_safe log src n n off 0 (by rw [inoEq]; exact disk.owned) used
        (by omega) (by omega) (by omega) (fun bn below => whole bn (by omega)))
      rintro ⟨tot, off'⟩ u written
      obtain ⟨bm, bl, ad, l, rfl⟩ := (written.grown _ (.inl rfl)).shape
      apply safe_mod
      apply Safe.bind (iupdate_safe (by exact log) k)
      rintro _ _ ⟨l', rfl⟩
      have reach : off' = off + tot := by simpa using written.reach
      subst reach
      have owned := (written.grown _ (.inl rfl)).owned
      have agree := fun m which => (written.grown m which).agree
      have filled := written.filled
      have bytes := written.bytes
      rw [inoEq] at agree
      simp only [ino, update_self, Nat.sub_zero] at owned agree filled bytes
      refine safe_pure (.inr ⟨tot, { (s.itable k).copy with
        addrs := ad
        size := if (s.itable k).copy.size < off + tot then off + tot
          else (s.itable k).copy.size }, rfl,
          ⟨⟨bm, bl, l', ?_⟩, ?_, ?_, by omega, written.hi, ?_, ?_, ?_, ?_, written.short⟩⟩)
      · simp [ino, update_idem]
      · simp only [ino, update_self]
        rw [← ptr_resize] at owned
        exact owned
      · intro m which
        simp only [ino, update_self]
        exact Agree.resize (agree m which)
      · dsimp only
        split <;> omega
      · exact filled
      · intro x lo hi
        have here := bytes x lo hi
        rw [Nat.zero_add] at here
        exact here
      · intro all
        rcases written.chunks all with done | here | boundary
        · exact .inl done
        · exact .inr (.inl (by dsimp only at here; omega))
        · exact .inr (.inr boundary)

section
lemma Rewrites.self (h : Rewrites k c s t) : t.dinode (s.itable k).inum = c := by
  obtain ⟨_, _, _, rfl⟩ := h
  exact update_self ..

lemma Rewrites.other (h : Rewrites k c s t) (ne : i ≠ (s.itable k).inum) : t.dinode i = s.dinode i := by
  obtain ⟨_, _, _, rfl⟩ := h
  exact update_of_ne ne ..

lemma Rewrites.slot (h : Rewrites k c s t) (l) :
    (t.itable l).inum = (s.itable l).inum ∧ (t.itable l).lock = (s.itable l).lock := by
  obtain ⟨_, _, _, rfl⟩ := h
  by_cases hl : l = k
  · subst hl
    simp
  · simp [update_of_ne hl]

section
variable (wrote : Wrote sb k src off n tot c s t)
include wrote

lemma Wrote.whole (disk : Disk sb s.bitmap s.block s.dinode)
    (clean : (s.itable k).copy = s.dinode (s.itable k).inum) (i)
    (used : (t.dinode i).type ≠ .free) : Whole t.block (t.dinode i) := by
  have agree := wrote.agree n (.inl rfl)
  intro bn below
  rw [agree.type i] at used
  by_cases hi : i = (s.itable k).inum
  · subst hi
    rw [wrote.rewrites.self, wrote.size, clean] at below
    by_cases old : bn * bsize < (s.dinode (s.itable k).inum).size
    · have has := disk.whole _ used bn old
      rwa [← agree.mapped _ bn used has] at has
    · rw [wrote.rewrites.self]
      exact wrote.filled bn (by omega)
  · have has := disk.whole i used bn (by rwa [wrote.rewrites.other hi] at below)
    rwa [← agree.mapped i bn used has] at has

lemma Wrote.ents_other (disk : Disk sb s.bitmap s.block s.dinode) (ne : i ≠ (s.itable k).inum) :
    entsOf t.block (t.dinode i) = entsOf s.block (s.dinode i) :=
  entsOf_agree disk (wrote.agree n (.inl rfl)) (by rw [wrote.rewrites.other ne]) fun _ eq => absurd eq ne

lemma Wrote.type (clean : (s.itable k).copy = s.dinode (s.itable k).inum) : c.type = (s.itable k).copy.type := by
  rw [clean, ← (wrote.agree n (.inl rfl)).type, wrote.rewrites.self]

lemma Wrote.disk (disk : Disk sb s.bitmap s.block s.dinode) (clean : (s.itable k).copy = s.dinode (s.itable k).inum)
    (names : ∀ e ∈ entsOf t.block c, e.inum < sb.ninodes) :
    Disk sb t.bitmap t.block t.dinode ∧ treeOf t.block t.dinode =
      (treeOf s.block s.dinode).setEnts (s.itable k).inum (entsOf t.block c) := by
  have agree := wrote.agree n (.inl rfl)
  refine ⟨⟨wrote.owned, wrote.whole disk clean, ?_, ?_⟩, ?_⟩
  · intro i past
    rw [agree.type i]
    exact disk.outside i past
  · intro i e mem
    by_cases hi : i = (s.itable k).inum
    · subst hi
      rw [wrote.rewrites.self] at mem
      exact names e mem
    · rw [wrote.ents_other disk hi] at mem
      exact disk.names i e mem
  · apply Tree.ext
    · exact agree.type
    · intro i
      simp [treeOf, agree.type i, agree.nlink i, Tree.setEnts]
    · intro i
      by_cases hi : i = (s.itable k).inum
      · subst hi
        simp [treeOf, wrote.rewrites.self, Tree.setEnts]
      · simp [treeOf, wrote.ents_other disk hi, Tree.setEnts, update_of_ne hi]

lemma Wrote.disk_file (disk : Disk sb s.bitmap s.block s.dinode)
    (clean : (s.itable k).copy = s.dinode (s.itable k).inum)
    (file : (s.itable k).copy.type ≠ .dir) :
    Disk sb t.bitmap t.block t.dinode ∧ treeOf t.block t.dinode = treeOf s.block s.dinode := by
  have none : entsOf t.block c = [] := by
    rw [← wrote.type clean] at file
    simp [entsOf, file]
  obtain ⟨disk', tree⟩ := wrote.disk disk clean (by rw [none]; exact fun _ mem => absurd mem not_mem_nil)
  refine ⟨disk', tree.trans ?_⟩
  have old : entsOf t.block c = (treeOf s.block s.dinode).ents (s.itable k).inum := by
    rw [none]
    rw [clean] at file
    simp [treeOf, entsOf, file]
  rw [old, Tree.setEnts, update_eq_self]

end

section
variable {bytes : List UInt8}

def entOf (bytes : List UInt8) : Dirent :=
  ⟨(Dirent.decode bytes).inum, cstr (Dirent.decode bytes).name⟩

lemma encode_length (inum name) : (Dirent.encode inum name).length = direntSize := by
  simp only [Dirent.encode, length_cons, length_strncpy]
  unfold direntSize
  omega

lemma entOf_encode (small : inum < 2 ^ 16) (name) : entOf (Dirent.encode inum name) = ⟨inum, cstr name⟩ := by
  have low : (UInt8.ofNat inum).toNat = inum % 256 := by simp
  have high : (UInt8.ofNat (inum / 256)).toNat = inum / 256 % 256 := by simp
  simp only [entOf, Dirent.decode, Dirent.encode, getD_cons_zero, getD_cons_succ,
    drop_succ_cons, drop_zero, cstr, text_strncpy, low, high, Dirent.mk.injEq, and_true]
  omega

lemma Wrote.entAt_self (wrote : Wrote sb k (kernelSrc bytes) (direntSize * j) direntSize direntSize c s t)
    (len : bytes.length = direntSize) : entAt t.block c j = entOf bytes := by
  have raw : rawEnt t.block c j = Dirent.decode bytes := by
    unfold rawEnt
    congr 1
    apply ext_getElem
    · simp [len]
    · intro x _ inside
      have here := wrote.bytes (direntSize * j + x) (by omega) (by omega)
      simp only [getElem_map, getElem_range]
      rw [← Option.some.inj here]
      simp [inside]
  rw [entAt, raw, entOf]

section
variable (wrote : Wrote sb k (kernelSrc bytes) (direntSize * j) direntSize tot c s t)
  (disk : Disk sb s.bitmap s.block s.dinode)
  (clean : (s.itable k).copy = s.dinode (s.itable k).inum) (isDir : (s.itable k).copy.type = .dir)
include wrote disk clean isDir

lemma Wrote.entAt_other (ne : j' ≠ j) (inside : j' < (s.itable k).copy.size / direntSize) :
    entAt t.block c j' = entAt s.block (s.itable k).copy j' := by
  rw [clean] at isDir inside ⊢
  rw [← wrote.rewrites.self]
  apply entAt_congr
  intro x lt
  refine (wrote.agree _ (.inl rfl)).bytes _ _ (by rw [isDir]; decide) (disk.entry_mapped isDir inside lt) fun _ => ?_
  unfold direntSize dirsiz at *
  omega

lemma Wrote.ents_dir (len : bytes.length = direntSize)
    (aligned : j = (s.itable k).copy.size / direntSize → direntSize ∣ (s.itable k).copy.size) :
    tot = 0 ∧ entsOf t.block c = entsOf s.block (s.itable k).copy ∨ tot = direntSize ∧
      entsOf t.block c = putEnt (entsOf s.block (s.itable k).copy) j (entOf bytes) := by
  have all : Readable (kernelSrc bytes) direntSize := fun _ _ => rfl
  have le := wrote.le
  have start := wrote.start
  have size := wrote.size
  have cDir : c.type = .dir := by rw [wrote.type clean, isDir]
  have which : tot = 0 ∨ tot = direntSize := by
    rcases wrote.chunks all with done | none | boundary
    · exact .inr done
    · exact .inl none
    · unfold direntSize dirsiz bsize at *
      omega
  rcases which with rfl | rfl
  · have same : c.size = (s.itable k).copy.size := by omega
    refine .inl ⟨rfl, ?_⟩
    have kept := entsOf_agree disk (wrote.agree 0 (.inr ⟨all, rfl⟩))
      (by rw [wrote.rewrites.self, same, clean]) fun x _ => by omega
    rwa [wrote.rewrites.self, ← clean] at kept
  · have last : j ≤ (entsOf s.block (s.itable k).copy).length := by
      rw [entsOf_length isDir]
      unfold direntSize dirsiz at *
      omega
    refine .inr ⟨rfl, ?_⟩
    apply ext_getElem?
    intro j'
    rw [putEnt_getElem? _ _ last, entsOf_getElem? cDir, entsOf_getElem? isDir]
    by_cases h : j' = j
    · subst h
      rw [if_pos rfl, wrote.entAt_self len, if_pos]
      unfold direntSize dirsiz at *
      omega
    · rw [if_neg h]
      by_cases old : j' < (s.itable k).copy.size / direntSize
      · rw [if_pos old, wrote.entAt_other disk clean isDir h old, if_pos]
        unfold direntSize dirsiz at *
        omega
      · rw [if_neg old, if_neg]
        unfold direntSize dirsiz at *
        omega

end

end

end

end

end Xv6.FsDisk
