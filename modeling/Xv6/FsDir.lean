import Xv6.FsCalls
import Xv6.FsTable

/-! What the functions on directories do to the entries: `dirlookup` finds the first entry
of a name, `dirlink` fills the first free place, and the write of `sys_unlink` clears a
place. -/

namespace Xv6.FsDir

open ByteFields Params FsMachine FsTree FsBlocks FsData FsDisk FsTable Total List
open FsCalls (isdirempty)

section
variable {E : String → Prop} {sb : Super} {O : Nat → Prop} {s t u : Fs} {refs : Slot → Nat}
  {k : Slot} {name : List UInt8}

def Aligned (s : Fs) (k : Slot) : Prop := direntSize ∣ (s.itable k).copy.size

lemma drop_ents (isDir : d.type = .dir) (h : j < d.size / direntSize) :
    (entsOf block d).drop j = entAt block d j :: (entsOf block d).drop (j + 1) := by
  have lt : j < (entsOf block d).length := by rwa [entsOf_length isDir]
  have here : (entsOf block d)[j] = entAt block d j := by
    apply Option.some.inj
    rw [← getElem?_eq_getElem lt, entsOf_getElem? isDir, if_pos h]
  rw [drop_eq_getElem_cons lt, here]

lemma drop_ents_past (isDir : d.type = .dir) (h : ¬ j < d.size / direntSize) : (entsOf block d).drop j = [] := by
  apply drop_eq_nil_of_le
  rw [entsOf_length isDir]
  omega

lemma aligned_of_stop (le : j ≤ (s.itable k).copy.size / direntSize)
    (stop : ¬ direntSize * j < (s.itable k).copy.size) :
    Aligned s k ∧ j = (s.itable k).copy.size / direntSize := by
  unfold Aligned direntSize dirsiz at *
  omega

section
variable (full : (∀ l, 0 < refs l) → E "iget: no inodes") (read : Aligned s k ∨ E "dirlookup read")
  (sound : Sound sb O s refs) (pos : 0 < refs k) (valid : (s.itable k).valid = true)
  (isDir : (s.itable k).copy.type = .dir)
include full read sound pos valid isDir

lemma lookupFrom_safe (fuel j) (le : j ≤ (s.itable k).copy.size / direntSize)
    (enough : (s.itable k).copy.size < j + fuel) :
    Safe E (lookupFrom sb k name fuel (direntSize * j)) s fun r t =>
      (r = none ∧ t = s ∧ find ((entsOf s.block (s.itable k).copy).drop j) name = none ∧ Aligned s k) ∨
      ∃ x i l, r = some (direntSize * (j + x), l) ∧ find ((entsOf s.block (s.itable k).copy).drop j) name = some x ∧
        (entsOf s.block (s.itable k).copy)[j + x]? = some ⟨i, cstr name⟩ ∧
        Got sb O refs i l s t := by
  induction fuel generalizing j with
  | zero =>
    have := Nat.div_le_self (s.itable k).copy.size direntSize
    omega
  | succ fuel ih =>
    apply safe_get
    split
    · rename_i below
      apply safe_bind_eq (readDirent_eq (sound.whole pos valid) below)
      by_cases inside : j < (s.itable k).copy.size / direntSize
      · rw [if_pos inside]
        dsimp only
        have entry : (entsOf s.block (s.itable k).copy)[j]? = some (entAt s.block (s.itable k).copy j) := by
          rw [entsOf_getElem? isDir, if_pos inside]
        rw [drop_ents isDir inside, find_cons]
        by_cases found : (rawEnt s.block (s.itable k).copy j).inum ≠ 0 ∧
          namecmp name (rawEnt s.block (s.itable k).copy j).name = 0
        · have same := (namecmp_eq_zero _ _).mp found.2
          rw [if_pos found, if_pos ⟨found.1, same.symm⟩]
          have small : (rawEnt s.block (s.itable k).copy j).inum < sb.ninodes := by
            have mem := mem_of_getElem? entry
            rw [sound.clean pos valid] at mem
            have names := sound.disk.names _ _ mem
            rwa [← sound.clean pos valid] at names
          apply Safe.bind (iget_safe full sound small)
          intro l t got
          refine safe_pure (.inr ⟨0, _, l, rfl, rfl, ?_, got⟩)
          rw [add_zero, entry, same]
          rfl
        · have differs : ¬((entAt s.block (s.itable k).copy j).inum ≠ 0 ∧
            (entAt s.block (s.itable k).copy j).name = cstr name) :=
            fun both => found ⟨both.1, (namecmp_eq_zero _ _).mpr both.2.symm⟩
          rw [if_neg found, if_neg differs]
          apply (ih (j + 1) (by omega) (by omega)).mono
          rintro r t (⟨rfl, rfl, none, aligned⟩ | ⟨x, i, l, rfl, some_, here, got⟩)
          · exact .inl ⟨rfl, rfl, by rw [none]; rfl, aligned⟩
          · refine .inr ⟨x + 1, i, l, ?_, by rw [some_]; rfl, ?_, got⟩
            · rw [add_right_comm, add_assoc]
            · rwa [add_right_comm, add_assoc] at here
      · rw [if_neg inside]
        refine safe_throw (read.resolve_left fun aligned => ?_)
        unfold Aligned direntSize dirsiz at *
        omega
    · rename_i stop
      obtain ⟨aligned, rfl⟩ := aligned_of_stop le stop
      refine safe_pure (.inl ⟨rfl, rfl, ?_, aligned⟩)
      rw [drop_ents_past isDir (lt_irrefl _)]
      rfl

lemma dirlookup_safe (name) : Safe E (dirlookup sb k name) s fun r t =>
    (r = none ∧ t = s ∧ find ((tree s).ents (s.itable k).inum) name = none ∧ Aligned s k) ∨
    ∃ j i l, r = some (direntSize * j, l) ∧ find ((tree s).ents (s.itable k).inum) name = some j ∧
      ((tree s).ents (s.itable k).inum)[j]? = some ⟨i, cstr name⟩ ∧
      Got sb O refs i l s t := by
  apply safe_get
  rw [if_neg (not_not.mpr isDir), sound.ents pos valid]
  apply (lookupFrom_safe full read sound pos valid isDir _ 0 (Nat.zero_le _) (by omega)).mono
  rintro r t (none | ⟨x, i, l, rfl, found, here, got⟩)
  · exact .inl none
  · rw [Nat.zero_add] at here ⊢
    exact .inr ⟨x, i, l, rfl, found, here, got⟩

end

lemma freeDirent_eq (sb) (sound : Sound sb O s refs) (pos : 0 < refs k)
    (valid : (s.itable k).valid = true) (isDir : (s.itable k).copy.type = .dir)
    (aligned : Aligned s k) (fuel j) (le : j ≤ (s.itable k).copy.size / direntSize)
    (enough : (s.itable k).copy.size < j + fuel) :
    freeDirent sb k fuel (direntSize * j) s = .ok (direntSize *
      (j + freeIdx ((entsOf s.block (s.itable k).copy).drop j)), s) := by
  induction fuel generalizing j with
  | zero =>
    have := Nat.div_le_self (s.itable k).copy.size direntSize
    omega
  | succ fuel ih =>
    unfold freeDirent
    rw [bind_of_eq rfl]
    split
    · rename_i below
      have inside : j < (s.itable k).copy.size / direntSize := by
        unfold Aligned direntSize dirsiz at *
        omega
      rw [bind_of_eq (readDirent_eq (sound.whole pos valid) below), if_pos inside,
        drop_ents isDir inside, freeIdx, findIdx_cons]
      by_cases free : (rawEnt s.block (s.itable k).copy j).inum = 0
      · simp only [free, if_true, entAt, decide_true, cond_true, add_zero]
        rfl
      · simp only [free, if_false, entAt, decide_false, cond_false]
        rw [← Nat.mul_succ, ih (j + 1) (by omega) (by omega), freeIdx, add_right_comm, add_assoc]
    · rename_i stop
      obtain ⟨-, rfl⟩ := aligned_of_stop le stop
      rw [drop_ents_past isDir (lt_irrefl _)]
      rfl

lemma isdirempty_safe (read : Aligned s k ∨ E "isdirempty: readi")
    (sound : Sound sb O s refs) (pos : 0 < refs k) (valid : (s.itable k).valid = true)
    (isDir : (s.itable k).copy.type = .dir) (fuel j)
    (enough : (s.itable k).copy.size < j + fuel) :
    Safe E (isdirempty sb k fuel (direntSize * j)) s fun r t => t = s ∧
      r = ((entsOf s.block (s.itable k).copy).drop j).all fun e => e.inum = 0 := by
  induction fuel generalizing j with
  | zero =>
    refine safe_pure ⟨rfl, ?_⟩
    have := Nat.div_le_self (s.itable k).copy.size direntSize
    rw [drop_ents_past isDir (by omega)]
    rfl
  | succ fuel ih =>
    apply safe_get
    split
    · rename_i below
      apply safe_bind_eq (readDirent_eq (sound.whole pos valid) below)
      by_cases inside : j < (s.itable k).copy.size / direntSize
      · rw [if_pos inside, drop_ents isDir inside, all_cons]
        dsimp only
        by_cases free : (rawEnt s.block (s.itable k).copy j).inum = 0
        · rw [if_neg (not_not.mpr free)]
          simp only [entAt, free, decide_true, Bool.true_and]
          exact ih (j + 1) (by omega)
        · rw [if_pos free]
          refine safe_pure ⟨rfl, ?_⟩
          simp [entAt, free, decide_false]
      · rw [if_neg inside]
        refine safe_throw (read.resolve_left fun aligned => ?_)
        unfold Aligned direntSize dirsiz at *
        omega
    · rename_i stop
      refine safe_pure ⟨rfl, ?_⟩
      rw [drop_ents_past isDir]
      · rfl
      · unfold direntSize dirsiz at *
        omega

end

variable {sb : Super} {s t u : Fs}

lemma setEnts_self (T : Tree) (d) : T.setEnts d (T.ents d) = T := by rw [Tree.setEnts, Function.update_eq_self]

lemma writeEnt_safe (log : Logged E s) (sound : Sound sb O s refs) (pos : 0 < refs k)
    (valid : (s.itable k).valid = true) (isDir : (s.itable k).copy.type = .dir)
    (len : bytes.length = direntSize) (small : (entOf bytes).inum < sb.ninodes)
    (last : j ≤ (s.itable k).copy.size / direntSize)
    (aligned : j = (s.itable k).copy.size / direntSize → Aligned s k) :
    Safe E (writei sb k (kernelSrc bytes) (direntSize * j) direntSize) s fun r t =>
      Sound sb O t refs ∧ Keeps refs s t ∧ (Aligned s k → Aligned t k) ∧
      (r = direntSize ∧ tree t = (tree s).setEnts (s.itable k).inum
        (putEnt ((tree s).ents (s.itable k).inum) j (entOf bytes)) ∨
        r ≠ direntSize ∧ tree t = tree s ∧ j = (s.itable k).copy.size / direntSize ∧
          (Full sb t.bitmap ∨ maxfile * bsize < direntSize * j + direntSize)) := by
  have clean := sound.clean pos valid
  have whole := sound.whole pos valid
  have size := whole.size_le
  have le : direntSize * j ≤ (s.itable k).copy.size := (Nat.mul_le_mul_left _ last).trans (Nat.mul_div_le _ _)
  apply (writei_safe log sound.disk clean (sound.used pos valid) _ _ _).mono
  rintro r t (⟨rfl, rfl, short | long⟩ | ⟨tot, c, rfl, wrote⟩)
  · omega
  · refine ⟨sound, .refl, id, .inr ⟨by decide, rfl, ?_, .inr long⟩⟩
    unfold direntSize dirsiz at *
    omega
  · obtain ⟨table, keeps, copy⟩ := sound.wrote pos valid wrote
    have newSize := wrote.size
    rw [sound.ents pos valid]
    rcases wrote.ents_dir sound.disk clean isDir len aligned with ⟨rfl, ents⟩ | ⟨rfl, ents⟩
    · obtain ⟨disk, same⟩ := wrote.disk sound.disk clean (by
        rw [ents, clean]
        exact sound.disk.names _)
      refine ⟨⟨disk, table⟩, keeps, ?_, .inr ⟨by decide, ?_, ?_, ?_⟩⟩
      · intro old
        unfold Aligned at *
        rwa [copy, newSize, add_zero, max_eq_left le]
      · change treeOf t.block t.dinode = _
        rw [same, ents, ← sound.ents pos valid]
        exact setEnts_self _ _
      · by_contra ne
        obtain done | ⟨-, bn, below, none⟩ := wrote.short fun _ _ => rfl
        · exact absurd done (by decide)
        · refine whole bn ?_ none
          unfold direntSize dirsiz at *
          omega
      · obtain done | ⟨full, -⟩ := wrote.short fun _ _ => rfl
        · exact absurd done (by decide)
        · exact .inl full
    · obtain ⟨disk, changed⟩ := wrote.disk sound.disk clean (by
        intro e mem
        rw [ents, mem_iff_getElem?] at mem
        obtain ⟨j', here⟩ := mem
        rw [putEnt_getElem? _ _ (by rwa [entsOf_length isDir])] at here
        split at here
        · cases here
          exact small
        · refine sound.disk.names (s.itable k).inum e ?_
          rw [← clean]
          exact mem_of_getElem? here)
      refine ⟨⟨disk, table⟩, keeps, ?_, .inl ⟨rfl, ?_⟩⟩
      · intro old
        unfold Aligned at *
        rw [copy, newSize]
        unfold direntSize dirsiz at *
        omega
      · change treeOf t.block t.dinode = _
        rw [changed, ents]
        rfl

lemma dirlink_safe (full : E "iget: no inodes") (read : Aligned s k ∨ E "dirlookup read")
    (log : Logged E s) (sound : Sound sb O s refs) (pos : 0 < refs k)
    (valid : (s.itable k).valid = true) (isDir : (s.itable k).copy.type = .dir)
    (name) (small : inum < sb.ninodes) :
    Safe E (dirlink sb k name inum) s fun r t =>
      Sound sb O t refs ∧ Keeps refs s t ∧ (Aligned s k → Aligned t k) ∧
      (r = true ∧ find ((tree s).ents (s.itable k).inum) name = none ∧
        tree t = (tree s).setEnts (s.itable k).inum (putEnt ((tree s).ents (s.itable k).inum)
          (freeIdx ((tree s).ents (s.itable k).inum)) ⟨inum, cstr name⟩) ∨
        r = false ∧ tree t = tree s ∧ (find ((tree s).ents (s.itable k).inum) name ≠ none ∨
          Full sb t.bitmap ∨
            maxfile * bsize < direntSize * freeIdx ((tree s).ents (s.itable k).inum) + direntSize)) := by
  apply Safe.bind (dirlookup_safe (fun _ => full) read sound pos valid isDir name)
  rintro r t (⟨rfl, rfl, absent, aligned⟩ | ⟨j, i, l, rfl, found, -, got⟩)
  · have free := freeDirent_eq sb sound pos valid isDir aligned
      ((t.itable k).copy.size + 1) 0 (Nat.zero_le _) (by omega)
    rw [Nat.zero_add, drop_zero, ← sound.ents pos valid] at free
    have entry : entOf (Dirent.encode inum name) = ⟨inum, cstr name⟩ :=
      entOf_encode (small.trans_le sb.ninodes_le) name
    have last : freeIdx ((tree t).ents (t.itable k).inum) ≤ (t.itable k).copy.size / direntSize := by
      rw [← entsOf_length isDir, ← sound.ents pos valid]
      exact freeIdx_le _
    apply safe_get
    apply safe_bind_eq free
    apply Safe.bind (writeEnt_safe log sound pos valid isDir (encode_length inum name)
      (by rwa [entry]) last fun _ => aligned)
    rw [entry]
    rintro r u ⟨sound', keeps, aligned', ⟨rfl, tree⟩ | ⟨ne, tree, -, why⟩⟩
    · exact safe_pure ⟨sound', keeps, aligned', .inl ⟨by simp, absent, tree⟩⟩
    · exact safe_pure ⟨sound', keeps, aligned', .inr ⟨by simpa using ne, tree, .inr why⟩⟩
  · apply Safe.bind (got.iput_safe)
    rintro _ u ⟨sound', keeps, on⟩
    refine safe_pure ⟨sound', keeps, ?_, .inr ⟨rfl, on.tree, .inl (by rw [found]; simp)⟩⟩
    intro aligned
    rwa [Aligned, on.copy sound sound' keeps pos pos valid]

lemma entOf_zeros : entOf (replicate direntSize 0) = ⟨0, []⟩ := by decide

lemma erase_safe (log : Logged E s) (sound : Sound sb O s refs) (pos : 0 < refs k)
    (valid : (s.itable k).valid = true) (isDir : (s.itable k).copy.type = .dir)
    (inside : j < ((tree s).ents (s.itable k).inum).length) :
    Safe E (writei sb k (kernelSrc (replicate direntSize 0)) (direntSize * j) direntSize) s
      fun r t => Sound sb O t refs ∧ Keeps refs s t ∧ (Aligned s k → Aligned t k) ∧
        r = direntSize ∧ tree t = (tree s).setEnts (s.itable k).inum
          (putEnt ((tree s).ents (s.itable k).inum) j ⟨0, []⟩) := by
  rw [sound.ents pos valid, entsOf_length isDir] at inside
  have small : (entOf (replicate direntSize 0)).inum < sb.ninodes := by
    rw [entOf_zeros]
    exact Nat.zero_lt_of_lt (sound.table.inside k pos)
  apply (writeEnt_safe log sound pos valid isDir (length_replicate ..) small
    (le_of_lt inside) fun last => absurd last (ne_of_lt inside)).mono
  rintro r t ⟨sound', keeps, aligned, ⟨rfl, tree⟩ | ⟨-, -, last, -⟩⟩
  · rw [entOf_zeros] at tree
    exact ⟨sound', keeps, aligned, rfl, tree⟩
  · exact absurd last (ne_of_lt inside)

end Xv6.FsDir
