import Xv6.FsTable

/-! The disk that `mkfs` makes when it is given no files, as the first process finds
it: the root directory is the only inode, and slot 0 of the table refers to it. -/

namespace Xv6.FsImage

open ByteFields Params FsMachine FsTree FsBlocks FsData FsDisk FsTable

/-- `FSSIZE` blocks, of which the log has 30, the inodes 13 and the free map one. -/
def super : Super := ⟨2000, 1954, 200, 32, 45, by decide, by decide, by decide⟩

def rootDir : Bytes bsize :=
  pokeBytes (zeros bsize) 0 (Dirent.encode rootIno dot ++ Dirent.encode rootIno dotdot)

def rootInode : Dinode := ⟨.dir, 0, 0, 1, bsize, fun a => if a = 0 then 46 else 0⟩

def image : Fs where
  bitmap b := b < 47
  dinode i := if i = rootIno then rootInode else Dinode.zero
  block b := if b = 46 then rootDir else zeros bsize
  itable k := if k = 0 then ⟨rootIno, 1, false, false, Dinode.zero⟩
    else ⟨0, 0, false, false, Dinode.zero⟩
  outstanding := 0
  lh := []

def cwdRefs (k : Slot) : Nat := if k = 0 then 1 else 0

lemma dinode_other {i : Nat} (h : i ≠ rootIno) : (image.dinode i).type = .free := by simp [image, h, Dinode.zero]

lemma ptr_image (p : Place) : ptr image.block image.dinode p = if p = .data rootIno 0 then 46 else 0 := by
  cases p with
  | indirect i =>
    by_cases hi : i = rootIno
    · subst hi
      rfl
    · simp [ptr, dinode_other hi]
  | data i bn =>
    by_cases hi : i = rootIno
    · subst hi
      have used : (image.dinode rootIno).type ≠ .free := by decide
      rw [ptr_data used]
      by_cases low : bn < ndirect
      · rw [addrOf_direct _ low]
        by_cases zero : bn = 0
        · subst zero
          rfl
        · have other : (⟨bn, Nat.lt_succ_of_lt low⟩ : Fin (ndirect + 1)) ≠ 0 :=
            fun eq => zero (Fin.val_eq_of_eq eq)
          have ne : Place.data rootIno bn ≠ .data rootIno 0 := fun eq => zero (Place.data.inj eq).2
          rw [if_neg ne]
          exact if_neg other
      · have far : bn ≠ 0 := by
          unfold ndirect at low
          omega
        rw [addrOf_none _ (by omega) rfl]
        simp [far]
    · simp [ptr, dinode_other hi, hi]

lemma owned_image : Owned super image.bitmap (ptr image.block image.dinode) := by
  have here : ∀ p, ptr image.block image.dinode p ≠ 0 → p = .data rootIno 0 := by
    intro p has
    rw [ptr_image] at has
    by_contra other
    rw [if_neg other] at has
    exact has rfl
  refine ⟨⟨?_, ?_, ?_, ?_⟩, ?_⟩
  · rintro ⟨low, -⟩
    exact absurd low (by decide)
  · intro p has
    rw [here p has]
    exact ⟨by decide, by decide⟩
  · intro p q has same
    rw [here p has, here q (same ▸ has)]
  · rintro b ⟨low, -⟩
    have low : 46 ≤ b := low
    constructor
    · intro set
      have high : b < 47 := of_decide_eq_true set
      obtain rfl : b = 46 := by omega
      exact ⟨.data rootIno 0, rfl⟩
    · rintro ⟨p, rfl⟩
      rw [here p (by omega)]
      rfl
  · intro b low
    have low : b < 46 := low
    exact decide_eq_true (by omega)

lemma disk_image : Disk super image.bitmap image.block image.dinode := by
  refine ⟨owned_image, ?_, ?_, ?_⟩
  · intro i used bn below
    by_cases hi : i = rootIno
    · subst hi
      have below : bn * bsize < bsize := below
      obtain rfl : bn = 0 := by
        unfold bsize at below
        omega
      decide
    · exact absurd (dinode_other hi) used
  · intro i past
    refine dinode_other ?_
    rintro rfl
    exact absurd past (by decide)
  · intro i e mem
    by_cases hi : i = rootIno
    · subst hi
      revert e
      decide +kernel
    · simp [entsOf, dinode_other hi] at mem

lemma sound_image (O : Nat → Prop) : Sound super O image cwdRefs := by
  have slot : ∀ k, 0 < cwdRefs k → k = 0 := by
    intro k pos
    by_contra other
    simp [cwdRefs, other] at pos
  refine ⟨disk_image, ?_, ?_, ?_, ?_, ?_⟩
  · intro k
    by_cases hk : k = 0 <;> simp [image, cwdRefs, hk]
  · intro k l pos pos' _
    rw [slot k pos, slot l pos']
  · intro k pos
    rw [slot k pos]
    decide
  · intro k pos valid
    rw [slot k pos] at valid
    cases valid
  · intro i _ used zero
    by_cases hi : i = rootIno
    · subst hi
      exact absurd zero (by decide)
    · exact absurd (dinode_other hi) used

end Xv6.FsImage
