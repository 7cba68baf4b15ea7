import Xv6.FsMachine
import Xv6.Pointers
import Xv6.Total

/-! Who owns a disk block. A place is an entry of the block map of an inode: the address of
a data block, which stands in the inode or in its indirect block, or the address of the
indirect block itself. -/

namespace Xv6.FsBlocks

open ByteFields Params FsMachine Pointers Total Function List
open Fin (last val_last ext castSucc)

section Maps

def addrOf (block : Nat → Bytes bsize) (d : Dinode) (bn : Nat) : Nat :=
  if h : bn < ndirect then d.addrs ⟨bn, Nat.lt_succ_of_lt h⟩
  else if bn < maxfile ∧ d.addrs (Fin.last ndirect) ≠ 0 then
    word (block (d.addrs (Fin.last ndirect))) (bn - ndirect)
  else 0

inductive Place
  | data (i bn : Nat)
  | indirect (i : Nat)
  deriving DecidableEq

def ptr (block : Nat → Bytes bsize) (ino : Nat → Dinode) : Place → Nat
  | .data i bn => if (ino i).type = .free then 0 else addrOf block (ino i) bn
  | .indirect i => if (ino i).type = .free then 0 else (ino i).addrs (Fin.last ndirect)

structure Owned (sb : Super) (bitmap : Nat → Bool) (own : Place → Nat) : Prop where
  excl : Exclusive sb.IsData bitmap own
  metadata : ∀ b, b < sb.nmeta → bitmap b = true

def content (block : Nat → Bytes bsize) (d : Dinode) (off : Nat) : UInt8 :=
  byteAt (block (addrOf block d (off / bsize))) (off % bsize)

def ino (s : Fs) (k : Slot) : Nat → Dinode :=
  Function.update s.dinode (s.itable k).inum (s.itable k).copy

end Maps

section Pointers
lemma Super.nmeta_pos (sb : Super) : 0 < sb.nmeta := Nat.sub_pos_of_lt sb.nblocks_lt

lemma Owned.put (h : Owned sb bitmap own) (fresh : sb.IsData b) (clear : bitmap b = false) (empty : own p = 0) :
    Owned sb (update bitmap b true) (update own p b) where
  excl := h.excl.put fresh clear empty
  metadata c low := by
    by_cases hc : c = b
    · rw [hc, update_self]
    · rw [update_of_ne hc]
      exact h.metadata c low

lemma Owned.clear (h : Owned sb bitmap own) (used : own p ≠ 0) :
    Owned sb (update bitmap (own p) false) (update own p 0) where
  excl := h.excl.clear used
  metadata c low := by
    have hc : c ≠ own p := by
      have data := h.excl.range p used
      have := data.1
      omega
    rw [update_of_ne hc]
    exact h.metadata c low

lemma ptr_data (alloc : (inode i).type ≠ .free) : ptr block inode (.data i bn) = addrOf block (inode i) bn :=
  if_neg alloc

lemma ptr_indirect (alloc : (inode i).type ≠ .free) :
    ptr block inode (.indirect i) = (inode i).addrs (last ndirect) :=
  if_neg alloc

lemma addrOf_direct (d) (h : bn < ndirect) : addrOf block d bn = d.addrs ⟨bn, Nat.lt_succ_of_lt h⟩ := dif_pos h

lemma addrOf_entry (d) (low : ndirect ≤ bn) (high : bn < maxfile) (has : d.addrs (last ndirect) ≠ 0) :
    addrOf block d bn = word (block (d.addrs (last ndirect))) (bn - ndirect) := by
  rw [addrOf, dif_neg (not_lt.mpr low), if_pos ⟨high, has⟩]

lemma addrOf_none (d) (low : ndirect ≤ bn) (none : d.addrs (last ndirect) = 0) : addrOf block d bn = 0 := by
  rw [addrOf, dif_neg (not_lt.mpr low), if_neg (fun h => h.2 none)]

lemma addrOf_past (d) (past : maxfile ≤ bn) : addrOf block d bn = 0 := by
  have low : ¬ bn < ndirect := by
    unfold maxfile at past
    omega
  rw [addrOf, dif_neg low, if_neg (fun h => not_lt.mpr past h.1)]

lemma addrOf_congr (d) (same : block' (d.addrs (last ndirect)) = block (d.addrs (last ndirect))) :
    addrOf block' d bn = addrOf block d bn := by
  unfold addrOf
  rw [same]

lemma ptr_store (data : Bytes bsize) (other : ∀ i, ptr block inode (.indirect i) ≠ b) :
    ptr (update block b data) inode = ptr block inode := by
  funext p
  cases p with
  | indirect i => rfl
  | data i bn =>
    by_cases unused : (inode i).type = .free
    · simp [ptr, unused]
    · rw [ptr_data unused, ptr_data unused]
      apply addrOf_congr
      have ne := other i
      rw [ptr_indirect unused] at ne
      rw [update_of_ne ne]

lemma ptr_setAddr_direct (alloc : (inode i).type ≠ .free) (h : bn < ndirect) :
    ptr block (update inode i ((inode i).setAddr ⟨bn, Nat.lt_succ_of_lt h⟩ v)) =
      update (ptr block inode) (.data i bn) v := by
  have ne : last ndirect ≠ ⟨bn, Nat.lt_succ_of_lt h⟩ := by
    intro eq
    have := congrArg Fin.val eq
    simp only [val_last] at this
    omega
  funext p
  cases p with
  | indirect i' =>
    rw [update_of_ne (by simp)]
    by_cases hi : i' = i
    · subst hi
      simp [ptr, Dinode.setAddr, update_of_ne ne]
    · simp [ptr, update_of_ne hi]
  | data i' bn' =>
    by_cases hi : i' = i
    · subst hi
      by_cases hbn : bn' = bn
      · subst hbn
        rw [update_self]
        simp only [ptr, update_self, Dinode.setAddr, if_neg alloc]
        rw [addrOf_direct _ h]
        exact update_self ..
      · rw [update_of_ne (by simp [hbn])]
        simp only [ptr, update_self, Dinode.setAddr, addrOf, update_of_ne ne]
        congr 1
        split
        · rw [update_of_ne (by simp [hbn])]
        · rfl
    · rw [update_of_ne (by simp [hi])]
      simp [ptr, update_of_ne hi]

lemma ptr_setAddr_indirect (alloc : (inode i).type ≠ .free)
    (none : (inode i).addrs (last ndirect) = 0) (blank : block v = zeros bsize) :
    ptr block (update inode i ((inode i).setAddr (last ndirect) v)) = update (ptr block inode) (.indirect i) v := by
  funext p
  cases p with
  | indirect i' =>
    by_cases hi : i' = i
    · subst hi
      rw [update_self, ptr_indirect (by rwa [update_self])]
      simp [Dinode.setAddr]
    · rw [update_of_ne (by simp [hi])]
      simp [ptr, update_of_ne hi]
  | data i' bn =>
    rw [update_of_ne (by simp)]
    by_cases hi : i' = i
    · subst hi
      rw [ptr_data alloc, ptr_data (by rwa [update_self]), update_self]
      by_cases h : bn < ndirect
      · have ne : (⟨bn, Nat.lt_succ_of_lt h⟩ : Fin (ndirect + 1)) ≠ last ndirect := by
          intro eq
          have := congrArg Fin.val eq
          simp only [val_last] at this
          omega
        rw [addrOf_direct _ h, addrOf_direct _ h]
        exact update_of_ne ne ..
      · rw [addrOf_none (inode i') (by omega) none]
        simp only [addrOf, h, dif_neg, not_false_eq_true, Dinode.setAddr, update_self]
        split
        · rw [blank, word, field_zeros]
        · rfl
    · simp [ptr, update_of_ne hi]

lemma word_setField_same (data : Bytes bsize) (h : j < nindirect) (small : v < 2 ^ 32) :
    word (setField data (4 * j) 4 v) j = v := by
  have fits : 4 * j + 4 ≤ bsize := by
    have : nindirect * 4 = bsize := by decide
    omega
  rw [word, field_setField_same _ _ _ _ fits]
  exact Nat.mod_eq_of_lt small

lemma word_setField_other (data : Bytes bsize) (ne : j' ≠ j) : word (setField data (4 * j) 4 v) j' = word data j' :=
  field_set_other (by omega)

lemma ptr_setEntry (alloc : (inode i).type ≠ .free)
    (has : (inode i).addrs (last ndirect) ≠ 0) (low : ndirect ≤ bn) (high : bn < maxfile)
    (small : v < 2 ^ 32)
    (once : ∀ i', ptr block inode (.indirect i') = (inode i).addrs (last ndirect) → i' = i) :
    ptr (update block ((inode i).addrs (last ndirect))
      (setField (block ((inode i).addrs (last ndirect))) (4 * (bn - ndirect)) 4 v)) inode =
      update (ptr block inode) (.data i bn) v := by
  have index : bn - ndirect < nindirect := by
    unfold maxfile at high
    omega
  funext p
  cases p with
  | indirect i' =>
    rw [update_of_ne (by simp)]
    rfl
  | data i' bn' =>
    by_cases hi : i' = i
    · subst hi
      rw [ptr_data alloc]
      by_cases hbn : bn' = bn
      · subst hbn
        rw [addrOf_entry _ low high has, update_self, update_self, word_setField_same _ index small]
      · rw [update_of_ne (by simp [hbn]), ptr_data alloc]
        unfold addrOf
        split
        · rfl
        · split
          · rw [update_self, word_setField_other _ (by omega)]
          · rfl
    · rw [update_of_ne (by simp [hi])]
      by_cases unused : (inode i').type = .free
      · simp [ptr, unused]
      · rw [ptr_data unused, ptr_data unused]
        apply addrOf_congr
        rw [update_of_ne]
        intro eq
        exact hi (once i' (by rwa [ptr_indirect unused]))

end Pointers

section Agreement

/-- Mapped blocks stay where they are, and the bytes in `P` keep their values. -/
structure Agree (P : Nat → Nat → Prop) (block block' : Nat → Bytes bsize)
    (inode inode' : Nat → Dinode) : Prop where
  type : ∀ i, (inode' i).type = (inode i).type
  nlink : ∀ i, (inode' i).nlink = (inode i).nlink
  mapped : ∀ i bn, (inode i).type ≠ .free → addrOf block (inode i) bn ≠ 0 →
    addrOf block' (inode' i) bn = addrOf block (inode i) bn
  bytes : ∀ i off, (inode i).type ≠ .free → addrOf block (inode i) (off / bsize) ≠ 0 → P i off →
    content block' (inode' i) off = content block (inode i) off

lemma Agree.refl : Agree P block block inode inode :=
  ⟨fun _ => rfl, fun _ => rfl, fun _ _ _ _ => rfl, fun _ _ _ _ _ => rfl⟩

lemma Agree.trans (h : Agree P block block' inode inode')
    (h' : Agree P block' block'' inode' inode'') : Agree P block block'' inode inode'' where
  type i := (h'.type i).trans (h.type i)
  nlink i := (h'.nlink i).trans (h.nlink i)
  mapped i bn alloc has := by
    have first := h.mapped i bn alloc has
    rw [h'.mapped i bn (by rwa [h.type]) (by rwa [first]), first]
  bytes i off alloc has inP := by
    have first := h.mapped i _ alloc has
    rw [h'.bytes i off (by rwa [h.type]) (by rwa [first]) inP, h.bytes i off alloc has inP]

lemma Agree.mono (h : Agree P block block' inode inode')
    (sub : ∀ i off, P' i off → P i off) : Agree P' block block' inode inode' :=
  ⟨h.type, h.nlink, h.mapped, fun i off alloc has inP => h.bytes i off alloc has (sub i off inP)⟩

lemma Agree.of_put (same : ∀ i, (inode' i).type = (inode i).type ∧ (inode' i).nlink = (inode i).nlink)
    (put : ptr block' inode' = update (ptr block inode) p v)
    (empty : ptr block inode p = 0)
    (kept : ∀ i bn, (inode i).type ≠ .free → addrOf block (inode i) bn ≠ 0 →
      block' (addrOf block (inode i) bn) = block (addrOf block (inode i) bn)) :
    Agree P block block' inode inode' := by
  have mapped : ∀ i bn, (inode i).type ≠ .free → addrOf block (inode i) bn ≠ 0 →
    addrOf block' (inode' i) bn = addrOf block (inode i) bn := by
    intro i bn alloc has
    have at_i := congrFun put (.data i bn)
    rw [ptr_data (by rwa [(same i).1])] at at_i
    rw [at_i, update_of_ne, ptr_data alloc]
    rintro rfl
    rw [ptr_data alloc] at empty
    exact has empty
  refine ⟨fun i => (same i).1, fun i => (same i).2, mapped, ?_⟩
  intro i off alloc has _
  rw [content, content, mapped i _ alloc has, kept i _ alloc has]

end Agreement

section Programs
variable {E : String → Prop} {sb : Super} {s t u : Fs} {k : Slot} {P : Nat → Nat → Prop}

def Benign (E : String → Prop) : Prop :=
  ∀ e, e ∉ ["freeing free block", "ilock: no type", "unlink: nlink < 1"] → E e

def Logged (E : String → Prop) (s : Fs) : Prop :=
  1 ≤ s.outstanding ∨ E "log_write outside of trans"

lemma Benign.logged (benign : Benign E) : Logged E s := .inr (benign _ (by decide))

def Full (sb : Super) (bitmap : Nat → Bool) : Prop := ∀ b, b < sb.size → bitmap b = true

section
variable (log : Logged E s)
include log

lemma logWrite_safe (b) : Safe E (logWrite b) s fun _ t => ∃ l, t = { s with lh := l } := by
  apply safe_get
  split
  · rename_i outside
    exact safe_throw (log.resolve_left (by omega))
  · exact safe_set ⟨_, rfl⟩

lemma setBit_safe (b v) : Safe E (setBit sb b v) s fun _ t =>
    ∃ l, t = { s with bitmap := update s.bitmap b v, lh := l } :=
  safe_mod (logWrite_safe (by exact log) _)

lemma bzero_safe (b) : Safe E (bzero b) s fun _ t =>
    ∃ l, t = { s with block := update s.block b (zeros bsize), lh := l } :=
  safe_mod (logWrite_safe (by exact log) _)

lemma setDinode_safe (i d) : Safe E (setDinode sb i d) s fun _ t =>
    ∃ l, t = { s with dinode := update s.dinode i d, lh := l } :=
  safe_mod (logWrite_safe (by exact log) _)

lemma iupdate_safe (k) : Safe E (iupdate sb k) s fun _ t => ∃ l, t = { s with dinode := ino s k, lh := l } :=
  safe_get (setDinode_safe log _ _)

lemma balloc_safe (owned : Owned sb s.bitmap own) :
    Safe E (balloc sb) s fun b t => (b = 0 ∧ t = s ∧ Full sb s.bitmap) ∨
      (b ≠ 0 ∧ sb.IsData b ∧ s.bitmap b = false ∧ ∃ l, t = { s with
        bitmap := update s.bitmap b true
        block := update s.block b (zeros bsize)
        lh := l }) := by
  apply safe_get
  split
  · rename_i none
    refine safe_pure (.inl ⟨rfl, rfl, fun b low => ?_⟩)
    simpa using find?_eq_none.mp none b (mem_range.mpr low)
  · rename_i b found
    have clear : s.bitmap b = false := by simpa using find?_some found
    have low : b < sb.size := mem_range.mp (mem_of_find?_eq_some found)
    have high : sb.nmeta ≤ b := by
      by_contra less
      rw [owned.metadata b (by omega)] at clear
      cases clear
    have pos := Super.nmeta_pos sb
    apply Safe.bind (setBit_safe log b true)
    rintro _ _ ⟨_, rfl⟩
    apply Safe.bind (bzero_safe (by exact log) b)
    rintro _ _ ⟨_, rfl⟩
    exact safe_pure (.inr ⟨by omega, ⟨high, low⟩, clear, _, rfl⟩)

lemma bfree_safe (marked : s.bitmap b = true) : Safe E (bfree sb b) s fun _ t =>
    ∃ l, t = { s with bitmap := update s.bitmap b false, lh := l } := by
  apply safe_get
  rw [if_pos marked]
  exact setBit_safe log b false

end

/-- What `bmap` and the loop of `writei` do to the file in slot `k`: only addresses
of its copy change, and only bytes outside `P`. -/
structure Grown (sb : Super) (k : Slot) (P : Nat → Nat → Prop) (s t : Fs) : Prop where
  shape : ∃ bm bl ad l, t = { s with
    bitmap := bm
    block := bl
    itable := Function.update s.itable k
      { s.itable k with copy := { (s.itable k).copy with addrs := ad } }
    lh := l }
  owned : Owned sb t.bitmap (ptr t.block (ino t k))
  agree : Agree P s.block t.block (ino s k) (ino t k)

lemma Grown.refl (owned : Owned sb s.bitmap (ptr s.block (ino s k))) : Grown sb k P s s :=
  ⟨⟨s.bitmap, s.block, (s.itable k).copy.addrs, s.lh, by rw [update_eq_self]⟩, owned, .refl⟩

lemma Grown.trans (h : Grown sb k P s t) (h' : Grown sb k P t u) : Grown sb k P s u := by
  refine ⟨?_, h'.owned, h.agree.trans h'.agree⟩
  obtain ⟨bm, bl, ad, l, rfl⟩ := h.shape
  obtain ⟨bm', bl', ad', l', rfl⟩ := h'.shape
  exact ⟨bm', bl', ad', l', by simp only [update_self, update_idem]⟩

lemma Grown.mono (h : Grown sb k P s t) (sub : ∀ i off, P' i off → P i off) : Grown sb k P' s t :=
  ⟨h.shape, h.owned, h.agree.mono sub⟩

lemma ino_self (s k) : ino s k (s.itable k).inum = (s.itable k).copy := update_self ..

section
variable
  (owned : Owned sb bitmap (ptr block inode)) (fresh : sb.IsData b) (clear : bitmap b = false)
include owned fresh clear

lemma ptr_blank : ptr (update block b (zeros bsize)) inode = ptr block inode :=
  ptr_store _ fun i => owned.excl.ne_of_clear fresh clear (.indirect i)

lemma blank_kept (i bn) (alloc : (inode i).type ≠ .free) :
    update block b (zeros bsize) (addrOf block (inode i) bn) = block (addrOf block (inode i) bn) := by
  have ne := owned.excl.ne_of_clear fresh clear (.data i bn)
  rw [ptr_data alloc] at ne
  rw [update_of_ne ne]

end

def addrPlace (i : Nat) (a : Fin (ndirect + 1)) : Place :=
  if a.val < ndirect then .data i a else .indirect i

lemma ptr_addrPlace (alloc : (inode i).type ≠ .free) (a) : ptr block inode (addrPlace i a) = (inode i).addrs a := by
  unfold addrPlace
  split
  · rename_i h
    rw [ptr_data alloc, addrOf_direct _ h]
  · rename_i h
    have last : a = last ndirect := ext (by simp only [val_last]; omega)
    rw [last, ptr_indirect alloc]

lemma ptr_setAddr (alloc : (inode i).type ≠ .free) (a) (empty : (inode i).addrs a = 0)
    (blank : block v = zeros bsize) :
    ptr block (update inode i ((inode i).setAddr a v)) = update (ptr block inode) (addrPlace i a) v := by
  unfold addrPlace
  split
  · rename_i h
    exact ptr_setAddr_direct alloc h
  · rename_i h
    have last : a = last ndirect := ext (by simp only [val_last]; omega)
    subst last
    exact ptr_setAddr_indirect alloc empty blank

section
variable (owned : Owned sb s.bitmap (ptr s.block (ino s k))) (alloc : (s.itable k).copy.type ≠ .free)
include owned alloc

lemma Grown.setAddr (empty : (s.itable k).copy.addrs a = 0) (fresh : sb.IsData b) (clear : s.bitmap b = false) :
    Grown sb k P s { s with
      bitmap := update s.bitmap b true
      block := update s.block b (zeros bsize)
      itable := update s.itable k { s.itable k with copy := (s.itable k).copy.setAddr a b }
      lh := l } := by
  have blank := ptr_blank owned fresh clear
  have alloc' : (ino s k (s.itable k).inum).type ≠ .free := by rwa [ino_self]
  have put : ptr (update s.block b (zeros bsize)) (update s.dinode (s.itable k).inum ((s.itable k).copy.setAddr a b)) =
    update (ptr s.block (ino s k)) (addrPlace (s.itable k).inum a) b := by
    have set : ptr (update s.block b (zeros bsize)) (update (ino s k)
      (s.itable k).inum ((ino s k (s.itable k).inum).setAddr a b)) = _ :=
      ptr_setAddr alloc' a (by rwa [ino_self]) (update_self ..)
    rw [ino_self, ino, update_idem] at set
    rw [set, ← blank]
    rfl
  have hole : ptr s.block (ino s k) (addrPlace (s.itable k).inum a) = 0 := by
    rw [ptr_addrPlace alloc', ino_self, empty]
  refine ⟨⟨_, _, _, l, rfl⟩, ?_, ?_⟩
  · simp only [ino, update_self]
    rw [put]
    exact owned.put fresh clear hole
  · simp only [ino, update_self]
    refine Agree.of_put ?_ put hole ?_
    · intro i
      by_cases hi : i = (s.itable k).inum
      · subst hi
        simp [Dinode.setAddr]
      · simp [update_of_ne hi]
    · intro i bn alloc _
      exact blank_kept owned fresh clear i bn alloc

/-- A fresh block becomes data block `bn` of the file in slot `k`, through its
indirect block. -/
lemma Grown.setEntry (isInd : (s.itable k).copy.addrs (last ndirect) = ind) (has : ind ≠ 0)
    (low : ndirect ≤ bn) (high : bn < maxfile) (empty : addrOf s.block (s.itable k).copy bn = 0)
    (fresh : sb.IsData b) (clear : s.bitmap b = false) :
    Grown sb k P s { s with
      bitmap := update s.bitmap b true
      block := update (update s.block b (zeros bsize)) ind
        (setField (update s.block b (zeros bsize) ind) (4 * (bn - ndirect)) 4 b)
      lh := l } := by
  subst isInd
  have blank := ptr_blank owned fresh clear
  have alloc' : (ino s k (s.itable k).inum).type ≠ .free := by rwa [ino_self]
  have indPlace : ptr s.block (ino s k) (.indirect (s.itable k).inum) =
    (s.itable k).copy.addrs (last ndirect) := by rw [ptr_indirect alloc', ino_self]
  have once : ∀ p, ptr s.block (ino s k) p = (s.itable k).copy.addrs (last ndirect) →
    p = .indirect (s.itable k).inum := by
    intro p eq
    exact owned.excl.once _ _ (by rwa [eq]) (by rw [eq, indPlace])
  have put : ptr (update (update s.block b (zeros bsize)) ((s.itable k).copy.addrs (last ndirect))
    (setField (update s.block b (zeros bsize)
      ((s.itable k).copy.addrs (last ndirect))) (4 * (bn - ndirect)) 4 b)) (ino s k) =
    update (ptr s.block (ino s k)) (.data (s.itable k).inum bn) b := by
    have set : ptr (update (update s.block b (zeros bsize))
      ((ino s k (s.itable k).inum).addrs (last ndirect)) _) (ino s k) = _ :=
      ptr_setEntry alloc' (by rwa [ino_self]) low high (fresh.2.trans sb.size_lt) (by
        intro i' eq
        rw [ino_self, blank] at eq
        exact Place.indirect.inj (once _ eq))
    rw [ino_self] at set
    rw [set, blank]
  have hole : ptr s.block (ino s k) (.data (s.itable k).inum bn) = 0 := by
    rw [ptr_data alloc', ino_self, empty]
  refine ⟨⟨_, _, (s.itable k).copy.addrs, l, by rw [update_eq_self]⟩, ?_, ?_⟩
  · change Owned sb _ (ptr _ (ino s k))
    rw [put]
    exact owned.put fresh clear hole
  · change Agree P s.block _ (ino s k) (ino s k)
    refine .of_put (fun _ => ⟨rfl, rfl⟩) put hole ?_
    intro i bn' alloc has'
    have ne : addrOf s.block (ino s k i) bn' ≠ (s.itable k).copy.addrs (last ndirect) := by
      intro eq
      have := once (.data i bn') (by rw [ptr_data alloc, eq])
      cases this
    dsimp only
    rw [update_of_ne ne]
    exact blank_kept owned fresh clear i bn' alloc

end

section
variable (log : Logged E s) (owned : Owned sb s.bitmap (ptr s.block (ino s k)))
  (alloc : (s.itable k).copy.type ≠ .free)
include log owned alloc

lemma loadAddr_safe (a) : Safe E (loadAddr sb k a) s fun b t =>
    Grown sb k P s t ∧ (b ≠ 0 → (t.itable k).copy.addrs a = b) ∧ (b = 0 → Full sb t.bitmap) := by
  apply safe_get
  split
  · rename_i empty
    apply Safe.bind (balloc_safe log owned)
    rintro b _ (⟨rfl, rfl, full⟩ | ⟨has, fresh, clear, l, rfl⟩)
    · exact safe_pure ⟨.refl owned, fun h => absurd rfl h, fun _ => full⟩
    · rw [if_neg has]
      apply safe_mod
      refine safe_pure ⟨.setAddr owned alloc empty fresh clear, fun _ => ?_, fun none => absurd none has⟩
      simp [Dinode.setAddr]
  · rename_i has
    exact safe_pure ⟨.refl owned, fun _ => rfl, fun none => absurd none has⟩

lemma loadEntry_safe (isInd : (s.itable k).copy.addrs (last ndirect) = ind) (has : ind ≠ 0)
    (low : ndirect ≤ bn) (high : bn < maxfile) :
    Safe E (loadEntry sb ind (bn - ndirect)) s fun b t =>
      Grown sb k P s t ∧ (b ≠ 0 → addrOf t.block (t.itable k).copy bn = b) ∧ (b = 0 → Full sb t.bitmap) := by
  have addr : addrOf s.block (s.itable k).copy bn = word (s.block ind) (bn - ndirect) := by
    rw [addrOf_entry _ low high (by rwa [isInd]), isInd]
  apply safe_get
  split
  · rename_i empty
    apply Safe.bind (balloc_safe log owned)
    rintro b _ (⟨rfl, rfl, full⟩ | ⟨hasB, fresh, clear, l, rfl⟩)
    · exact safe_pure ⟨.refl owned, fun h => absurd rfl h, fun _ => full⟩
    · rw [if_neg hasB]
      apply safe_get
      apply safe_mod
      apply Safe.bind (logWrite_safe (by exact log) ind)
      rintro _ _ ⟨l', rfl⟩
      refine safe_pure ⟨.setEntry owned alloc isInd has low high (by rw [addr, empty]) fresh
        clear, fun _ => ?_, fun none => absurd none hasB⟩
      have index : bn - ndirect < nindirect := by
        unfold maxfile at high
        omega
      rw [addrOf_entry _ low high (by rwa [isInd])]
      dsimp only
      rw [isInd, update_self]
      exact word_setField_same _ index (fresh.2.trans sb.size_lt)
  · rename_i hasB
    exact safe_pure ⟨.refl owned, fun _ => addr, fun none => absurd none hasB⟩

end

section
variable (h : Grown sb k P s t)
include h

lemma Grown.copyType : (t.itable k).copy.type = (s.itable k).copy.type := by
  obtain ⟨_, _, _, _, rfl⟩ := h.shape
  simp

lemma Grown.logged (log : Logged E s) : Logged E t := by
  obtain ⟨_, _, _, _, rfl⟩ := h.shape
  exact log

lemma Grown.inum : (t.itable k).inum = (s.itable k).inum := by
  obtain ⟨_, _, _, _, rfl⟩ := h.shape
  simp

lemma Grown.addr (alloc : (s.itable k).copy.type ≠ .free) (has : addrOf s.block (s.itable k).copy bn ≠ 0) :
    addrOf t.block (t.itable k).copy bn = addrOf s.block (s.itable k).copy bn := by
  have here := h.agree.mapped (s.itable k).inum bn (by rwa [ino_self]) (by rwa [ino_self])
  rwa [ino_self, ← h.inum, ino_self] at here

lemma Grown.byte (alloc : (s.itable k).copy.type ≠ .free)
    (has : addrOf s.block (s.itable k).copy (x / bsize) ≠ 0) (inP : P (s.itable k).inum x) :
    content t.block (t.itable k).copy x = content s.block (s.itable k).copy x := by
  have here := h.agree.bytes (s.itable k).inum x (by rwa [ino_self]) (by rwa [ino_self]) inP
  rwa [ino_self, ← h.inum, ino_self] at here

end

lemma Grown.store (owned : Owned sb s.bitmap (ptr s.block (ino s k)))
    (alloc : (s.itable k).copy.type ≠ .free) {bn addr : Nat}
    (isAddr : addrOf s.block (s.itable k).copy bn = addr) (has : addr ≠ 0)
    (kept : ∀ x, P (s.itable k).inum x → x / bsize = bn → byteAt data (x % bsize) = byteAt (s.block addr) (x % bsize)) :
    Grown sb k P s { s with block := update s.block addr data, lh := l } := by
  have alloc' : (ino s k (s.itable k).inum).type ≠ .free := by rwa [ino_self]
  have place : ptr s.block (ino s k) (.data (s.itable k).inum bn) = addr := by
    rw [ptr_data alloc', ino_self, isAddr]
  have once : ∀ p, ptr s.block (ino s k) p = addr → p = .data (s.itable k).inum bn := by
    intro p eq
    exact owned.excl.once _ _ (by rwa [eq]) (by rw [eq, place])
  have same : ptr (update s.block addr data) (ino s k) = ptr s.block (ino s k) := by
    apply ptr_store
    intro i eq
    cases once _ eq
  have mapped : ∀ i bn', (ino s k i).type ≠ .free → addrOf (update s.block addr data) (ino s k i) bn' =
        addrOf s.block (ino s k i) bn' := by
    intro i bn' used
    rw [← ptr_data used, same, ptr_data used]
  refine ⟨⟨_, _, (s.itable k).copy.addrs, l, by rw [update_eq_self]⟩, ?_, ?_⟩
  · change Owned sb s.bitmap (ptr _ (ino s k))
    rwa [same]
  · change Agree P s.block (update s.block addr data) (ino s k) (ino s k)
    refine ⟨fun _ => rfl, fun _ => rfl, fun i bn' used _ => mapped i bn' used, ?_⟩
    intro i x used _ inP
    unfold content
    rw [mapped i _ used]
    by_cases eq : addrOf s.block (ino s k i) (x / bsize) = addr
    · rw [← ptr_data used] at eq
      obtain ⟨rfl, quot⟩ := Place.data.inj (once _ eq)
      rw [ptr_data used] at eq
      rw [eq, update_self]
      exact kept x inP quot
    · rw [update_of_ne eq]

lemma bmap_safe (log : Logged E s) (owned : Owned sb s.bitmap (ptr s.block (ino s k)))
    (alloc : (s.itable k).copy.type ≠ .free) (range : bn < maxfile) :
    Safe E (bmap sb k bn) s fun b t =>
      Grown sb k P s t ∧ (b ≠ 0 → addrOf t.block (t.itable k).copy bn = b) ∧ (b = 0 → Full sb t.bitmap) := by
  unfold bmap
  split
  · rename_i h
    apply (loadAddr_safe log owned alloc _).mono
    intro b t post
    refine ⟨post.1, fun has => ?_, post.2.2⟩
    rw [addrOf_direct _ h]
    exact post.2.1 has
  · rename_i low
    have inside : bn - ndirect < nindirect := by
      unfold maxfile at range
      omega
    rw [if_pos inside]
    apply Safe.bind (loadAddr_safe log owned alloc (last ndirect))
    intro ind t post
    split
    · rename_i none
      exact safe_pure ⟨post.1, fun h => absurd rfl h, fun _ => post.2.2 none⟩
    · rename_i has
      apply (loadEntry_safe (post.1.logged log) post.1.owned (by rwa [post.1.copyType])
        (post.2.1 has) has (by omega) range).mono
      intro b u post'
      exact ⟨post.1.trans post'.1, post'.2⟩

end Programs

section Truncate
variable {own : Place → Nat}

def without (own : Place → Nat) (ps : List Place) : Place → Nat :=
  fun p => if p ∈ ps then 0 else own p

lemma without_cons (p : Place) (ps) : without (update own p 0) ps = without own (p :: ps) := by
  funext q
  by_cases hq : q = p
  · subst hq
    simp [without]
  · simp [without, hq]

lemma without_of_not_mem (h : p ∉ ps) : without own ps p = own p := if_neg h

lemma without_empty (empty : ∀ p ∈ ps, own p = 0) : without own ps = own := by
  funext p
  unfold without
  split
  · rename_i mem
    exact (empty p mem).symm
  · rfl

def entryPlace (i : Nat) (j : Fin nindirect) : Place := .data i (ndirect + j)

section
variable (log : Logged E s) (owned : Owned sb s.bitmap own)
include log owned

lemma freePlace_safe (p : Place) : Safe E (if own p = 0 then pure () else bfree sb (own p)) s fun _ t =>
    ∃ bm l, t = { s with bitmap := bm, lh := l } ∧ Owned sb bm (update own p 0) := by
  split
  · rename_i empty
    refine safe_pure ⟨s.bitmap, s.lh, rfl, ?_⟩
    rwa [← empty, update_eq_self]
  · rename_i used
    apply (bfree_safe log (owned.excl.marked used)).mono
    rintro _ _ ⟨l, rfl⟩
    exact ⟨_, l, rfl, owned.clear used⟩

lemma freeEntries_safe (i) (data : Bytes bsize) (js) (distinct : js.Nodup)
    (lists : ∀ j ∈ js, own (entryPlace i j) = word data j) :
    Safe E (freeEntries sb data js) s fun _ t => ∃ bm l, t = { s with bitmap := bm, lh := l } ∧
      Owned sb bm (without own (js.map (entryPlace i))) := by
  induction js generalizing s own with
  | nil => exact safe_pure ⟨s.bitmap, s.lh, rfl, owned⟩
  | cons j js ih =>
    obtain ⟨fresh, distinct⟩ := nodup_cons.mp distinct
    have here := lists j mem_cons_self
    have first := freePlace_safe log owned (entryPlace i j)
    rw [here] at first
    apply Safe.bind first
    rintro _ _ ⟨bm, l, rfl, owned'⟩
    apply (ih (by exact log) owned' distinct ?_).mono
    · rintro _ _ ⟨bm', l', rfl, owned''⟩
      refine ⟨bm', l', rfl, ?_⟩
      rw [map_cons, ← without_cons]
      exact owned''
    · intro j' mem
      have ne : j' ≠ j := fun eq => fresh (eq ▸ mem)
      rw [update_of_ne, lists j' (mem_cons_of_mem _ mem)]
      intro eq
      have := (Place.data.inj eq).2
      exact ne (ext (by omega))

lemma freeIndirect_safe (lists : ∀ j, own (entryPlace i j) = if ind = 0 then 0 else word data j) :
    Safe E (if ind = 0 then pure () else freeEntries sb data (finRange nindirect)) s
      fun _ t => ∃ bm l, t = { s with bitmap := bm, lh := l } ∧
        Owned sb bm (without own ((finRange nindirect).map (entryPlace i))) := by
  split
  · rename_i none
    refine safe_pure ⟨s.bitmap, s.lh, rfl, ?_⟩
    rwa [without_empty]
    intro p mem
    obtain ⟨j, -, rfl⟩ := mem_map.mp mem
    rw [lists j, if_pos none]
  · rename_i has
    apply freeEntries_safe log owned i _ _ (nodup_finRange _)
    intro j _
    rw [lists j, if_neg has]

lemma freeAddr_safe (points : own p = (s.itable k).copy.addrs a) :
    Safe E (freeAddr sb k a) s fun _ t => ∃ bm l, t = { s with
      bitmap := bm
      itable := update s.itable k { s.itable k with copy := (s.itable k).copy.setAddr a 0 }
      lh := l } ∧ Owned sb bm (update own p 0) := by
  apply safe_get
  split
  · rename_i empty
    refine safe_pure ⟨s.bitmap, s.lh, ?_, ?_⟩
    · have same : (s.itable k).copy.setAddr a 0 = (s.itable k).copy := by
        rw [Dinode.setAddr, ← empty, update_eq_self]
      rw [same, update_eq_self]
    · rw [empty] at points
      rwa [← points, update_eq_self]
  · rename_i used
    rw [← points] at used ⊢
    apply Safe.bind (bfree_safe log (owned.excl.marked used))
    rintro _ _ ⟨l, rfl⟩
    exact safe_modify ⟨_, l, rfl, owned.clear used⟩

end

lemma addrPlace_inj (h : addrPlace i a = addrPlace i a') : a = a' := by
  unfold addrPlace at h
  apply ext
  split at h <;> split at h
  · exact (Place.data.inj h).2
  · cases h
  · cases h
  · omega

lemma freeAddrs_safe (log : Logged E s) (owned : Owned sb s.bitmap own) (i as) (distinct : as.Nodup)
    (points : ∀ a ∈ as, own (addrPlace i a) = (s.itable k).copy.addrs a) :
    Safe E (freeAddrs sb k as) s fun _ t => ∃ bm ad l, t = { s with
      bitmap := bm
      itable := update s.itable k { s.itable k with copy := { (s.itable k).copy with addrs := ad } }
      lh := l } ∧ (∀ a, ad a = if a ∈ as then 0 else (s.itable k).copy.addrs a) ∧
      Owned sb bm (without own (as.map (addrPlace i))) := by
  induction as generalizing s own with
  | nil =>
    exact safe_pure ⟨s.bitmap, (s.itable k).copy.addrs, s.lh, by rw [update_eq_self], fun a => by simp, owned⟩
  | cons a as ih =>
    obtain ⟨fresh, distinct⟩ := nodup_cons.mp distinct
    apply Safe.bind (freeAddr_safe log owned (points a mem_cons_self))
    rintro _ _ ⟨bm, l, rfl, owned'⟩
    apply (ih (by exact log) owned' distinct ?_).mono
    · rintro _ _ ⟨bm', ad, l', rfl, zero, owned''⟩
      refine ⟨bm', ad, l', ?_, ?_, ?_⟩
      · simp [update_idem, Dinode.setAddr]
      · intro a'
        rw [zero a']
        by_cases ha : a' = a
        · subst ha
          simp [Dinode.setAddr]
        · simp [Dinode.setAddr, ha]
      · rw [map_cons, ← without_cons]
        exact owned''
    · intro a' mem
      have ne : a' ≠ a := fun eq => fresh (eq ▸ mem)
      rw [update_of_ne (fun eq => ne (addrPlace_inj eq)), points a' (mem_cons_of_mem _ mem)]
      simp [Dinode.setAddr, update_of_ne ne]

def Place.inode : Place → Nat
  | .data i _ => i
  | .indirect i => i

lemma ptr_emptied (empty : d.addrs = fun _ => 0) :
    ptr block (update inode i d) = fun p => if p.inode = i then 0 else ptr block inode p := by
  funext p
  cases p with
  | indirect i' =>
    by_cases hi : i' = i
    · subst hi
      simp [ptr, Place.inode, empty]
    · simp [ptr, Place.inode, hi]
  | data i' bn =>
    by_cases hi : i' = i
    · subst hi
      simp [ptr, Place.inode, addrOf, empty]
    · simp [ptr, Place.inode, hi]

def Dinode.emptied (d : Dinode) : Dinode := { d with size := 0, addrs := fun _ => 0 }

lemma without_places (i) :
    update (without (without (ptr block inode) (((finRange ndirect).map castSucc).map (addrPlace i)))
      ((finRange nindirect).map (entryPlace i))) (.indirect i) 0 =
      fun p => if p.inode = i then 0 else ptr block inode p := by
  funext p
  cases p with
  | indirect i' =>
    by_cases hi : i' = i
    · subst hi
      simp [Place.inode]
    · have ne : Place.indirect i' ≠ .indirect i := by simpa using hi
      have direct : Place.indirect i' ∉ ((finRange ndirect).map castSucc).map (addrPlace i) := by simp [addrPlace]
      rw [update_of_ne ne, without_of_not_mem (by simp [entryPlace]), without_of_not_mem direct]
      simp [Place.inode, hi]
  | data i' bn =>
    rw [update_of_ne (by simp)]
    by_cases hi : i' = i
    · subst hi
      simp only [Place.inode, if_true]
      by_cases direct : bn < ndirect
      · have mem : Place.data i' bn ∈ ((finRange ndirect).map castSucc).map (addrPlace i') := by
          rw [map_map, mem_map]
          exact ⟨⟨bn, direct⟩, mem_finRange _, by simp [addrPlace, direct]⟩
        simp only [without, mem, if_true, ite_self]
      · by_cases entry : bn < maxfile
        · have mem : Place.data i' bn ∈ (finRange nindirect).map (entryPlace i') := by
            rw [mem_map]
            unfold maxfile at entry
            exact ⟨⟨bn - ndirect, by omega⟩, mem_finRange _, by
              simp only [entryPlace, Place.data.injEq, true_and]
              omega⟩
          simp only [without, mem, if_true]
        · have zero : ptr block inode (.data i' bn) = 0 := by
            simp only [ptr, addrOf_past _ (not_lt.mp entry), ite_self]
          simp only [without, zero, ite_self]
    · have direct : Place.data i' bn ∉ ((finRange ndirect).map castSucc).map (addrPlace i) := by
        simp only [map_map, mem_map, not_exists, not_and]
        rintro a - eq
        simp only [comp_apply, addrPlace, Fin.val_castSucc, a.isLt, if_true, Place.data.injEq] at eq
        exact hi eq.1.symm
      have entry : Place.data i' bn ∉ (finRange nindirect).map (entryPlace i) := by
        simp only [mem_map, not_exists, not_and]
        rintro j - eq
        exact hi (Place.data.inj eq).1.symm
      rw [without_of_not_mem entry, without_of_not_mem direct]
      simp [Place.inode, hi]

lemma itrunc_safe (log : Logged E s) (owned : Owned sb s.bitmap (ptr s.block (ino s k)))
    (alloc : (s.itable k).copy.type ≠ .free) :
    Safe E (itrunc sb k) s fun _ t => ∃ bm l, t = { s with
      bitmap := bm
      dinode := update s.dinode (s.itable k).inum (Dinode.emptied (s.itable k).copy)
      itable := update s.itable k { s.itable k with copy := Dinode.emptied (s.itable k).copy }
      lh := l } ∧
      Owned sb bm (fun p => if p.inode = (s.itable k).inum then 0
        else ptr s.block (ino s k) p) := by
  have alloc' : (ino s k (s.itable k).inum).type ≠ .free := by rwa [ino_self]
  have castSucc_ne : ∀ a : Fin ndirect, a.castSucc ≠ Fin.last ndirect := fun a => (Fin.castSucc_lt_last a).ne
  apply Safe.bind (freeAddrs_safe log owned (s.itable k).inum _
    ((nodup_finRange ndirect).map (Fin.castSucc_injective _))
    (fun a _ => by rw [ptr_addrPlace alloc', ino_self]))
  rintro _ _ ⟨bm, ad, l, rfl, zero, owned1⟩
  have last : ad (Fin.last ndirect) = (s.itable k).copy.addrs (Fin.last ndirect) := by
    rw [zero, if_neg]
    simp only [mem_map, not_exists, not_and]
    exact fun a _ => castSucc_ne a
  have direct : ∀ p, (∀ a : Fin ndirect, p ≠ .data (s.itable k).inum a) →
    without (ptr s.block (ino s k)) (((finRange ndirect).map Fin.castSucc).map
      (addrPlace (s.itable k).inum)) p = ptr s.block (ino s k) p := by
    intro p ne
    apply without_of_not_mem
    simp only [map_map, mem_map, not_exists, not_and]
    rintro a - eq
    simp only [comp_apply, addrPlace, Fin.val_castSucc, a.isLt, if_true] at eq
    exact ne a eq.symm
  have entryAt : ∀ j, without (ptr s.block (ino s k)) (((finRange ndirect).map
    Fin.castSucc).map (addrPlace (s.itable k).inum)) (entryPlace (s.itable k).inum j) =
    if ad (Fin.last ndirect) = 0 then 0 else word (s.block (ad (Fin.last ndirect))) j := by
    intro j
    have high : ndirect + j.val < maxfile := Nat.add_lt_add_left j.isLt _
    rw [direct, entryPlace, ptr_data alloc', ino_self, last]
    · split
      · rename_i none
        exact addrOf_none _ (by omega) none
      · rename_i has
        rw [addrOf_entry _ (by omega) high has, Nat.add_sub_cancel_left]
    · intro a eq
      have := (Place.data.inj eq).2
      omega
  apply safe_get
  simp only [update_self]
  apply Safe.bind (freeIndirect_safe (by exact log) owned1 entryAt)
  rintro _ _ ⟨bm', l', rfl, owned2⟩
  apply Safe.bind (freeAddr_safe (by exact log) owned2 ?_)
  · rintro _ _ ⟨bm'', l'', rfl, owned3⟩
    apply safe_mod
    rw [without_places] at owned3
    apply (iupdate_safe (by exact log) k).mono
    rintro _ _ ⟨l3, rfl⟩
    have all : (update ad (Fin.last ndirect) 0) = fun _ => 0 := by
      funext a
      induction a using Fin.lastCases with
      | last => rw [update_self]
      | cast a =>
        rw [update_of_ne (castSucc_ne a), zero, if_pos]
        exact mem_map_of_mem (mem_finRange a)
    refine ⟨bm'', l3, ?_, owned3⟩
    simp [ino, update_idem, Dinode.setAddr, Dinode.emptied, all]
  · rw [without_of_not_mem (by simp [entryPlace]), direct _ (by simp), ptr_indirect alloc', ino_self]
    simp [last]

end Truncate

end Xv6.FsBlocks
