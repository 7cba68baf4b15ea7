import Mathlib.Data.Finset.Card
import Xv6.FsCalls
import Xv6.FsImage

/-! How many blocks one chunk of a write puts into the log. A round of the loop of `writei`
logs its data block and, if it has to allocate that block, a block of the free map. -/

namespace Xv6.LogBudget

open ByteFields Params FsMachine FsBlocks FsData FsCalls Total Function List

variable {sb : Super} {s t u : Fs} {k : Slot} {b m m' : Nat}

def ind (s : Fs) (k : Slot) : Nat := (s.itable k).copy.addrs (Fin.last ndirect)

def pending (s : Fs) (k : Slot) : Nat := if ind s k = 0 then 1 else 0

lemma pending_le (s k) : pending s k ≤ 1 := by
  unfold pending
  split <;> decide

/-- From `s` to `t` the log gets the blocks `bs`, besides `b` and the indirect block. -/
def Logs (k : Slot) (bs : List Nat) (b : Nat) (s t : Fs) : Prop :=
  ∀ x ∈ t.lh, x ∈ s.lh ∨ x ∈ bs ∨ x = b ∨ (ind t k ≠ 0 ∧ x = ind t k)

/-- The file keeps its indirect block, and the log gets `b`, the indirect block and at most `m`
others; one more if the indirect block had to be allocated. -/
structure Found (k : Slot) (b m : Nat) (s t : Fs) : Prop where
  outstanding : t.outstanding = s.outstanding
  stable : ind s k ≠ 0 → ind t k = ind s k
  blocks : ∃ bs : List Nat, bs.length + pending t k ≤ m + pending s k ∧ Logs k bs b s t

structure Foot (k : Slot) (m : Nat) (s t : Fs) : Prop where
  outstanding : t.outstanding = s.outstanding
  stable : ind s k ≠ 0 → ind t k = ind s k
  blocks : ∃ bs : List Nat, bs.length + pending t k ≤ m + pending s k ∧
    ∀ x ∈ t.lh, x ∈ s.lh ∨ x ∈ bs ∨ (ind t k ≠ 0 ∧ x = ind t k)

lemma Foot.refl (s k) : Foot k 0 s s := ⟨rfl, fun _ => rfl, [], le_rfl, fun _ mem => .inl mem⟩

lemma Foot.mono (h : Foot k m s t) (le : m ≤ m') : Foot k m' s t := by
  obtain ⟨bs, count, logs⟩ := h.blocks
  exact ⟨h.outstanding, h.stable, bs, by omega, logs⟩

lemma Found.refl (s k b) : Found k b 0 s s := ⟨rfl, fun _ => rfl, [], le_rfl, fun _ mem => .inl mem⟩

lemma Found.mono (h : Found k b m s t) (le : m ≤ m') : Found k b m' s t := by
  obtain ⟨bs, count, logs⟩ := h.blocks
  exact ⟨h.outstanding, h.stable, bs, by omega, logs⟩

lemma Found.poke (h : Found k b m s t) (block) : Found k b m s { t with block := block } :=
  ⟨h.outstanding, h.stable, h.blocks⟩

lemma Found.foot (h : Found k b m s t) : Foot k (m + 1) s t := by
  obtain ⟨bs, count, logs⟩ := h.blocks
  refine ⟨h.outstanding, h.stable, b :: bs, by rw [length_cons]; omega, fun x mem => ?_⟩
  rcases logs x mem with old | new | rfl | isInd
  · exact .inl old
  · exact .inr (.inl (mem_cons_of_mem _ new))
  · exact .inr (.inl mem_cons_self)
  · exact .inr (.inr isInd)

-- The indirect block of the first part is that of the whole, once there is one.
lemma Foot.found (h : Foot k m s t) (h' : Found k b m' t u) : Found k b (m + m') s u := by
  obtain ⟨bs, count, logs⟩ := h.blocks
  obtain ⟨bs', count', logs'⟩ := h'.blocks
  refine ⟨h'.outstanding.trans h.outstanding, fun has => ?_, bs ++ bs', by rw [length_append]; omega, fun x mem => ?_⟩
  · rw [h'.stable (by rwa [h.stable has]), h.stable has]
  · rcases logs' x mem with old | new | rfl | isInd
    · rcases logs x old with old | new | ⟨has, rfl⟩
      · exact .inl old
      · exact .inr (.inl (mem_append_left _ new))
      · have same := h'.stable has
        exact .inr (.inr (.inr ⟨by rwa [same], same.symm⟩))
    · exact .inr (.inl (mem_append_right _ new))
    · exact .inr (.inr (.inl rfl))
    · exact .inr (.inr (.inr isInd))

lemma Foot.trans (h : Foot k m s t) (h' : Foot k m' t u) : Foot k (m + m') s u := by
  obtain ⟨bs, count, logs⟩ := h.blocks
  obtain ⟨bs', count', logs'⟩ := h'.blocks
  refine ⟨h'.outstanding.trans h.outstanding, fun has => ?_, bs ++ bs', by rw [length_append]; omega, fun x mem => ?_⟩
  · rw [h'.stable (by rwa [h.stable has]), h.stable has]
  · rcases logs' x mem with old | new | isInd
    · rcases logs x old with old | new | ⟨has, rfl⟩
      · exact .inl old
      · exact .inr (.inl (mem_append_left _ new))
      · have same := h'.stable has
        exact .inr (.inr ⟨by rwa [same], same.symm⟩)
    · exact .inr (.inl (mem_append_right _ new))
    · exact .inr (.inr isInd)

section

lemma logWrite_logs (open_ : 1 ≤ s.outstanding) (b) :
    Returns (logWrite b) s fun _ t => ∃ l, t = { s with lh := l } ∧ ∀ x ∈ l, x ∈ s.lh ∨ x = b := by
  apply returns_get_bind
  rw [if_neg (by omega)]
  refine ⟨(), _, rfl, _, rfl, fun x mem => ?_⟩
  split at mem
  · exact .inl mem
  · rcases mem_append.mp mem with old | new
    · exact .inl old
    · exact .inr (mem_singleton.mp new)

lemma logWrite_found (open_ : 1 ≤ t.outstanding) (s k b) :
    Returns (logWrite b) t fun _ u => ∀ m, Found k b m s t → Found k b m s u := by
  apply (logWrite_logs open_ b).mono
  rintro _ _ ⟨l, rfl, logs⟩ m found
  obtain ⟨bs, count, logs'⟩ := found.blocks
  refine ⟨found.outstanding, found.stable, bs, count, fun x mem => ?_⟩
  rcases logs x mem with old | rfl
  · exact logs' x old
  · exact .inr (.inr (.inl rfl))

section
variable (open_ : 1 ≤ s.outstanding)
include open_

lemma balloc_logs : Returns (balloc sb) s fun b t => ∃ bm bl l c, t = { s with bitmap := bm, block := bl, lh := l } ∧
    ∀ x ∈ l, x ∈ s.lh ∨ x = c ∨ x = b := by
  apply returns_get_bind
  cases (range sb.size).find? fun b => !s.bitmap b with
  | none => exact ⟨0, s, rfl, _, _, _, 0, rfl, fun _ mem => .inl mem⟩
  | some b =>
    refine Returns.bind (Q := fun _ t => ∃ l, t = { s with bitmap := update s.bitmap b true, lh := l } ∧
      ∀ x ∈ l, x ∈ s.lh ∨ x = bblock sb b) ?_ ?_
    · apply returns_modify_bind
      exact logWrite_logs (s := { s with bitmap := update s.bitmap b true }) open_ (bblock sb b)
    · rintro _ _ ⟨l, rfl, logs⟩
      refine Returns.bind (Q := fun _ t => ∃ bl l', t = { s with
        bitmap := update s.bitmap b true, block := bl, lh := l' } ∧ ∀ x ∈ l', x ∈ l ∨ x = b) ?_ ?_
      · apply returns_modify_bind
        apply (logWrite_logs (by exact open_) b).mono
        rintro _ _ ⟨l', rfl, logs'⟩
        exact ⟨_, l', rfl, logs'⟩
      · rintro _ _ ⟨bl, l', rfl, logs'⟩
        refine returns_pure ⟨_, bl, l', bblock sb b, rfl, fun x mem => ?_⟩
        rcases logs' x mem with old | rfl
        · exact (logs x old).imp_right .inl
        · exact .inr (.inr rfl)

lemma loadAddr_direct {a : Fin (ndirect + 1)} (direct : a ≠ Fin.last ndirect) :
    Returns (loadAddr sb k a) s fun b t => Found k b 1 s t := by
  apply returns_get_bind
  split
  · apply Returns.bind (balloc_logs open_)
    rintro b _ ⟨bm, bl, l, c, rfl, logs⟩
    have found : ∀ itable : Slot → Inode, (itable k).copy.addrs (Fin.last ndirect) = ind s k →
      Found k b 1 s { s with bitmap := bm, block := bl, itable := itable, lh := l } := by
      intro itable same
      refine ⟨rfl, fun _ => same, [c], ?_, fun x mem => ?_⟩
      · have : pending { s with bitmap := bm, block := bl, itable := itable, lh := l } k = pending s k := by
          unfold pending ind
          rw [same]
          rfl
        rw [this, length_singleton]
      · rcases logs x mem with old | rfl | rfl
        · exact .inl old
        · exact .inr (.inl mem_cons_self)
        · exact .inr (.inr (.inl rfl))
    by_cases none : b = 0
    · rw [if_pos none]
      subst none
      exact returns_pure (found s.itable rfl)
    · rw [if_neg none]
      apply returns_modify_bind
      refine returns_pure (found _ ?_)
      rw [update_self]
      exact update_of_ne direct.symm ..
  · exact returns_pure ((Found.refl s k _).mono (Nat.zero_le 1))

lemma loadAddr_indirect : Returns (loadAddr sb k (Fin.last ndirect)) s fun b t =>
    (b = 0 ∧ Found k 0 1 s t) ∨ (b ≠ 0 ∧ ind t k = b ∧ Foot k 0 s t) := by
  apply returns_get_bind
  split
  · rename_i empty
    have empty : ind s k = 0 := empty
    apply Returns.bind (balloc_logs open_)
    rintro b _ ⟨bm, bl, l, c, rfl, logs⟩
    by_cases none : b = 0
    · rw [if_pos none]
      refine returns_pure (.inl ⟨rfl, rfl, fun _ => rfl, [c], ?_, fun x mem => ?_⟩)
      · exact le_rfl
      · rcases logs x mem with old | rfl | rfl
        · exact .inl old
        · exact .inr (.inl mem_cons_self)
        · exact .inr (.inr (.inl none))
    · rw [if_neg none]
      apply returns_modify_bind
      have now (itable : Slot → Inode) (same : (itable k).copy.addrs (Fin.last ndirect) = b) :
        b ≠ 0 ∧ ind { s with bitmap := bm, block := bl, itable := itable, lh := l } k = b := ⟨none, same⟩
      specialize now (update s.itable k
        { s.itable k with copy := (s.itable k).copy.setAddr (Fin.last ndirect) b }) (by simp [Dinode.setAddr])
      replace now := now.2
      refine returns_pure (.inr ⟨none, now, rfl, fun has => absurd empty has, [c], ?_, fun x mem => ?_⟩)
      · rw [pending, if_neg (by rw [now]; exact none), pending, if_pos empty]
        exact le_rfl
      · rcases logs x mem with old | rfl | rfl
        · exact .inl old
        · exact .inr (.inl mem_cons_self)
        · exact .inr (.inr ⟨by rw [now]; exact none, now.symm⟩)
  · rename_i has
    exact returns_pure (.inr ⟨has, rfl, Foot.refl s k⟩)

lemma loadEntry_logs (has : ind s k ≠ 0) (j) : Returns (loadEntry sb (ind s k) j) s fun b t => Found k b 1 s t := by
  apply returns_get_bind
  split
  · apply Returns.bind (balloc_logs open_)
    rintro b _ ⟨bm, bl, l, c, rfl, logs⟩
    by_cases none : b = 0
    · rw [if_pos none]
      subst none
      refine returns_pure ⟨rfl, fun _ => rfl, [c], ?_, fun x mem => ?_⟩
      · exact Nat.le_refl _
      · rcases logs x mem with old | rfl | rfl
        · exact .inl old
        · exact .inr (.inl mem_cons_self)
        · exact .inr (.inr (.inl rfl))
    · rw [if_neg none]
      apply returns_get_bind
      apply returns_modify_bind
      apply Returns.bind (logWrite_logs (by exact open_) (ind s k))
      rintro _ _ ⟨l', rfl, logs'⟩
      refine returns_pure ⟨rfl, fun _ => rfl, [c], ?_, fun x mem => ?_⟩
      · exact Nat.le_refl _
      · rcases logs' x mem with mem | rfl
        · rcases logs x mem with old | rfl | rfl
          · exact .inl old
          · exact .inr (.inl mem_cons_self)
          · exact .inr (.inr (.inl rfl))
        · exact .inr (.inr (.inr ⟨has, rfl⟩))
  · exact returns_pure ((Found.refl s k _).mono (Nat.zero_le 1))

lemma bmap_logs {bn : Nat} (range : bn < maxfile) : Returns (bmap sb k bn) s fun b t => Found k b 1 s t := by
  unfold bmap
  split
  · rename_i direct
    exact loadAddr_direct open_ fun eq => by
      have := Fin.val_eq_of_eq eq
      simp only [Fin.val_last] at this
      omega
  · rename_i far
    unfold maxfile at range
    rw [if_pos (by omega)]
    apply Returns.bind (loadAddr_indirect open_)
    rintro b t (⟨rfl, found⟩ | ⟨has, rfl, foot⟩)
    · exact returns_pure found
    · rw [if_neg has]
      apply (loadEntry_logs (by rwa [foot.outstanding]) has _).mono
      intro b u found
      exact (foot.found found).mono (by omega)

lemma iupdate_logs (k) :
    Returns (iupdate sb k) s fun _ t => ∀ x ∈ t.lh, x ∈ s.lh ∨ x = iblock sb (s.itable k).inum := by
  apply returns_get_bind
  apply returns_modify_bind
  apply (logWrite_logs (by exact open_) _).mono
  rintro _ _ ⟨l, rfl, logs⟩
  exact logs

end

def blocksAt (off n : Nat) : Nat := if n = 0 then 0 else (off % bsize + n + (bsize - 1)) / bsize

lemma blocksAt_step {off n : Nat} (more : 0 < n) :
    blocksAt off n = 1 + blocksAt (off + min n (bsize - off % bsize)) (n - min n (bsize - off % bsize)) := by
  unfold blocksAt
  rw [if_neg more.ne']
  split <;> (unfold bsize at *; omega)

lemma writeLoop_logs (src fuel n off tot) (open_ : 1 ≤ s.outstanding) (fits : off + (n - tot) ≤ maxfile * bsize) :
    Returns (writeLoop sb k src fuel n off tot) s fun _ t =>
      Foot k (2 * blocksAt off (n - tot)) s t ∧
        (addrOf s.block (s.itable k).copy (off / bsize) ≠ 0 → Foot k (2 * blocksAt off (n - tot) - 1) s t) := by
  induction fuel generalizing s off tot with
  | zero => exact returns_pure ⟨(Foot.refl s k).mono (Nat.zero_le _), fun _ => (Foot.refl s k).mono (Nat.zero_le _)⟩
  | succ fuel ih =>
    unfold writeLoop
    by_cases more : tot < n
    · rw [if_pos more]
      have range : off / bsize < maxfile := by
        have := Nat.div_mul_le_self off bsize
        have : off / bsize * bsize < maxfile * bsize := by omega
        exact Nat.lt_of_mul_lt_mul_right this
      generalize hm : min (n - tot) (bsize - off % bsize) = m
      have counts : blocksAt off (n - tot) = 1 + blocksAt (off + m) (n - (tot + m)) := by
        rw [blocksAt_step (by omega), hm, Nat.sub_sub]
      have first : Returns (bmap sb k (off / bsize)) s fun b t => Found k b 1 s t ∧
        (addrOf s.block (s.itable k).copy (off / bsize) ≠ 0 → Found k b 0 s t) := by
        by_cases has : addrOf s.block (s.itable k).copy (off / bsize) = 0
        · exact (bmap_logs open_ range).mono fun b t found => ⟨found, fun ne => absurd has ne⟩
        · exact ⟨_, s, bmap_eq has, (Found.refl s k _).mono (Nat.zero_le 1), fun _ => Found.refl s k _⟩
      apply Returns.bind first
      rintro b t ⟨found, mapped⟩
      by_cases none : b = 0
      · rw [if_pos none]
        exact returns_pure ⟨found.foot.mono (by omega), fun has => (mapped has).foot.mono (by omega)⟩
      · rw [if_neg none]
        apply returns_get_bind
        apply returns_modify_bind
        have found := found.poke (update t.block b (pokeBytes (t.block b) (off % bsize) (copied src tot m)))
        have mapped := fun has => (mapped has).poke (update t.block b
          (pokeBytes (t.block b) (off % bsize) (copied src tot m)))
        split
        · exact returns_pure ⟨found.foot.mono (by omega), fun has => (mapped has).foot.mono (by omega)⟩
        · apply Returns.bind (logWrite_found (by rwa [found.outstanding]) s k b)
          intro _ u logged
          have foot := (logged 1 found).foot
          apply (ih (off + m) (tot + m) (by rwa [foot.outstanding]) (by omega)).mono
          rintro _ v ⟨rest, -⟩
          exact ⟨(foot.trans rest).mono (by omega),
            fun has => ((logged 0 (mapped has)).foot.trans rest).mono (by omega)⟩
    · rw [if_neg more]
      exact returns_pure ⟨(Foot.refl s k).mono (Nat.zero_le _), fun _ => (Foot.refl s k).mono (Nat.zero_le _)⟩

lemma blocksAt_chunk {off n : Nat} (chunk : n ≤ writeMax) :
    blocksAt off n ≤ 4 ∧ (off % bsize = 0 → blocksAt off n ≤ 3) := by
  have max : writeMax = 3 * bsize := by decide
  unfold blocksAt
  split
  · omega
  · unfold bsize at *
    omega

end

/-- A chunk of `filewrite` fits into one transaction, wherever its blocks are: a block that the chunk
only begins in the middle of is below the size, so it is there. -/
theorem chunk_fits_log (sb : Super) (s : Fs) (k : Slot) (open_ : 1 ≤ s.outstanding)
    (whole : Whole s.block (s.itable k).copy) (src : Nat → Option UInt8) (off n : Nat)
    (start : off ≤ (s.itable k).copy.size) (chunk : n ≤ writeMax) :
    Returns (writei sb k src off n) s fun _ t => (t.lh.toFinset \ s.lh.toFinset).card ≤ maxOpBlocks := by
  have nothing : (s.lh.toFinset \ s.lh.toFinset).card ≤ maxOpBlocks := by simp
  apply returns_get_bind
  split
  · exact returns_pure nothing
  split
  · exact returns_pure nothing
  · rename_i fits
    apply Returns.bind (writeLoop_logs (s := s) (k := k) src n n off 0 open_ (by omega))
    rintro ⟨tot, off'⟩ t ⟨foot, tight⟩
    rw [Nat.sub_zero] at foot tight
    obtain ⟨four, three⟩ := @blocksAt_chunk off n chunk
    have seven : Foot k 7 s t := by
      by_cases aligned : off % bsize = 0
      · exact foot.mono (by have := three aligned; omega)
      · refine (tight (whole _ ?_)).mono (by omega)
        have := Nat.div_add_mod off bsize
        rw [mul_comm] at this
        omega
    obtain ⟨bs, count, logs⟩ := seven.blocks
    have one := pending_le s k
    apply returns_modify_bind
    apply Returns.bind (iupdate_logs (by rw [← seven.outstanding] at open_; exact open_) k)
    intro _ u logs'
    refine returns_pure ?_
    have inside : u.lh.toFinset \ s.lh.toFinset ⊆ (iblock sb (((t.itable k).inum)) :: ind t k :: bs).toFinset := by
      intro x mem
      rw [Finset.mem_sdiff, List.mem_toFinset, List.mem_toFinset] at mem
      rw [List.mem_toFinset]
      rcases logs' x mem.1 with old | rfl
      · rcases logs x old with old | new | ⟨-, rfl⟩
        · exact absurd old mem.2
        · exact List.mem_cons_of_mem _ (List.mem_cons_of_mem _ new)
        · exact List.mem_cons_of_mem _ List.mem_cons_self
      · have same : (update t.itable k { t.itable k with copy := { (t.itable k).copy with
              size := if (t.itable k).copy.size < off' then off' else (t.itable k).copy.size } }
            k).inum = (t.itable k).inum := by rw [update_self]
        exact List.mem_cons.mpr (.inl (congrArg _ same))
    have card := (Finset.card_le_card inside).trans (List.toFinset_card_le _)
    rw [List.length_cons, List.length_cons] at card
    have ten : maxOpBlocks = 10 := rfl
    omega

def loaded : Fs :=
  { FsImage.image with
    itable := fun _ => ⟨rootIno, 1, true, true, FsImage.rootInode⟩
    outstanding := 1 }

lemma whole_loaded : Whole loaded.block (loaded.itable 0).copy := by
  intro bn low
  have first : bn = 0 := by
    change bn * bsize < bsize at low
    unfold bsize at low
    omega
  subst first
  decide

theorem chunk_fits_log_middle : Returns (writei FsImage.super 0 (fun _ => some 7) 512 writeMax) loaded fun _ t =>
    (t.lh.toFinset \ loaded.lh.toFinset).card ≤ maxOpBlocks :=
  chunk_fits_log FsImage.super loaded 0 (by decide) whole_loaded _ 512 writeMax (by decide) (le_rfl)

end Xv6.LogBudget
