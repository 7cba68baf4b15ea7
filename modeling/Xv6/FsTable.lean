import Xv6.FsDisk

/-! The table of inodes in memory. `Table` says that every slot in use has the reference
count that its users account for, that no inode has two slots, and that a valid copy is
the inode on disk. -/

namespace Xv6.FsTable

open Params FsMachine FsTree FsBlocks FsData FsDisk Total
open Function (update update_comm update_eq_self update_idem update_of_ne update_self)

section

def bump (refs : Slot → Nat) (k : Slot) : Slot → Nat := Function.update refs k (refs k + 1)

/-- An allocated inode without links is in use, but for those in `orphan`. -/
structure Table (sb : Super) (orphan : Nat → Prop) (itable : Slot → Inode)
    (inode : Nat → Dinode) (refs : Slot → Nat) : Prop where
  ref : ∀ k, (itable k).ref = refs k
  uniq : ∀ k l, 0 < refs k → 0 < refs l → (itable k).inum = (itable l).inum → k = l
  inside : ∀ k, 0 < refs k → (itable k).inum < sb.ninodes
  loaded : ∀ k, 0 < refs k → (itable k).valid = true →
    (itable k).copy = inode (itable k).inum ∧ (inode (itable k).inum).type ≠ .free
  held : ∀ i, ¬ orphan i → (inode i).type ≠ .free → (inode i).nlink = 0 →
    ∃ k, 0 < refs k ∧ (itable k).inum = i ∧ (itable k).valid = true

structure Sound (sb : Super) (orphan : Nat → Prop) (s : Fs) (refs : Slot → Nat) : Prop where
  disk : Disk sb s.bitmap s.block s.dinode
  table : Table sb orphan s.itable s.dinode refs

def tree (s : Fs) : Tree := treeOf s.block s.dinode

def InUse (refs : Slot → Nat) (s : Fs) (i : Nat) : Prop :=
  ∃ k, 0 < refs k ∧ (s.itable k).inum = i

structure Keeps (refs : Slot → Nat) (s t : Fs) : Prop where
  inum : ∀ k, 0 < refs k → (t.itable k).inum = (s.itable k).inum
  valid : ∀ k, 0 < refs k → (s.itable k).valid = true → (t.itable k).valid = true

def OnTable (s t : Fs) : Prop :=
  t.bitmap = s.bitmap ∧ t.dinode = s.dinode ∧ t.block = s.block

variable {sb : Super} {O : Nat → Prop} {refs : Slot → Nat} {k l : Slot}

@[simp] lemma bump_self : bump refs k k = refs k + 1 := Function.update_self ..

@[simp] lemma bump_of_ne (h : l ≠ k) : bump refs k l = refs l := Function.update_of_ne h ..

lemma bump_pos (h : 0 < refs l) : 0 < bump refs k l := by
  by_cases hl : l = k
  · subst hl
    simp
  · rwa [bump_of_ne hl]

lemma bump_gt : 0 < bump refs k k := by simp

lemma bump_comm (refs k l) : bump (bump refs k) l = bump (bump refs l) k := by
  by_cases h : k = l
  · rw [h]
  · unfold bump
    rw [update_of_ne (Ne.symm h), update_of_ne h, update_comm h]

lemma Keeps.refl : Keeps refs s s := ⟨fun _ _ => rfl, fun _ _ h => h⟩

lemma Keeps.trans (h : Keeps refs s t) (h' : Keeps refs t u) : Keeps refs s u :=
  ⟨fun k pos => (h'.inum k pos).trans (h.inum k pos), fun k pos valid => h'.valid k pos (h.valid k pos valid)⟩

lemma Keeps.of_bump (h : Keeps (bump refs k) s t) : Keeps refs s t :=
  ⟨fun l pos => h.inum l (bump_pos pos), fun l pos => h.valid l (bump_pos pos)⟩

lemma Keeps.inUse (h : Keeps refs s t) : InUse refs t i ↔ InUse refs s i := by
  constructor
  · rintro ⟨k, pos, rfl⟩
    exact ⟨k, pos, (h.inum k pos).symm⟩
  · rintro ⟨k, pos, rfl⟩
    exact ⟨k, pos, h.inum k pos⟩

lemma Keeps.of_update (eq : t.itable = update s.itable k ip) (same : 0 < refs k → ip.inum = (s.itable k).inum ∧
    ((s.itable k).valid = true → ip.valid = true)) : Keeps refs s t := by
  constructor
  · intro l pos
    rw [eq]
    by_cases hl : l = k
    · subst hl
      rw [update_self]
      exact (same pos).1
    · rw [update_of_ne hl]
  · intro l pos valid
    rw [eq]
    by_cases hl : l = k
    · subst hl
      rw [update_self]
      exact (same pos).2 valid
    · rwa [update_of_ne hl]

lemma Keeps.of_unused (unused : refs k = 0) (same : ∀ l, l ≠ k → t.itable l = s.itable l) : Keeps refs s t := by
  have other : ∀ l, 0 < refs l → t.itable l = s.itable l := by
    intro l pos
    apply same
    rintro rfl
    omega
  exact ⟨fun l pos => by rw [other l pos], fun l pos valid => by rwa [other l pos]⟩

lemma OnTable.trans (h : OnTable s t) (h' : OnTable t u) : OnTable s u :=
  ⟨h'.1.trans h.1, h'.2.1.trans h.2.1, h'.2.2.trans h.2.2⟩

lemma OnTable.tree (h : OnTable s t) : tree t = tree s := by rw [FsTable.tree, FsTable.tree, h.2.1, h.2.2]

section
variable (h : Sound sb O s refs) (pos : 0 < refs k) (valid : (s.itable k).valid = true)
include h pos valid

lemma Sound.clean : (s.itable k).copy = s.dinode (s.itable k).inum := (h.table.loaded k pos valid).1

lemma Sound.used : (s.itable k).copy.type ≠ .free := by
  rw [h.clean pos valid]
  exact (h.table.loaded k pos valid).2

lemma Sound.whole : Whole s.block (s.itable k).copy := by
  rw [h.clean pos valid]
  exact h.disk.whole _ (h.table.loaded k pos valid).2

lemma Sound.typ : (tree s).typ (s.itable k).inum = (s.itable k).copy.type := by
  rw [h.clean pos valid]
  rfl

lemma Sound.nlink : (tree s).nlink (s.itable k).inum = (s.itable k).copy.nlink := by
  have used := h.used pos valid
  rw [h.clean pos valid] at used ⊢
  exact if_neg used

lemma Sound.ents : (tree s).ents (s.itable k).inum = entsOf s.block (s.itable k).copy := by
  rw [h.clean pos valid]
  rfl

end

/-- The copy in a valid slot changes with the disk only. -/
lemma OnTable.copy (h : OnTable s t) (sound : Sound sb O s refs)
    (sound' : Sound sb O t refs') (keeps : Keeps refs s t) (pos : 0 < refs k)
    (pos' : 0 < refs' k) (valid : (s.itable k).valid = true) :
    (t.itable k).copy = (s.itable k).copy := by
  rw [sound'.clean pos' (keeps.valid k pos valid), keeps.inum k pos, h.2.1, sound.clean pos valid]

section
variable {itable : Slot → Inode} {inode : Nat → Dinode} {ip : Inode}
  (h : Table sb O itable inode refs) (ref : ip.ref = (itable k).ref)
  (inum : ip.inum = (itable k).inum)
include h ref inum

lemma Table.put (valid : (itable k).valid = true → ip.valid = true) (copy : 0 < refs k → ip.valid = true →
      ip.copy = inode (itable k).inum ∧ (inode (itable k).inum).type ≠ .free) :
    Table sb O (update itable k ip) inode refs := by
  have same : ∀ l, (update itable k ip l).ref = (itable l).ref ∧ (update itable k ip l).inum = (itable l).inum := by
    intro l
    by_cases hl : l = k
    · subst hl
      rw [update_self]
      exact ⟨ref, inum⟩
    · rw [update_of_ne hl]
      exact ⟨rfl, rfl⟩
  refine ⟨?_, ?_, ?_, ?_, ?_⟩
  · intro l
    rw [(same l).1, h.ref]
  · intro l l' pos pos' eq
    rw [(same l).2, (same l').2] at eq
    exact h.uniq l l' pos pos' eq
  · intro l pos
    rw [(same l).2]
    exact h.inside l pos
  · intro l pos isValid
    rw [(same l).2]
    by_cases hl : l = k
    · subst hl
      rw [update_self] at isValid ⊢
      exact copy pos isValid
    · rw [update_of_ne hl] at isValid ⊢
      exact h.loaded l pos isValid
  · intro i notOrphan used zero
    obtain ⟨l, pos, eq, isValid⟩ := h.held i notOrphan used zero
    refine ⟨l, pos, by rw [(same l).2, eq], ?_⟩
    by_cases hl : l = k
    · subst hl
      rw [update_self]
      exact valid isValid
    · rwa [update_of_ne hl]

lemma Table.touch (valid : ip.valid = (itable k).valid) (copy : ip.copy = (itable k).copy) :
    Table sb O (update itable k ip) inode refs :=
  h.put ref inum (by rw [valid]; exact id) fun pos isValid => copy ▸ h.loaded k pos (valid ▸ isValid)

end

section
lemma Table.take (h : Table sb O itable inode refs) (ref : ip.ref = refs k + 1) (inside : ip.inum < sb.ninodes)
    (old : 0 < refs k → ip.inum = (itable k).inum ∧ ip.valid = (itable k).valid ∧ ip.copy = (itable k).copy)
    (new : refs k = 0 → ip.valid = false ∧ ∀ l, 0 < refs l → (itable l).inum ≠ ip.inum) :
    Table sb O (update itable k ip) inode (bump refs k) := by
  have other : ∀ l, l ≠ k → 0 < bump refs k l → 0 < refs l := by
    intro l ne pos
    rwa [bump_of_ne ne] at pos
  have apart : ∀ l, l ≠ k → 0 < refs l → (itable l).inum ≠ ip.inum := by
    intro l ne pos eq
    rcases Nat.eq_zero_or_pos (refs k) with zero | used
    · exact (new zero).2 l pos eq
    · exact ne (h.uniq l k pos used (by rw [eq, (old used).1]))
  refine ⟨?_, ?_, ?_, ?_, ?_⟩
  · intro l
    by_cases hl : l = k
    · subst hl
      rw [update_self, bump_self, ref]
    · rw [update_of_ne hl, bump_of_ne hl, h.ref]
  · intro l l' pos pos' eq
    by_cases hl : l = k <;> by_cases hl' : l' = k
    · rw [hl, hl']
    · rw [hl, update_self, update_of_ne hl'] at eq
      exact absurd eq.symm (apart l' hl' (other l' hl' pos'))
    · rw [hl', update_self, update_of_ne hl] at eq
      exact absurd eq (apart l hl (other l hl pos))
    · rw [update_of_ne hl, update_of_ne hl'] at eq
      exact h.uniq l l' (other l hl pos) (other l' hl' pos') eq
  · intro l pos
    by_cases hl : l = k
    · rwa [hl, update_self]
    · rw [update_of_ne hl]
      exact h.inside l (other l hl pos)
  · intro l pos valid
    by_cases hl : l = k
    · rw [hl, update_self] at valid ⊢
      rcases Nat.eq_zero_or_pos (refs k) with zero | used
      · rw [(new zero).1] at valid
        cases valid
      · rw [(old used).2.1] at valid
        rw [(old used).1, (old used).2.2]
        exact h.loaded k used valid
    · rw [update_of_ne hl] at valid ⊢
      exact h.loaded l (other l hl pos) valid
  · intro i notOrphan used zero
    obtain ⟨l, pos, eq, valid⟩ := h.held i notOrphan used zero
    refine ⟨l, bump_pos pos, ?_⟩
    by_cases hl : l = k
    · subst hl
      rw [update_self, (old pos).1, (old pos).2.1]
      exact ⟨eq, valid⟩
    · rw [update_of_ne hl]
      exact ⟨eq, valid⟩

lemma Table.drop (h : Table sb O itable inode (bump refs k)) (ref : ip.ref = refs k)
    (same : 0 < refs k → ip.inum = (itable k).inum ∧ ip.valid = (itable k).valid ∧ ip.copy = (itable k).copy)
    (last : refs k = 0 → (itable k).valid = true →
      (inode (itable k).inum).type ≠ .free → (inode (itable k).inum).nlink ≠ 0) :
    Table sb O (update itable k ip) inode refs := by
  refine ⟨?_, ?_, ?_, ?_, ?_⟩
  · intro l
    by_cases hl : l = k
    · subst hl
      rw [update_self, ref]
    · rw [update_of_ne hl, h.ref, bump_of_ne hl]
  · intro l l' pos pos' eq
    apply h.uniq l l' (bump_pos pos) (bump_pos pos')
    by_cases hl : l = k <;> by_cases hl' : l' = k
    · rw [hl, hl']
    · subst hl
      rwa [update_self, update_of_ne hl', (same pos).1] at eq
    · subst hl'
      rwa [update_self, update_of_ne hl, (same pos').1] at eq
    · rwa [update_of_ne hl, update_of_ne hl'] at eq
  · intro l pos
    by_cases hl : l = k
    · subst hl
      rw [update_self, (same pos).1]
      exact h.inside l (bump_pos pos)
    · rw [update_of_ne hl]
      exact h.inside l (bump_pos pos)
  · intro l pos valid
    by_cases hl : l = k
    · subst hl
      rw [update_self] at valid ⊢
      rw [(same pos).2.1] at valid
      rw [(same pos).1, (same pos).2.2]
      exact h.loaded l (bump_pos pos) valid
    · rw [update_of_ne hl] at valid ⊢
      exact h.loaded l (bump_pos pos) valid
  · intro i notOrphan used zero
    obtain ⟨l, pos, eq, valid⟩ := h.held i notOrphan used zero
    by_cases hl : l = k
    · subst hl
      rcases Nat.eq_zero_or_pos (refs l) with none | some
      · subst eq
        exact absurd zero (last none valid used)
      · refine ⟨l, some, ?_⟩
        rw [update_self, (same some).1, (same some).2.1]
        exact ⟨eq, valid⟩
    · rw [bump_of_ne hl] at pos
      exact ⟨l, pos, by rwa [update_of_ne hl], by rwa [update_of_ne hl]⟩

lemma Table.free (h : Table sb O itable inode (bump refs k)) (last : refs k = 0) (ref : ip.ref = 0)
    (freed : d.type = .free) :
    Table sb O (update itable k ip) (update inode (itable k).inum d) refs := by
  have other : ∀ l, 0 < refs l → l ≠ k := by
    rintro l pos rfl
    omega
  have apart : ∀ l, 0 < refs l → (itable l).inum ≠ (itable k).inum := fun l pos eq =>
    other l pos (h.uniq l k (bump_pos pos) bump_gt eq)
  refine ⟨?_, ?_, ?_, ?_, ?_⟩
  · intro l
    by_cases hl : l = k
    · subst hl
      rw [update_self, ref, last]
    · rw [update_of_ne hl, h.ref, bump_of_ne hl]
  · intro l l' pos pos' eq
    rw [update_of_ne (other l pos), update_of_ne (other l' pos')] at eq
    exact h.uniq l l' (bump_pos pos) (bump_pos pos') eq
  · intro l pos
    rw [update_of_ne (other l pos)]
    exact h.inside l (bump_pos pos)
  · intro l pos valid
    rw [update_of_ne (other l pos)] at valid ⊢
    rw [update_of_ne (apart l pos)]
    exact h.loaded l (bump_pos pos) valid
  · intro i notOrphan used zero
    by_cases hi : i = (itable k).inum
    · subst hi
      rw [update_self, freed] at used
      exact absurd rfl used
    · rw [update_of_ne hi] at used zero
      obtain ⟨l, pos, eq, valid⟩ := h.held i notOrphan used zero
      have hl : l ≠ k := by
        rintro rfl
        exact hi eq.symm
      rw [bump_of_ne hl] at pos
      exact ⟨l, pos, by rwa [update_of_ne hl], by rwa [update_of_ne hl]⟩

lemma Table.rewrite (h : Table sb O itable inode refs) (pos : 0 < refs k) (valid : (itable k).valid = true)
    (used : c.type ≠ .free) :
    Table sb O (update itable k { itable k with copy := c }) (update inode (itable k).inum c) refs := by
  have same : ∀ l, (update itable k { itable k with copy := c } l).ref = (itable l).ref ∧
    (update itable k { itable k with copy := c } l).inum = (itable l).inum ∧
    (update itable k { itable k with copy := c } l).valid = (itable l).valid := by
    intro l
    by_cases hl : l = k
    · subst hl
      rw [update_self]
      exact ⟨rfl, rfl, rfl⟩
    · rw [update_of_ne hl]
      exact ⟨rfl, rfl, rfl⟩
  refine ⟨?_, ?_, ?_, ?_, ?_⟩
  · intro l
    rw [(same l).1, h.ref]
  · intro l l' pos pos' eq
    rw [(same l).2.1, (same l').2.1] at eq
    exact h.uniq l l' pos pos' eq
  · intro l pos
    rw [(same l).2.1]
    exact h.inside l pos
  · intro l pos' valid'
    by_cases hl : l = k
    · subst hl
      rw [update_self]
      rw [update_self]
      exact ⟨rfl, used⟩
    · have ne : (itable l).inum ≠ (itable k).inum := fun eq => hl (h.uniq l k pos' pos eq)
      rw [update_of_ne hl] at valid' ⊢
      rw [update_of_ne ne]
      exact h.loaded l pos' valid'
  · intro i notOrphan used' zero
    by_cases hi : i = (itable k).inum
    · exact ⟨k, pos, by rw [(same k).2.1, hi], by rw [(same k).2.2, valid]⟩
    · rw [update_of_ne hi] at used' zero
      obtain ⟨l, pos', eq, valid'⟩ := h.held i notOrphan used' zero
      exact ⟨l, pos', by rw [(same l).2.1, eq], by rw [(same l).2.2, valid']⟩

end

end

variable {E : String → Prop} {sb : Super} {O : Nat → Prop} {s t u : Fs} {refs : Slot → Nat}
  {k : Slot} {i : Nat}

def unlocked (s : Fs) (k : Slot) : Fs :=
  { s with itable := Function.update s.itable k { s.itable k with lock := false } }

lemma iunlock_eq (sound : Sound sb O s refs) (pos : 0 < refs k) (mine : (s.itable k).lock = true ∨ E "iunlock") :
    Safe E (iunlock k) s fun _ t => t = unlocked s k := by
  apply safe_get
  split
  · rename_i fails
    refine safe_throw (mine.resolve_left fun held => ?_)
    rw [held, sound.table.ref] at fails
    simp only [Bool.true_eq_false, false_or] at fails
    omega
  · exact safe_modify rfl

lemma iunlock_safe (tame : Benign E) (sound : Sound sb O s refs) (pos : 0 < refs k) :
    Safe E (iunlock k) s fun _ t => Sound sb O t refs ∧ Keeps refs s t ∧ OnTable s t := by
  apply (iunlock_eq sound pos (.inr (tame _ (by decide)))).mono
  rintro _ _ rfl
  exact ⟨⟨sound.disk, sound.table.touch rfl rfl rfl rfl⟩, .of_update rfl fun _ => ⟨rfl, id⟩, rfl, rfl, rfl⟩

lemma idup_safe (sound : Sound sb O s refs) (pos : 0 < refs k) : Safe E (idup k) s fun _ t =>
    Sound sb O t (bump refs k) ∧ Keeps refs s t ∧ OnTable s t :=
  safe_modify ⟨⟨sound.disk, sound.table.take (by simp only [sound.table.ref])
    (sound.table.inside k pos) (fun _ => ⟨rfl, rfl, rfl⟩) (fun zero => by omega)⟩,
    .of_update rfl fun _ => ⟨rfl, id⟩, rfl, rfl, rfl⟩

/-- `iget` took a reference to inode `i`, in slot `k`. A slot that it takes into use
is not valid yet. -/
structure Got (sb : Super) (orphan : Nat → Prop) (refs : Slot → Nat) (i : Nat) (k : Slot)
    (s t : Fs) : Prop where
  sound : Sound sb orphan t (bump refs k)
  keeps : Keeps refs s t
  onTable : OnTable s t
  inum : (t.itable k).inum = i
  fresh : refs k = 0 → (t.itable k).valid = false

lemma iget_safe (full : (∀ l, 0 < refs l) → E "iget: no inodes") (sound : Sound sb O s refs) (inside : i < sb.ninodes) :
    Safe E (iget i) s fun k t => Got sb O refs i k s t := by
  apply safe_get
  split
  · rename_i k found
    have match_ : 0 < (s.itable k).ref ∧ (s.itable k).inum = i := by simpa using List.find?_some found
    have pos : 0 < refs k := by
      rw [← sound.table.ref]
      exact match_.1
    apply safe_mod
    refine safe_pure ⟨⟨sound.disk, sound.table.take (by simp only [sound.table.ref]) ?_
      (fun _ => ⟨rfl, rfl, rfl⟩) (fun zero => by omega)⟩, .of_update rfl fun _ => ⟨rfl, id⟩,
      ⟨rfl, rfl, rfl⟩, ?_, fun zero => by omega⟩
    · exact match_.2.trans_lt inside
    · simp [match_.2]
  · rename_i absent
    split
    · rename_i none
      refine safe_throw (full fun l => ?_)
      have used := List.find?_eq_none.mp none l (List.mem_finRange l)
      rw [sound.table.ref] at used
      exact Nat.pos_of_ne_zero (by simpa using used)
    · rename_i k found
      have zero : refs k = 0 := by
        rw [← sound.table.ref]
        simpa using List.find?_some found
      have fresh : ∀ l, 0 < refs l → (s.itable l).inum ≠ i := by
        intro l pos eq
        rw [← sound.table.ref] at pos
        have none := List.find?_eq_none.mp absent l (List.mem_finRange l)
        simp only [pos, eq, and_self, decide_true, not_true_eq_false] at none
      apply safe_mod
      refine safe_pure ⟨⟨sound.disk, sound.table.take (by simp only [zero]) inside
        (fun pos => by omega) (fun _ => ⟨rfl, fresh⟩)⟩, .of_update rfl fun pos => by omega,
        ⟨rfl, rfl, rfl⟩, ?_, ?_⟩
      · simp
      · simp

lemma acquiresleep_safe (free : (s.itable k).lock = false ∨ E "sleeping on its own lock") :
    Safe E (acquiresleep k) s fun _ t => t = { s with
      itable := update s.itable k { s.itable k with lock := true } } := by
  apply safe_get
  split
  · rename_i held
    exact safe_throw (free.resolve_left (by simp [held]))
  · exact safe_modify rfl

def locked (s : Fs) (k : Slot) : Fs :=
  { s with itable := Function.update s.itable k { s.itable k with
    lock := true
    valid := true
    copy := s.dinode (s.itable k).inum } }

lemma ilock_eq (sound : Sound sb O s refs) (pos : 0 < refs k)
    (free : (s.itable k).lock = false ∨ E "sleeping on its own lock")
    (alive : (s.dinode (s.itable k).inum).type ≠ .free ∨ E "ilock: no type") :
    Safe E (ilock k) s fun _ t => t = locked s k ∧ (s.dinode (s.itable k).inum).type ≠ .free := by
  apply safe_get
  rw [if_neg (by rw [sound.table.ref]; omega)]
  apply Safe.bind (acquiresleep_safe free)
  rintro _ _ rfl
  split
  · rename_i valid
    refine safe_pure ⟨?_, (sound.table.loaded k pos valid).2⟩
    rw [locked, ← sound.clean pos valid, ← valid]
  · apply safe_mod
    simp only [update_self, update_idem]
    split
    · rename_i none
      exact safe_throw (alive.resolve_left (by rwa [not_not]))
    · rename_i used
      exact safe_pure ⟨rfl, used⟩

lemma Sound.locked (sound : Sound sb O s refs)
    (used : (s.dinode (s.itable k).inum).type ≠ .free) : Sound sb O (locked s k) refs :=
  ⟨sound.disk, sound.table.put rfl rfl (fun _ => rfl) fun _ _ => ⟨rfl, used⟩⟩

lemma ilock_safe (tame : Benign E) (sound : Sound sb O s refs) (pos : 0 < refs k)
    (alive : (s.dinode (s.itable k).inum).type ≠ .free ∨ E "ilock: no type") :
    Safe E (ilock k) s fun _ t => Sound sb O t refs ∧ Keeps refs s t ∧ OnTable s t ∧ (t.itable k).valid = true := by
  apply (ilock_eq sound pos (.inr (tame _ (by decide))) alive).mono
  rintro _ _ ⟨rfl, used⟩
  refine ⟨sound.locked used, .of_update rfl fun _ => ⟨rfl, fun _ => rfl⟩, ⟨rfl, rfl, rfl⟩, ?_⟩
  simp [FsTable.locked]

lemma Sound.wrote (sound : Sound sb O s refs) (pos : 0 < refs k) (valid : (s.itable k).valid = true)
    (wrote : Wrote sb k src off n tot c s t) :
    Table sb O t.itable t.dinode refs ∧ Keeps refs s t ∧ (t.itable k).copy = c := by
  have used : c.type ≠ .free := by
    rw [wrote.type (sound.clean pos valid)]
    exact sound.used pos valid
  obtain ⟨bm, bl, l, rfl⟩ := wrote.rewrites
  refine ⟨sound.table.rewrite pos valid used, .of_update rfl fun _ => ⟨rfl, id⟩, ?_⟩
  simp

def freedCopy (d : Dinode) : Dinode := { Dinode.emptied d with type := .free }

lemma iput_kept (sound : Sound sb O s (bump refs k))
    (more : ¬((s.itable k).ref = 1 ∧ (s.itable k).valid = true ∧ (s.itable k).copy.nlink = 0)) :
    Safe E (iput sb k) s fun _ t => Sound sb O t refs ∧ Keeps refs s t ∧ OnTable s t ∧
      ∀ l, (t.itable l).copy = (s.itable l).copy := by
  apply safe_get
  rw [if_neg more]
  apply safe_pure_bind
  refine safe_modify ⟨⟨sound.disk, sound.table.drop ?_ (fun _ => ⟨rfl, rfl, rfl⟩) ?_⟩,
    .of_update rfl fun _ => ⟨rfl, id⟩, ⟨rfl, rfl, rfl⟩, ?_⟩
  · simp [sound.table.ref, bump_self]
  · intro none valid _ zero
    rw [← sound.clean bump_gt valid] at zero
    exact more ⟨by rw [sound.table.ref, bump_self, none], valid, zero⟩
  · intro l
    by_cases hl : l = k
    · subst hl
      simp
    · simp [update_of_ne hl]

lemma Got.iput_safe (got : Got sb O refs i k s t) :
    Safe E (iput sb k) t fun _ u => Sound sb O u refs ∧ Keeps refs s u ∧ OnTable s u := by
  have more : ¬((t.itable k).ref = 1 ∧ (t.itable k).valid = true ∧ (t.itable k).copy.nlink = 0) := by
    rintro ⟨one, valid, -⟩
    rw [got.sound.table.ref, bump_self] at one
    rw [got.fresh (by omega)] at valid
    cases valid
  apply (iput_kept got.sound more).mono
  rintro _ u ⟨sound, keeps, on, -⟩
  exact ⟨sound, got.keeps.trans keeps, got.onTable.trans on⟩

lemma iput_safe (tame : Benign E) (sound : Sound sb O s (bump refs k)) :
    Safe E (iput sb k) s fun _ t => Sound sb O t refs ∧ Keeps refs s t ∧ Reaps (InUse refs s) (tree s) (tree t) ∧
      (∀ l, 0 < refs l → (t.itable l).copy = (s.itable l).copy) ∧
      (refs k = 0 → (s.itable k).valid = true → (s.itable k).copy.nlink = 0 →
        (tree t).typ (s.itable k).inum = .free) := by
  have pos : 0 < bump refs k k := bump_gt
  by_cases last : (s.itable k).ref = 1 ∧ (s.itable k).valid = true ∧ (s.itable k).copy.nlink = 0
  · apply safe_get
    rw [if_pos last]
    obtain ⟨one, valid, zero⟩ := last
    have none : refs k = 0 := by
      rw [sound.table.ref, bump_self] at one
      omega
    have clean := sound.clean pos valid
    have used := sound.used pos valid
    refine Safe.bind (Q := fun _ t => ∃ bm l, t = { s with
      bitmap := bm
      dinode := update s.dinode (s.itable k).inum (freedCopy (s.itable k).copy)
      itable := update s.itable k { s.itable k with
        lock := false
        valid := false
        copy := freedCopy (s.itable k).copy }
      lh := l } ∧ Owned sb bm fun p => if p.inode = (s.itable k).inum then 0
        else ptr s.block s.dinode p) ?_ ?_
    · apply Safe.bind (acquiresleep_safe (.inr (tame _ (by decide))))
      rintro _ _ rfl
      have inoEq : ino { s with
        itable := update s.itable k { s.itable k with lock := true } } k = s.dinode := by
        simp [ino, clean, update_eq_self]
      apply Safe.bind (itrunc_safe tame.logged (by rw [inoEq]; exact sound.disk.owned)
        (by simpa only [update_self] using used))
      rintro _ _ ⟨bm, l, rfl, owned⟩
      rw [inoEq] at owned
      apply safe_mod
      apply Safe.bind (iupdate_safe tame.logged k)
      rintro _ _ ⟨l', rfl⟩
      refine safe_modify ⟨bm, l', ?_, ?_⟩
      · simp [ino, update_idem, freedCopy]
      · simpa only [update_self] using owned
    · rintro _ _ ⟨bm, l, rfl, owned⟩
      refine safe_modify ⟨⟨?_, ?_⟩, .of_unused none fun l ne => ?_, ?_, ?_, fun _ _ _ => ?_⟩
      · exact sound.disk.setEmpty owned rfl rfl (.inl rfl)
      · simp only [update_self, update_idem]
        exact sound.table.free none (by simp only [one]) rfl
      · simp [update_of_ne ne]
      · refine ⟨fun i => i = (s.itable k).inum, ?_, ?_⟩
        · intro i here
          obtain rfl : i = (s.itable k).inum := by simpa using here
          constructor
          · simp [tree, treeOf, ← clean, zero, ite_self]
          · rintro ⟨l, pos', eq⟩
            have := sound.table.uniq l k (bump_pos pos') pos eq
            subst this
            omega
        · simp only [tree, treeOf_update]
          apply Tree.ext
          all_goals
            intro i
            by_cases hi : i = (s.itable k).inum
            · subst hi
              simp [Tree.free, entsOf, freedCopy]
            · simp [Tree.free, hi]
      · intro l pos'
        have ne : l ≠ k := by
          rintro rfl
          omega
        simp [update_of_ne ne]
      · simp only [tree, treeOf, update_self]
        rfl
  · apply (iput_kept sound last).mono
    rintro _ t ⟨sound', keeps, on, copy⟩
    refine ⟨sound', keeps, ?_, fun l _ => copy l, fun none valid zero => ?_⟩
    · rw [on.tree]
      exact .refl
    · exact absurd ⟨by rw [sound.table.ref, bump_self, none], valid, zero⟩ last

end Xv6.FsTable
