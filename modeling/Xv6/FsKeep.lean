import Xv6.FsCalls
import Xv6.Total

/-! What reading and writing inodes leaves alone. A part of the state that the disk, the log
header and the copies of inodes do not touch is the same after every function that takes no
lock of its own. -/

namespace Xv6.FsKeep

open Params FsMachine Total

variable {α β γ : Type} {φ : Fs → γ}

variable {f : F α} {k : Slot}

def Kept (φ : Fs → γ) (f : F α) : Prop := ∀ s, Ensures f s fun _ t => φ t = φ s

/-- `φ` looks at neither the disk nor the log header, nor at an inode beyond its lock. -/
structure Blind (φ : Fs → γ) : Prop where
  bitmap : ∀ s m, φ { s with bitmap := m } = φ s
  dinode : ∀ s m, φ { s with dinode := m } = φ s
  block : ∀ s m, φ { s with block := m } = φ s
  lh : ∀ s m, φ { s with lh := m } = φ s
  inode : ∀ s k (h : Inode → Inode), (∀ ip, (h ip).lock = ip.lock) →
    φ { s with itable := Function.update s.itable k (h (s.itable k)) } = φ s

lemma Kept.bind (first : Kept φ f) (rest : ∀ a, Kept φ (g a)) : Kept φ (f >>= g) := fun s =>
  (first s).bind fun a t same b u eq => (rest a t b u eq).trans same

lemma kept_pure : Kept φ (pure a : F α) := by
  intro s b t eq
  cases eq
  rfl

lemma kept_throw : Kept φ (throw e : F α) := fun _ => ensures_throw

lemma kept_get {g : Fs → F β} (h : ∀ s, Kept φ (g s)) : Kept φ (get >>= g) := fun s => ensures_get (h s s)

lemma kept_modify (h : ∀ s, φ (m s) = φ s) : Kept φ (modify m : F Unit) := by
  intro s a t eq
  cases eq
  exact h s

lemma kept_ite [Decidable p] {f g : F α} (yes : Kept φ f) (no : Kept φ g) : Kept φ (if p then f else g) := by
  split
  · exact yes
  · exact no

section
variable (blind : Blind φ) (sb : Super)
include blind

lemma kept_modInode (same : ∀ ip, (h ip).lock = ip.lock) : Kept φ (modInode k h) :=
  kept_modify fun s => blind.inode s k h same

lemma kept_modCopy (h) : Kept φ (modCopy k h) := kept_modInode blind fun _ => rfl

lemma kept_logWrite (b) : Kept φ (logWrite b) := by
  intro s
  refine ensures_get ?_
  split
  · exact ensures_throw
  · intro a t eq
    cases eq
    exact blind.lh s _

lemma kept_setBit (b v) : Kept φ (setBit sb b v) := by
  exact .bind (kept_modify fun s => blind.bitmap s _) fun _ => kept_logWrite blind _

lemma kept_store (b) (data : ByteFields.Bytes bsize) : Kept φ (store b data) :=
  kept_modify fun s => blind.block s _

lemma kept_bzero (b) : Kept φ (bzero b) := (kept_store blind _ _).bind fun _ => kept_logWrite blind _

lemma kept_setDinode (i d) : Kept φ (setDinode sb i d) := by
  exact .bind (kept_modify fun s => blind.dinode s _) fun _ => kept_logWrite blind _

lemma kept_iupdate (k) : Kept φ (iupdate sb k) := kept_get fun _ => kept_setDinode blind sb _ _

lemma kept_balloc : Kept φ (balloc sb) := by
  refine kept_get fun s => ?_
  split
  · exact kept_pure
  · exact (kept_setBit blind sb _ _).bind fun _ => (kept_bzero blind _).bind fun _ => kept_pure

lemma kept_bfree (b) : Kept φ (bfree sb b) :=
  kept_get fun _ => kept_ite (kept_setBit blind sb _ _) kept_throw

lemma kept_loadAddr (k a) : Kept φ (loadAddr sb k a) :=
  kept_get fun _ => kept_ite ((kept_balloc blind sb).bind fun _ => kept_ite kept_pure
    ((kept_modCopy blind _).bind fun _ => kept_pure))
    kept_pure

lemma kept_loadEntry (ind j) : Kept φ (loadEntry sb ind j) :=
  kept_get fun _ => kept_ite ((kept_balloc blind sb).bind fun _ => kept_ite kept_pure (kept_get fun _ =>
      (kept_store blind _ _).bind fun _ => (kept_logWrite blind _).bind fun _ => kept_pure))
    kept_pure

lemma kept_bmap (k bn) : Kept φ (bmap sb k bn) := by
  unfold bmap
  split
  · exact kept_loadAddr blind sb _ _
  · exact kept_ite ((kept_loadAddr blind sb _ _).bind fun _ => kept_ite kept_pure
      (kept_loadEntry blind sb _ _)) kept_throw

lemma kept_freeAddr (k a) : Kept φ (freeAddr sb k a) :=
  kept_get fun _ => kept_ite kept_pure ((kept_bfree blind sb _).bind fun _ => kept_modCopy blind _)

lemma kept_freeEntries (data : ByteFields.Bytes bsize) (js) : Kept φ (freeEntries sb data js) := by
  induction js with
  | nil => exact kept_pure
  | cons j js ih => exact (kept_ite kept_pure (kept_bfree blind sb _)).bind fun _ => ih

lemma kept_freeAddrs (k as) : Kept φ (freeAddrs sb k as) := by
  induction as with
  | nil => exact kept_pure
  | cons a as ih => exact (kept_freeAddr blind sb k a).bind fun _ => ih

lemma kept_itrunc (k) : Kept φ (itrunc sb k) :=
  (kept_freeAddrs blind sb k _).bind fun _ => kept_get fun _ =>
    (kept_ite kept_pure (kept_freeEntries blind sb _ _)).bind fun _ =>
      (kept_freeAddr blind sb k _).bind fun _ => (kept_modCopy blind _).bind fun _ => kept_iupdate blind sb k

lemma kept_readLoop (k dst fuel n off tot got) : Kept φ (readLoop sb k dst fuel n off tot got) := by
  induction fuel generalizing off tot got with
  | zero => exact kept_pure
  | succ fuel ih =>
    exact kept_ite ((kept_bmap blind sb _ _).bind fun _ => kept_ite kept_pure
      (kept_get fun _ => kept_ite kept_pure (ih _ _ _))) kept_pure

lemma kept_readi (k dst off n) : Kept φ (readi sb k dst off n) :=
  kept_get fun _ => kept_ite kept_pure (kept_readLoop blind sb _ _ _ _ _ _ _)

lemma kept_writeLoop (k src fuel n off tot) : Kept φ (writeLoop sb k src fuel n off tot) := by
  induction fuel generalizing off tot with
  | zero => exact kept_pure
  | succ fuel ih =>
    exact kept_ite ((kept_bmap blind sb _ _).bind fun _ => kept_ite kept_pure
      (kept_get fun _ => (kept_store blind _ _).bind fun _ => kept_ite kept_pure
        ((kept_logWrite blind _).bind fun _ => ih _ _))) kept_pure

lemma kept_writei (k src off n) : Kept φ (writei sb k src off n) :=
  kept_get fun _ => kept_ite kept_pure (kept_ite kept_pure
    ((kept_writeLoop blind sb _ _ _ _ _ _).bind fun _ => (kept_modCopy blind _).bind fun _ =>
      (kept_iupdate blind sb k).bind fun _ => kept_pure))

lemma kept_iget (i) : Kept φ (iget i) := by
  refine kept_get fun s => ?_
  split
  · exact .bind (kept_modInode blind fun _ => rfl) fun _ => kept_pure
  · split
    · exact kept_throw
    · exact .bind (kept_modInode blind fun _ => rfl) fun _ => kept_pure

lemma kept_idup (k) : Kept φ (idup k) := kept_modInode blind fun _ => rfl

lemma kept_ialloc (type : FType) : Kept φ (ialloc sb type) := by
  refine kept_get fun s => ?_
  split
  · exact kept_pure
  · exact (kept_setDinode blind sb _ _).bind fun _ => (kept_iget blind _).bind fun _ => kept_pure

lemma kept_readDirent (k off) : Kept φ (readDirent sb k off) :=
  (kept_readi blind sb _ _ _ _).bind fun _ => kept_pure

lemma kept_lookupFrom (k name fuel off) : Kept φ (lookupFrom sb k name fuel off) := by
  induction fuel generalizing off with
  | zero => exact kept_pure
  | succ fuel ih =>
    refine kept_get fun s => kept_ite ((kept_readDirent blind sb _ _).bind fun de => ?_) kept_pure
    cases de with
    | none => exact kept_throw
    | some de => exact kept_ite ((kept_iget blind _).bind fun _ => kept_pure) (ih _)

lemma kept_dirlookup (k name) : Kept φ (dirlookup sb k name) :=
  kept_get fun _ => kept_ite kept_throw (kept_lookupFrom blind sb _ _ _ _)

lemma kept_freeDirent (k fuel off) : Kept φ (freeDirent sb k fuel off) := by
  induction fuel generalizing off with
  | zero => exact kept_pure
  | succ fuel ih =>
    refine kept_get fun s => kept_ite ((kept_readDirent blind sb _ _).bind fun de => ?_) kept_pure
    cases de with
    | none => exact kept_throw
    | some de => exact kept_ite kept_pure (ih _)

end

end Xv6.FsKeep
