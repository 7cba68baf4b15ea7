import Xv6.LogHeader

/-! What the disk holds while a transaction commits or a recovery runs.
`Recoverable` holds between any two disk writes: redoing the record that the
on-disk header names gives the committed contents of every home block. -/

namespace Xv6.LogDisk
open ByteFields Params LogMachine LogHeader RedoLog Function

variable {P : Type}

section
variable (sb : Super) (s : State P)

@[simp] lemma view_bread (b x) : view (bread s b) x = view s x := by
  by_cases h : x = b
  · subst h; simp [view, bread]
  · simp [view, bread, Function.update_of_ne h]

@[simp] lemma view_bwrite (b data x) : view (bwrite s b data) x = if x = b then data else view s x := by
  by_cases h : x = b
  · subst h; simp [view, bwrite]
  · simp [view, bwrite, h]

lemma cached_update (data) (h : (s.cache x).isSome) : (update s.cache b (some data) x).isSome := by
  by_cases hx : x = b
  · subst hx; simp
  · rwa [update_of_ne hx]

@[simp] lemma writeHead_disk : (writeHead sb s).disk =
    update s.disk sb.logstart (encodeHead (view s sb.logstart) s.lh) := by
  simp [writeHead, bwrite, bread, view]

@[simp] lemma view_writeHead (x) : view (writeHead sb s) x =
    if x = sb.logstart then encodeHead (view s sb.logstart) s.lh else view s x := by
  simp only [writeHead, view_bwrite, view_bread]
  rfl

@[simp] lemma writeLogAt_disk (tail) : (writeLogAt sb s tail).disk =
    update s.disk (sb.logstart + tail + 1) (view s (s.lh.getD tail 0)) := by
  simp only [writeLogAt, bwrite, view_bread]
  rfl

@[simp] lemma view_writeLogAt (tail x) : view (writeLogAt sb s tail) x =
    if x = sb.logstart + tail + 1 then view s (s.lh.getD tail 0) else view s x := by
  simp only [writeLogAt, view_bwrite, view_bread]

@[simp] lemma installAt_disk (r tail) : (installAt sb s r tail).disk =
    update s.disk (s.lh.getD tail 0) (view s (sb.logstart + tail + 1)) := by
  cases r <;> simp only [installAt, bwrite, view_bread] <;> rfl

@[simp] lemma installAt_lh (r tail) : (installAt sb s r tail).lh = s.lh := by
  cases r <;> rfl

@[simp] lemma view_installAt (r tail x) : view (installAt sb s r tail) x =
    if x = s.lh.getD tail 0 then view s (sb.logstart + tail + 1) else view s x := by
  cases r
  · change view (bwrite (bread (bread s _) _) _ _) x = _
    simp only [view_bwrite, view_bread]
  · simp only [installAt, if_true, view_bwrite, view_bread]

@[simp] lemma installTrans_lh (r k tail) : (installTrans sb r k tail s).lh = s.lh := by
  induction k generalizing tail s with
  | zero => rfl
  | succ k ih => rw [installTrans, ih, installAt_lh]

end

/-- Redoing the record that the on-disk header names gives `spec` on every
home block. With an empty header this says that the home blocks are `spec`. -/
structure Recoverable (sb : Super) (spec disk : Nat → Block) (lh : List Nat) : Prop where
  head : headBlocks (disk sb.logstart) = lh
  once : lh.Nodup
  home : ∀ b ∈ lh, ¬ sb.inLog b
  room : lh.length ≤ logSize ∧ lh.length + 1 ≤ sb.nlog
  redone : ∀ b, ¬ sb.inLog b → redo (record sb lh disk) disk b = spec b

def Installed (sb : Super) (disk : Nat → Block) (lh : List Nat) (tail : Nat) : Prop :=
  ∀ i, ∀ h : i < lh.length, i < tail → disk lh[i] = disk (sb.logstart + i + 1)

def Copied (sb : Super) (s : State P) (tail : Nat) : Prop :=
  ∀ i, ∀ h : i < s.lh.length, i < tail → s.disk (sb.logstart + i + 1) = view s s.lh[i]

def DiskAt (sb : Super) (spec : Nat → Block) (s : State P) : Phase → Prop
  | .idle => Recoverable sb spec s.disk []
  | .writeLog tail => Recoverable sb spec s.disk [] ∧ Copied sb s tail
  | .writeHead => Recoverable sb spec s.disk [] ∧ Copied sb s s.lh.length
  | .install tail => Recoverable sb spec s.disk s.lh ∧ Installed sb s.disk s.lh tail
  | .clear => s.lh = [] ∧ ∃ lh, Recoverable sb spec s.disk lh ∧ Installed sb s.disk lh lh.length
  | .done => s.lh = [] ∧ Recoverable sb spec s.disk []
  | .readHead => s.lh = [] ∧ ∃ lh, Recoverable sb spec s.disk lh
  | .recover tail => Recoverable sb spec s.disk s.lh ∧ Installed sb s.disk s.lh tail
  | .recoverClear =>
    s.lh = [] ∧ ∃ lh, Recoverable sb spec s.disk lh ∧ Installed sb s.disk lh lh.length

lemma inLog_head (sb : Super) : sb.inLog sb.logstart := ⟨Nat.le_refl _, Nat.lt_add_of_pos_right sb.nlog_pos⟩

lemma inLog_slot {sb : Super} {lh : List Nat} (room : lh.length + 1 ≤ sb.nlog)
    (h : i < lh.length) : sb.inLog (sb.logstart + i + 1) := by
  constructor <;> omega

lemma headBlocks_small (b) : ∀ x ∈ headBlocks b, x < 2 ^ 32 := by
  intro x hx
  obtain ⟨i, _, rfl⟩ := List.mem_map.mp hx
  exact field_lt _ _ _

namespace Recoverable
lemma home_eq (h : Recoverable sb spec disk []) (b) (hb : ¬ sb.inLog b) : disk b = spec b := h.redone b hb

/-- The header write is the commit point: it moves `spec` by the transaction
whose buffers the log slots hold. -/
lemma commit (h : Recoverable sb spec disk []) (old) (f : Nat → Block)
    (once : lh.Nodup) (home : ∀ b ∈ lh, ¬ sb.inLog b ∧ b < 2 ^ 32)
    (room : lh.length ≤ logSize ∧ lh.length + 1 ≤ sb.nlog)
    (copied : ∀ i, ∀ hi : i < lh.length, disk (sb.logstart + i + 1) = f lh[i]) :
    Recoverable sb (redo (lh.map fun b => (b, f b)) spec) (update disk sb.logstart (encodeHead old lh)) lh := by
  have slots : record sb lh (update disk sb.logstart (encodeHead old lh)) = lh.map fun b => (b, f b) := by
    apply List.ext_getElem
    · simp [record]
    · intro i hi _
      simp only [record, List.length_mapIdx] at hi
      have away : sb.logstart + i + 1 ≠ sb.logstart := by omega
      simp [record, update_of_ne away, copied i hi]
  refine ⟨?_, once, fun b hb => (home b hb).1, room, ?_⟩
  · rw [update_self, headBlocks_encodeHead _ _ room.1 (fun b hb => (home b hb).2)]
  · intro b hb
    have away : b ≠ sb.logstart := fun e => hb (e ▸ inLog_head sb)
    rw [slots]
    apply redo_congr
    · rw [update_of_ne away, h.home_eq b hb]
      exact .inr rfl
    · simpa [comp_def] using once

section
variable (h : Recoverable sb spec disk lh)
include h

lemma install {i : Nat} (hi : i < lh.length) :
    Recoverable sb spec (update disk lh[i] (disk (sb.logstart + i + 1))) lh := by
  have away : ∀ x, sb.inLog x → x ≠ lh[i] := fun x hx e => h.home _ (List.getElem_mem hi) (e ▸ hx)
  have slots : record sb lh (update disk lh[i] (disk (sb.logstart + i + 1))) = record sb lh disk := by
    apply record_congr
    intro j hj
    exact update_of_ne (away _ (inLog_slot h.room.2 hj)) _ _
  refine ⟨?_, h.once, h.home, h.room, ?_⟩
  · rw [update_of_ne (away _ (inLog_head sb)), h.head]
  · intro b hb
    rw [slots, redo_early _ _ _ _ (by simpa using h.once) (mem_record.mpr ⟨i, hi, rfl⟩)]
    exact h.redone b hb

lemma installed_eq (all : Installed sb disk lh lh.length) (b) (hb : ¬ sb.inLog b) : disk b = spec b := by
  rw [← h.redone b hb, redo_done _ _ (by simpa using h.once)]
  rintro w hw
  obtain ⟨i, hi, rfl⟩ := mem_record.mp hw
  exact all i hi hi

lemma clear (all : Installed sb disk lh lh.length) (old : Block) :
    Recoverable sb spec (update disk sb.logstart (encodeHead old [])) [] := by
  refine ⟨?_, List.nodup_nil, by simp, ⟨by simp, sb.nlog_pos⟩, ?_⟩
  · rw [update_self, headBlocks_encodeHead _ _ (by simp) (by simp)]
  · intro b hb
    have away : b ≠ sb.logstart := fun e => hb (e ▸ inLog_head sb)
    rw [record_nil, redo_nil, update_of_ne away, h.installed_eq all b hb]

end

lemma slot (h : Recoverable sb spec disk []) (hx : sb.inLog x) (off : x ≠ sb.logstart) (data) :
    Recoverable sb spec (update disk x data) [] := by
  refine ⟨?_, h.once, h.home, h.room, ?_⟩
  · rw [update_of_ne off.symm, h.head]
  · intro b hb
    have away : b ≠ x := fun e => hb (e ▸ hx)
    rw [record_nil, redo_nil, update_of_ne away, h.home_eq b hb]

end Recoverable

lemma Installed.succ {sb : Super} {lh : List Nat} {tail : Nat}
    (h : Installed sb disk lh tail) (once : lh.Nodup) (home : ∀ b ∈ lh, ¬ sb.inLog b)
    (room : lh.length + 1 ≤ sb.nlog) (ht : tail < lh.length) :
    Installed sb (update disk lh[tail] (disk (sb.logstart + tail + 1))) lh (tail + 1) := by
  intro i hi lt
  have slot : sb.logstart + i + 1 ≠ lh[tail] := fun e => home _ (List.getElem_mem ht) (e ▸ inLog_slot room hi)
  rw [update_of_ne slot]
  by_cases e : i = tail
  · subst e; rw [update_self]
  · have other : lh[i] ≠ lh[tail] := fun h => e (once.getElem_inj_iff.mp h)
    rw [update_of_ne other]
    exact h i hi (by omega)

lemma DiskAt.recoverable (h : DiskAt sb spec s ph) : ∃ lh, Recoverable sb spec s.disk lh := by
  cases ph with
  | idle => exact ⟨_, h⟩
  | writeLog => exact ⟨_, h.1⟩
  | writeHead => exact ⟨_, h.1⟩
  | install => exact ⟨_, h.1⟩
  | clear => obtain ⟨_, lh, h, _⟩ := h; exact ⟨lh, h⟩
  | done => exact ⟨_, h.2⟩
  | readHead => exact h.2
  | recover => exact ⟨_, h.1⟩
  | recoverClear => obtain ⟨_, lh, h, _⟩ := h; exact ⟨lh, h⟩

def gathering : Phase → Prop
  | .idle | .writeLog _ | .writeHead => True
  | _ => False

/-- A step that changes neither the disk nor the buffers of the transaction
keeps the disk part of the invariant. -/
lemma DiskAt.congr (h : DiskAt sb spec s ph) (lh : t.lh = s.lh) (disk : t.disk = s.disk)
    (views : gathering ph → ∀ b ∈ s.lh, view t b = view s b) : DiskAt sb spec t ph := by
  have copied : gathering ph → ∀ tail, Copied sb s tail → Copied sb t tail := by
    intro g tail hc i hi lt
    simp only [lh] at hi ⊢
    rw [disk, hc i hi lt, views g _ (List.getElem_mem hi)]
  cases ph <;> simp only [DiskAt, lh, disk] at h ⊢
  case writeLog => exact ⟨h.1, copied trivial _ h.2⟩
  case writeHead => exact ⟨h.1, copied trivial _ h.2⟩
  all_goals exact h

end Xv6.LogDisk
