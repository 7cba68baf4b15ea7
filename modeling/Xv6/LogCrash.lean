import Xv6.LogInvariant
import Xv6.Runs

/-! Crash atomicity of the redo log. `Reach` follows the kernel through any
interleaving of operations, commits, cache traffic, crashes and recoveries, and
keeps the list of transactions whose header write reached the disk. -/

namespace Xv6.LogCrash
open ByteFields Params LogMachine LogHeader LogDisk LogInvariant LogOps RedoLog

variable {P : Type}

/-- The states the kernel can be in after booting on `disk₀`, each with the
transactions whose header write has reached the disk, oldest first. -/
inductive Reach [DecidableEq P] (sb : Super) (disk₀ : Nat → Block) : State P → List Txn → Prop
  | boot : Reach sb disk₀ (crash disk₀) []
  | step {s t : State P} {a : Act P} {done : List Txn} :
      Reach sb disk₀ s done → Step sb s a t → Reach sb disk₀ t (done ++ committed s a)

lemma redoAll_append (rs rs' : List Txn) (m) : redoAll (rs ++ rs') m = redoAll rs' (redoAll rs m) := by
  simp [redoAll]

lemma reach_inv [Fintype P] [DecidableEq P] {s : State P} (empty : headBlocks (disk₀ sb.logstart) = [])
    (h : Reach sb disk₀ s done) :
    Inv sb (redoAll done disk₀) s := by
  induction h with
  | boot => exact .boot empty
  | step _ hs ih =>
    rw [redoAll_append]
    exact ih.step hs

section
variable [DecidableEq P] {s : State P}

lemma installTrans_run (sb) (rest : tail + k = s.lh.length) :
    Runs.Run (Step sb) { s with phase := .recover tail } (List.replicate k .recover)
      { installTrans sb true k tail s with phase := .recover (tail + k) } := by
  induction k generalizing s tail with
  | zero => exact .nil _
  | succ k ih =>
    have lt : tail < s.lh.length := by omega
    have first : Step sb { s with phase := .recover tail } .recover
      { installAt sb s true tail with phase := .recover (tail + 1) } := by
      simp only [Step, step, recoverStep, if_pos lt]
      rfl
    have rest' : tail + 1 + k = (installAt sb s true tail).lh.length := by
      rw [installAt_lh]
      omega
    have others := ih rest'
    rw [Nat.add_right_comm] at others
    exact .cons first others

/-- `recoverFromLog` is what the recovery steps do when no crash interrupts
them: the kernel always gets through it, in `n + 3` steps. -/
lemma recoverFromLog_run (sb) (at_ : s.phase = .readHead) :
    Runs.Run (Step sb) s (List.replicate ((readHead sb s).lh.length + 1 + 2) .recover) (recoverFromLog sb s) := by
  have first : Step sb s .recover { readHead sb s with phase := .recover 0 } := by
    simp only [Step, step, recoverStep, at_]
  have same := installTrans_lh sb (readHead sb s) true (readHead sb s).lh.length 0
  have loop := installTrans_run sb (Nat.zero_add (readHead sb s).lh.length)
  simp only [recoverFromLog]
  rw [← List.replicate_append_replicate]
  refine (Runs.Run.cons first loop).append ?_
  generalize readHead sb s = read at same ⊢
  generalize installTrans sb true read.lh.length 0 read = u at same ⊢
  have past : Step sb { u with phase := .recover (0 + read.lh.length) } .recover
    { u with lh := [], phase := .recoverClear } := by
    have all : ¬ 0 + read.lh.length < u.lh.length := by
      rw [same]
      omega
    simp only [Step, step, recoverStep, if_neg all]
  exact .cons past (.single rfl)

end

/-- Whenever the machine stops, a recovery that runs to its end leaves every home block as it is after
exactly the transactions whose header write reached the disk, and the header empty. -/
theorem crash_atomic [Fintype P] [DecidableEq P] (sb : Super) (disk₀ : Nat → Block)
    (empty : field (disk₀ sb.logstart) 0 4 = 0) (s : State P) (done : List Txn)
    (h : Reach sb disk₀ s done) :
    let recovered : State P := recoverFromLog sb (crash s.disk)
  (∃ k, Runs.Run (Step sb) (crash s.disk) (List.replicate k .recover) recovered) ∧
  (∀ b, ¬ sb.inLog b → recovered.disk b = redoAll done disk₀ b) ∧
  field (recovered.disk sb.logstart) 0 4 = 0 := by
  have start : headBlocks (disk₀ sb.logstart) = [] := by simp [headBlocks, headCount, empty]
  have inv := ((reach_inv start h).crash).recoverFromLog rfl
  have clean := inv.disk
  refine ⟨⟨_, recoverFromLog_run sb rfl⟩, fun b hb => clean.home_eq b hb, ?_⟩
  · simp only [recoverFromLog, writeHead_disk, Function.update_self, encodeHead, storeBlocks]
    rw [field_setField_same _ _ _ _ (by simp [bsize])]
    rfl

/-- One process logs block 40 and the machine stops right after the header
write: the block is not home yet, and recovery brings it there. -/
theorem crash_atomic_after_header_write : ∃ (s : State Unit) (done : List Txn),
    Reach mkfsSuper (fun _ => zeros bsize) s done ∧ s.disk 40 = zeros bsize ∧
    (recoverFromLog mkfsSuper (crash s.disk : State Unit)).disk 40 = fun _ => 7 := by
  have r1 : Reach mkfsSuper (fun _ => zeros bsize) (crash (fun _ => zeros bsize) : State Unit) [] := .boot
  have r2 := r1.step (a := .recover) rfl
  have r3 := r2.step (a := .recover) rfl
  have r4 := r3.step (a := .recover) rfl
  have r5 := r4.step (a := .beginOp ()) rfl
  have r6 := r5.step (a := .modify () 40 (fun _ => 7)) rfl
  have r7 := r6.step (a := .logWrite () 40) rfl
  have r8 := r7.step (a := .endOp ()) rfl
  have r9 := r8.step (a := .commit) rfl
  have r10 := r9.step (a := .commit) rfl
  have r11 := r10.step (a := .commit) rfl
  refine ⟨_, _, r11, rfl, ?_⟩
  have home := (crash_atomic _ _ (by simp) _ _ r11).2.1 40 (by decide)
  rw [home]
  rfl

end Xv6.LogCrash
