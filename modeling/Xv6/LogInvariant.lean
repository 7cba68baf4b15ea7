import Xv6.LogDisk
import Xv6.LogOps

/-! The invariant of the log and its preservation by every step: operations, cache traffic,
the steps of a commit, a crash and the steps of a recovery. -/

namespace Xv6.LogInvariant
open ByteFields Params LogMachine LogHeader LogDisk LogOps RedoLog Function List

abbrev Txn := List (Nat × Block)

variable {P : Type}

structure Inv [Fintype P] (sb : Super) (spec : Nat → Block) (s : State P) : Prop where
  count : s.outstanding = (openOps s.op).card
  coherent : ∀ b, sb.inLog b → view s b = s.disk b
  once : s.lh.Nodup
  home : ∀ b ∈ s.lh, ¬ sb.inLog b ∧ b < 2 ^ 32
  room : s.lh.length ≤ logSize ∧ s.lh.length + 1 ≤ sb.nlog
  pinned : gathering s.phase → ∀ b ∈ s.lh, 0 < s.pins b ∧ (s.cache b).isSome
  quiet : s.phase ≠ .idle → ∀ p, s.op p = none
  busy : s.committing = false → s.phase.recovering = false → s.phase = .idle
  disk : DiskAt sb spec s s.phase

namespace Inv
variable [Fintype P] {sb : Super} {spec : Nat → Block} {s t : State P}

section
variable (h : Inv sb spec s)
include h

lemma bread (b) : Inv sb spec (bread s b) where
  __ := h
  coherent x hx := by rw [view_bread]; exact h.coherent x hx
  pinned g x hx := ⟨(h.pinned g x hx).1, cached_update s _ (h.pinned g x hx).2⟩
  disk := h.disk.congr rfl rfl (fun _ x _ => view_bread s b x)

lemma evict (b) (free : s.pins b = 0) : Inv sb spec { s with cache := update s.cache b none } := by
  have views : ∀ x, (x = b → view s b = s.disk b) → view { s with cache := update s.cache b none } x = view s x := by
    intro x hx
    by_cases e : x = b
    · subst e; rw [hx rfl]; simp [view]
    · simp [view, update_of_ne e]
  have kept : gathering s.phase → ∀ x ∈ s.lh, x ≠ b := by
    rintro g x hx rfl
    exact absurd (h.pinned g x hx).1 (by omega)
  refine ⟨h.count, ?_, h.once, h.home, h.room, ?_, h.quiet, h.busy, ?_⟩
  · intro x hx
    rw [views x (fun e => e ▸ h.coherent x hx)]
    exact h.coherent x hx
  · intro g x hx
    simp only [update_of_ne (kept g x hx)]
    exact h.pinned g x hx
  · exact h.disk.congr rfl rfl (fun g x hx => views x (fun e => absurd e (kept g x hx)))

lemma idle_of_open (open_ : (s.op p).isSome) : s.phase = .idle := by
  by_contra hne
  simp [h.quiet hne p] at open_

lemma modify (open_ : (s.op p).isSome) (hb : ¬ sb.inLog b) (data) : Inv sb spec (modify s b data) := by
  have idle := h.idle_of_open open_
  refine ⟨h.count, ?_, h.once, h.home, h.room, ?_, h.quiet, h.busy, ?_⟩
  · intro x hx
    have away : x ≠ b := fun e => hb (e ▸ hx)
    have same := h.coherent x hx
    simpa [view, LogMachine.modify, update_of_ne away] using same
  · exact fun g x hx => ⟨(h.pinned g x hx).1, cached_update s _ (h.pinned g x hx).2⟩
  · have disk := h.disk
    simpa only [LogMachine.modify, idle, DiskAt] using disk

end

lemma start {disk : Nat → Block} (h : Recoverable sb spec disk lh) : Inv sb spec (crash disk : State P) := by
  refine ⟨?_, fun _ _ => rfl, nodup_nil, by simp [LogMachine.crash],
    ⟨Nat.zero_le _, sb.nlog_pos⟩, by simp [LogMachine.crash, gathering],
    by simp [LogMachine.crash], by simp [LogMachine.crash, Phase.recovering], rfl, lh, h⟩
  have none_open : openOps (fun _ : P => (none : Option (Finset Nat))) = ∅ := by simp [openOps_empty]
  simp [LogMachine.crash, none_open]

lemma crash (h : Inv sb spec s) : Inv sb spec (crash s.disk : State P) := by
  obtain ⟨lh, ok⟩ := h.disk.recoverable
  exact start ok

lemma boot {disk : Nat → Block} (empty : headBlocks (disk sb.logstart) = []) :
    Inv sb disk (LogMachine.crash disk : State P) :=
  start ⟨empty, nodup_nil, by simp, ⟨Nat.zero_le _, sb.nlog_pos⟩, fun _ _ => rfl⟩

lemma logBlock (h : Inv sb spec s) (idle : s.phase = .idle) (hb : ¬ sb.inLog b)
    (small : b < 2 ^ 32) (fits : s.lh.length < logSize ∧ s.lh.length + 1 < sb.nlog)
    (cached : (s.cache b).isSome) : Inv sb spec (logBlock s b) := by
  unfold LogMachine.logBlock
  split_ifs with hm
  · exact h
  have disk := h.disk
  simp only [idle, DiskAt] at disk
  refine ⟨h.count, h.coherent, ?_, ?_, ?_, ?_, h.quiet, h.busy, by simpa only [idle, DiskAt]⟩
  · exact h.once.append (nodup_singleton b) (by simpa using hm)
  · intro x hx
    rcases mem_append.mp hx with hx | hx
    · exact h.home x hx
    · rw [mem_singleton.mp hx]; exact ⟨hb, small⟩
  · simp only [length_append, length_singleton]
    omega
  · intro g x hx
    rcases mem_append.mp hx with hx | hx
    · have away : x ≠ b := fun e => hm (e ▸ hx)
      simpa [update_of_ne away] using h.pinned g x hx
    · rw [mem_singleton.mp hx]
      exact ⟨by simp, cached⟩

variable [DecidableEq P]

lemma beginOp (h : Inv sb spec s) (closed : s.op p = none)
    (up : s.phase.recovering = false) (hs : beginOp s p = .next t) : Inv sb spec t := by
  unfold LogMachine.beginOp at hs
  split_ifs at hs with hc
  cases hs
  have idle := h.busy (by simpa using hc) up
  refine ⟨?_, h.coherent, h.once, h.home, h.room, h.pinned, ?_, h.busy, ?_⟩
  · have fresh : p ∉ openOps s.op := by simp [closed]
    rw [openOps_open, Finset.card_insert_of_notMem fresh, h.count]
    rfl
  · exact fun hne => absurd idle hne
  · exact h.disk.congr rfl rfl (fun _ _ _ => rfl)

lemma logWrite (h : Inv sb spec s) (open_ : (s.op p).isSome)
    (hb : ¬ sb.inLog b) (small : b < 2 ^ 32) (hs : logWrite sb s p b = .next t) :
    Inv sb spec t := by
  unfold LogMachine.logWrite at hs
  split_ifs at hs with full
  cases hs
  have fits : s.lh.length < logSize ∧ s.lh.length + 1 < sb.nlog := by omega
  have logged := (h.bread b).logBlock (h.idle_of_open open_) hb small fits (by simp [LogMachine.bread])
  refine ⟨?_, logged.coherent, logged.once, logged.home, logged.room, logged.pinned, ?_,
    logged.busy, logged.disk.congr rfl rfl (fun _ _ _ => rfl)⟩
  · rw [openOps_map]
    exact logged.count
  · intro hne
    have idle : (LogMachine.logBlock (LogMachine.bread s b) b).phase = .idle := by
      unfold LogMachine.logBlock
      split_ifs <;> exact h.idle_of_open open_
    exact absurd idle hne

lemma endOp (h : Inv sb spec s) (open_ : (s.op p).isSome) (hs : endOp s p = .next t) : Inv sb spec t := by
  have idle := h.idle_of_open open_
  have count : s.outstanding - 1 = (openOps (update s.op p none)).card := by
    have mem : p ∈ openOps s.op := by simpa using open_
    have pos := Finset.card_pos.mpr ⟨p, mem⟩
    rw [openOps_close, Finset.card_erase_of_mem mem, h.count]
    omega
  have disk := h.disk
  simp only [idle, DiskAt] at disk
  simp only [LogMachine.endOp] at hs
  split_ifs at hs with hc hz hn
  · -- the last operation of a transaction that logged something
    cases hs
    have none_open : ∀ q, update s.op p none q = none := by
      rw [← openOps_empty, ← Finset.card_eq_zero]
      omega
    refine ⟨count, h.coherent, h.once, h.home, h.room, ?_, fun _ => none_open, by simp, ?_⟩
    · exact fun _ => h.pinned (by simp [idle, gathering])
    · exact ⟨disk, fun _ _ lt => absurd lt (Nat.not_lt_zero _)⟩
  · cases hs
    have none_open : ∀ q, update s.op p none q = none := by
      rw [← openOps_empty, ← Finset.card_eq_zero]
      omega
    have empty : s.lh = [] := length_eq_zero_iff.mp (by omega)
    refine ⟨count, h.coherent, h.once, h.home, h.room, by simp [gathering], fun _ => none_open, by simp, empty, disk⟩
  · cases hs
    refine ⟨count, h.coherent, h.once, h.home, h.room, h.pinned, fun hne => absurd idle hne,
      h.busy, by simpa only [idle, DiskAt]⟩

end Inv

/-- The transaction that a header write commits: the logged blocks with the
contents of their buffers. -/
def txn (s : State P) : Txn := s.lh.map (fun b => (b, view s b))

def committed (s : State P) : Act P → List Txn
  | .commit => if s.phase = .writeHead then [txn s] else []
  | _ => []

namespace Inv
variable [Fintype P] {sb : Super} {spec : Nat → Block} {s t : State P}

section
variable (h : Inv sb spec s)
include h

lemma not_idle_committing (run : s.phase ≠ .idle)
    (up : s.phase.recovering = false) {C : Prop} (hc : s.committing = false) : C :=
  absurd (h.busy hc up) run

lemma writeLogAt {tail : Nat} (at_ : s.phase = .writeLog tail) (lt : tail < s.lh.length) :
    Inv sb spec { writeLogAt sb s tail with phase := .writeLog (tail + 1) } := by
  have slot := inLog_slot h.room.2 lt
  have entry : s.lh.getD tail 0 = s.lh[tail] := by simp [lt]
  have away : ∀ i, ∀ hi : i < s.lh.length, s.lh[i] ≠ sb.logstart + tail + 1 :=
    fun i hi e => (h.home _ (getElem_mem hi)).1 (e ▸ slot)
  have disk := h.disk
  simp only [at_, DiskAt] at disk
  refine ⟨h.count, ?_, h.once, h.home, h.room, ?_, ?_, ?_, ?_, ?_⟩
  · intro x hx
    change view (LogMachine.writeLogAt sb s tail) x = (LogMachine.writeLogAt sb s tail).disk x
    rw [view_writeLogAt, writeLogAt_disk, update_apply]
    split_ifs
    · rfl
    · exact h.coherent x hx
  · intro _ x hx
    refine ⟨(h.pinned (by simp [at_, gathering]) x hx).1, ?_⟩
    exact cached_update _ _ (cached_update _ _ (cached_update _ _ (h.pinned (by simp [at_, gathering]) x hx).2))
  · exact fun _ => h.quiet (by simp [at_])
  · exact fun hc => h.not_idle_committing (by simp [at_]) (by simp [at_, Phase.recovering]) hc
  · change Recoverable sb spec (LogMachine.writeLogAt sb s tail).disk []
    rw [writeLogAt_disk]
    exact disk.1.slot slot (by omega) _
  · intro i (hi : i < s.lh.length) ilt
    change (LogMachine.writeLogAt sb s tail).disk (sb.logstart + i + 1) = view (LogMachine.writeLogAt sb s tail) s.lh[i]
    rw [view_writeLogAt, writeLogAt_disk, if_neg (away i hi), entry]
    by_cases e : i = tail
    · subst e; rw [update_self]
    · rw [update_of_ne (by omega)]
      exact disk.2 i hi (by omega)

lemma writeHead (at_ : s.phase = .writeHead) :
    Inv sb (redo (txn s) spec) { writeHead sb s with phase := .install 0 } := by
  have disk := h.disk
  simp only [at_, DiskAt] at disk
  refine ⟨h.count, ?_, h.once, h.home, h.room, by simp [gathering], ?_, ?_, ?_, ?_⟩
  · intro x hx
    change view (LogMachine.writeHead sb s) x = (LogMachine.writeHead sb s).disk x
    rw [view_writeHead, writeHead_disk, update_apply]
    split_ifs
    · rfl
    · exact h.coherent x hx
  · exact fun _ => h.quiet (by simp [at_])
  · exact fun hc => h.not_idle_committing (by simp [at_]) (by simp [at_, Phase.recovering]) hc
  · change Recoverable sb _ (LogMachine.writeHead sb s).disk s.lh
    rw [writeHead_disk]
    exact disk.1.commit _ (view s) h.once h.home h.room (fun i hi => disk.2 i hi hi)
  · exact fun _ _ lt => absurd lt (Nat.not_lt_zero _)

lemma installAt {tail : Nat} (at_ : s.phase = if r then .recover tail else .install tail) (lt : tail < s.lh.length) :
    Inv sb spec { installAt sb s r tail with
      phase := if r then .recover (tail + 1) else .install (tail + 1) } := by
  have slot := inLog_slot h.room.2 lt
  have entry : s.lh.getD tail 0 = s.lh[tail] := by simp [lt]
  have out := (h.home _ (getElem_mem lt)).1
  have disk : Recoverable sb spec s.disk s.lh ∧ Installed sb s.disk s.lh tail := by
    have hd := h.disk
    cases r <;> simpa only [at_, if_true, if_false, Bool.false_eq_true, DiskAt] using hd
  have out' : ∀ x, sb.inLog x → x ≠ s.lh[tail] := fun x hx e => out (e ▸ hx)
  have moved : (LogMachine.installAt sb s r tail).disk =
    update s.disk s.lh[tail] (s.disk (sb.logstart + tail + 1)) := by
    rw [installAt_disk, entry, h.coherent _ slot]
  refine ⟨?_, ?_, ?_, ?_, ?_, ?_, ?_, ?_, ?_⟩
  · cases r <;> exact h.count
  · intro x hx
    change view (LogMachine.installAt sb s r tail) x = (LogMachine.installAt sb s r tail).disk x
    rw [view_installAt, moved, entry, if_neg (out' x hx), update_of_ne (out' x hx)]
    exact h.coherent x hx
  · simpa using h.once
  · simpa using h.home
  · simpa using h.room
  · cases r <;> simp [gathering]
  · cases r <;> exact fun _ => h.quiet (by simp [at_])
  · cases r
    · exact fun hc => h.not_idle_committing (by simp [at_]) (by simp [at_, Phase.recovering]) hc
    · simp [Phase.recovering]
  · have done : Recoverable sb spec (LogMachine.installAt sb s r tail).disk s.lh ∧
      Installed sb (LogMachine.installAt sb s r tail).disk s.lh (tail + 1) := by
      rw [moved]
      exact ⟨disk.1.install lt, disk.2.succ h.once (fun b hb => (h.home b hb).1) h.room.2 lt⟩
    cases r <;> simpa only [if_true, if_false, Bool.false_eq_true, DiskAt, installAt_lh] using done

lemma clearHead {ph : Phase} (at_ : s.phase = .clear ∧ ph = .done ∨ s.phase = .recoverClear ∧ ph = .idle) :
    Inv sb spec { LogMachine.writeHead sb s with phase := ph } := by
  have disk : s.lh = [] ∧ ∃ lh, Recoverable sb spec s.disk lh ∧ Installed sb s.disk lh lh.length := by
    have hd := h.disk
    rcases at_ with ⟨at_, -⟩ | ⟨at_, -⟩ <;> simpa only [at_, DiskAt] using hd
  obtain ⟨empty, lh, rec, all⟩ := disk
  have head : Recoverable sb spec (LogMachine.writeHead sb s).disk [] := by
    rw [writeHead_disk, empty]
    exact rec.clear all _
  have run : s.phase ≠ .idle := by rcases at_ with ⟨e, -⟩ | ⟨e, -⟩ <;> simp [e]
  refine ⟨h.count, ?_, h.once, h.home, h.room, ?_, fun _ => h.quiet run, ?_, ?_⟩
  · intro x hx
    change view (LogMachine.writeHead sb s) x = (LogMachine.writeHead sb s).disk x
    rw [view_writeHead, writeHead_disk, update_apply]
    split_ifs
    · rfl
    · exact h.coherent x hx
  · intro _ x hx
    change x ∈ s.lh at hx
    simp [empty] at hx
  · rcases at_ with ⟨e, rfl⟩ | ⟨e, rfl⟩
    · exact fun hc => h.not_idle_committing run (by simp [e, Phase.recovering]) hc
    · exact fun _ _ => rfl
  · rcases at_ with ⟨-, rfl⟩ | ⟨-, rfl⟩
    · exact ⟨empty, head⟩
    · exact head

lemma readHead (at_ : s.phase = .readHead) : Inv sb spec { readHead sb s with phase := .recover 0 } := by
  have disk := h.disk
  simp only [at_, DiskAt] at disk
  obtain ⟨-, lh, rec⟩ := disk
  have read : (LogMachine.readHead sb s).lh = lh := by
    change headBlocks (view (LogMachine.bread s sb.logstart) sb.logstart) = lh
    rw [view_bread, h.coherent _ (inLog_head sb), rec.head]
  have small : ∀ b ∈ lh, b < 2 ^ 32 := by
    rw [← rec.head]
    exact headBlocks_small _
  have kept := h.bread sb.logstart
  refine ⟨h.count, kept.coherent, ?_, ?_, ?_, by simp [gathering], fun _ => h.quiet (by simp [at_]),
    by simp [Phase.recovering], ?_, fun _ _ lt => absurd lt (Nat.not_lt_zero _)⟩
  · simpa only [read] using rec.once
  · simpa only [read] using fun b hb => ⟨rec.home b hb, small b hb⟩
  · simpa only [read] using rec.room
  · change Recoverable sb spec s.disk (LogMachine.readHead sb s).lh
    rwa [read]

lemma forget {r : Bool} {tail : Nat}
    (at_ : s.phase = if r then .recover tail else .install tail) (all : ¬ tail < s.lh.length) :
    Inv sb spec { s with lh := [], phase := if r then .recoverClear else .clear } := by
  have disk : Recoverable sb spec s.disk s.lh ∧ Installed sb s.disk s.lh tail := by
    have hd := h.disk
    cases r <;> simpa only [at_, if_true, if_false, Bool.false_eq_true, DiskAt] using hd
  have whole : Installed sb s.disk s.lh s.lh.length := fun i hi _ => disk.2 i hi (by omega)
  refine ⟨h.count, h.coherent, nodup_nil, by simp, ⟨Nat.zero_le _, sb.nlog_pos⟩, ?_, ?_, ?_, ?_⟩
  · cases r <;> simp [gathering]
  · cases r <;> exact fun _ => h.quiet (by simp [at_])
  · cases r
    · exact fun hc => h.not_idle_committing (by simp [at_]) (by simp [at_, Phase.recovering]) hc
    · simp [Phase.recovering]
  · cases r <;> exact ⟨rfl, s.lh, disk.1, whole⟩

lemma commitStep (hs : commitStep sb s = .next t) : Inv sb (redoAll (committed s .commit) spec) t := by
  unfold LogMachine.commitStep at hs
  split at hs
  · rename_i tail at_
    split_ifs at hs with lt
    · cases hs
      simpa [committed, at_] using h.writeLogAt at_ lt
    · cases hs
      have disk := h.disk
      simp only [at_, DiskAt] at disk
      have whole : Copied sb s s.lh.length := fun i hi _ => disk.2 i hi (by omega)
      have moved : Inv sb spec { s with phase := .writeHead } :=
        ⟨h.count, h.coherent, h.once, h.home, h.room,
          fun _ => h.pinned (by simp [at_, gathering]), fun _ => h.quiet (by simp [at_]),
          fun hc => h.not_idle_committing (by simp [at_]) (by simp [at_, Phase.recovering]) hc,
          disk.1, whole⟩
      simpa [committed, at_] using moved
  · rename_i at_
    cases hs
    simpa [committed, at_, redoAll] using h.writeHead at_
  · rename_i tail at_
    split_ifs at hs with lt
    · cases hs
      simpa [committed, at_] using h.installAt (r := false) at_ lt
    · cases hs
      simpa [committed, at_] using h.forget (r := false) at_ lt
  · rename_i at_
    cases hs
    simpa [committed, at_] using h.clearHead (.inl ⟨at_, rfl⟩)
  · rename_i at_
    cases hs
    have disk := h.disk
    simp only [at_, DiskAt] at disk
    have moved : Inv sb spec { s with committing := false, phase := .idle } :=
      ⟨h.count, h.coherent, h.once, h.home, h.room, by simp [disk.1],
        fun _ => h.quiet (by simp [at_]), fun _ _ => rfl, disk.2⟩
    simpa [committed, at_] using moved
  · cases hs

lemma recoverStep (hs : recoverStep sb s = .next t) : Inv sb spec t := by
  unfold LogMachine.recoverStep at hs
  split at hs
  · rename_i at_
    cases hs
    exact h.readHead at_
  · rename_i tail at_
    split_ifs at hs with lt
    · cases hs
      exact h.installAt at_ lt
    · cases hs
      exact h.forget (r := true) at_ lt
  · rename_i at_
    cases hs
    exact h.clearHead (.inr ⟨at_, rfl⟩)
  · cases hs

end

lemma step [DecidableEq P] (h : Inv sb spec s) (hs : Step sb s a t) : Inv sb (redoAll (committed s a) spec) t := by
  cases a <;> simp only [Step, LogMachine.step] at hs
  case beginOp p =>
    split_ifs at hs with guard
    exact h.beginOp guard.1 guard.2 hs
  case modify p b data =>
    split_ifs at hs with guard
    cases hs
    exact h.modify guard.1 guard.2 data
  case logWrite p b =>
    split_ifs at hs with guard
    exact h.logWrite guard.1 guard.2 b.isLt hs
  case endOp p =>
    split_ifs at hs with guard
    exact h.endOp guard hs
  case commit => exact h.commitStep hs
  case recover => exact h.recoverStep hs
  case load b =>
    cases hs
    exact h.bread b
  case evict b =>
    split_ifs at hs with free
    cases hs
    exact h.evict b free
  case crash =>
    cases hs
    exact h.crash

lemma installTrans {k tail : Nat} (h : Inv sb spec { s with phase := .recover tail }) (rest : tail + k = s.lh.length) :
    Inv sb spec { installTrans sb true k tail s with phase := .recover (tail + k) } := by
  induction k generalizing s tail with
  | zero => exact h
  | succ k ih =>
    have next := h.installAt (r := true) rfl (by change tail < s.lh.length; omega)
    have rest' : tail + 1 + k = (LogMachine.installAt sb s true tail).lh.length := by
      rw [installAt_lh]
      omega
    have all := ih (s := LogMachine.installAt sb s true tail) next rest'
    rwa [add_right_comm] at all

lemma recoverFromLog (h : Inv sb spec s) (at_ : s.phase = .readHead) : Inv sb spec (recoverFromLog sb s) := by
  have loop := Inv.installTrans (h.readHead at_) (zero_add _)
  rw [zero_add] at loop
  have same := installTrans_lh sb (LogMachine.readHead sb s) true (LogMachine.readHead sb s).lh.length 0
  simp only [LogMachine.recoverFromLog]
  generalize LogMachine.readHead sb s = read at loop same ⊢
  change Inv sb spec { LogMachine.installTrans sb true read.lh.length 0 read with
    phase := .recover read.lh.length } at loop
  generalize LogMachine.installTrans sb true read.lh.length 0 read = u at loop same ⊢
  have past := loop.forget (r := true) rfl (by
    change ¬ read.lh.length < u.lh.length
    rw [same]
    exact lt_irrefl _)
  exact past.clearHead (.inr ⟨rfl, rfl⟩)

end Inv

end Xv6.LogInvariant
