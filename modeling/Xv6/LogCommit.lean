import Xv6.LogCrash

/-! A commit contains only whole operations. A `Ledger` notes, beside a run of
the kernel, which blocks the operations that have ended since the last commit
have logged, and what the cache showed when the last of them ended. -/

namespace Xv6.LogCommit
open ByteFields Params LogMachine LogHeader LogDisk LogInvariant LogOps LogCrash Function

variable {P : Type}

/-- The blocks logged by the operations that have ended since the last commit;
the cache and the disk at the latest `endOp`. -/
structure Ledger where
  ended : Finset Nat
  shown : Nat → Block
  disk : Nat → Block

def Ledger.start (s : State P) : Ledger := ⟨∅, view s, s.disk⟩

def Ledger.record (s : State P) (g : Ledger) : Act P → Ledger
  | .endOp p => ⟨g.ended ∪ (s.op p).getD ∅, view s, s.disk⟩
  | .commit => if s.phase = .done then { g with ended := ∅ } else g
  | _ => g

def Up : Act P → Prop
  | .crash | .recover => False
  | _ => True

def Noted [DecidableEq P] (sb : Super) : State P × Ledger → Act P → State P × Ledger → Prop :=
  Runs.Recorded (fun s a t => Up a ∧ Step sb s a t) Ledger.record

def Stage (sb : Super) (s : State P) (g : Ledger) : Phase → Prop
  | .writeLog _ | .writeHead =>
    s.lh.toFinset = g.ended ∧ (∀ b ∈ s.lh, view s b = g.shown b) ∧
    ∀ b, ¬ sb.inLog b → s.disk b = g.disk b
  | .install tail =>
    s.lh.toFinset = g.ended ∧
    (∀ i, ∀ h : i < s.lh.length, s.disk (sb.logstart + i + 1) = g.shown s.lh[i]) ∧
    ∀ b, ¬ sb.inLog b → s.disk b = if b ∈ s.lh.take tail then g.shown b else g.disk b
  | .clear | .done =>
    ∀ b, ¬ sb.inLog b → s.disk b = if b ∈ g.ended then g.shown b else g.disk b
  | _ => True

structure Whole (sb : Super) (s : State P) (g : Ledger) : Prop where
  up : s.phase.recovering = false
  busy : s.committing = true → s.phase ≠ .idle
  fresh : s.phase = .idle → (∀ p, s.op p = none) → s.lh = []
  logged : s.phase = .idle →
    ∀ b, b ∈ s.lh ↔ b ∈ g.ended ∨ ∃ p bs, s.op p = some bs ∧ b ∈ bs
  stage : Stage sb s g s.phase

lemma Stage.congr (h : Stage sb s g ph) (lh : t.lh = s.lh) (disk : t.disk = s.disk)
    (views : gathering ph → ∀ b ∈ s.lh, view t b = view s b) : Stage sb t g ph := by
  cases ph <;> simp only [Stage, lh, disk] at h ⊢
  case writeLog => exact ⟨h.1, fun b hb => (views trivial b hb).trans (h.2.1 b hb), h.2.2⟩
  case writeHead => exact ⟨h.1, fun b hb => (views trivial b hb).trans (h.2.1 b hb), h.2.2⟩
  all_goals exact h

namespace Whole
variable {sb : Super} {spec : Nat → Block} {s t : State P} {g : Ledger}

lemma start (idle : s.phase = .idle) (up : s.committing = false) (empty : s.lh = []) (closed : ∀ p, s.op p = none) :
    Whole sb s (.start s) where
  up := by simp [idle, Phase.recovering]
  busy := by simp [up]
  fresh _ _ := empty
  logged _ b := by simp [empty, closed, Ledger.start]
  stage := by simp [idle, Stage]

/-- The entries of `log.lh`, after the operation of `p` has moved from the open
to the ended ones. -/
lemma logged_close [DecidableEq P] (h : Whole sb s g) (idle : s.phase = .idle) (p b) :
    b ∈ s.lh ↔ b ∈ g.ended ∪ (s.op p).getD ∅ ∨ ∃ q bs, update s.op p none q = some bs ∧ b ∈ bs := by
  rw [h.logged idle b, Finset.mem_union]
  constructor
  · rintro (ended | ⟨q, bs, hq, hb⟩)
    · exact .inl (.inl ended)
    · by_cases e : q = p
      · subst e
        exact .inl (.inr (by simpa [hq] using hb))
      · exact .inr ⟨q, bs, by simpa [update_of_ne e] using hq, hb⟩
  · rintro ((ended | mine) | ⟨q, bs, hq, hb⟩)
    · exact .inl ended
    · cases e : s.op p with
      | none => simp [e] at mine
      | some bs => exact .inr ⟨p, bs, e, by simpa [e] using mine⟩
    · by_cases e : q = p
      · subst e
        simp at hq
      · exact .inr ⟨q, bs, by simpa [update_of_ne e] using hq, hb⟩

variable [Fintype P]

lemma evict (inv : Inv sb spec s) (h : Whole sb s g) (free : s.pins b = 0) :
    Whole sb { s with cache := update s.cache b none } g where
  __ := h
  stage := by
    refine h.stage.congr rfl rfl fun gathers x hx => ?_
    have away : x ≠ b := by
      rintro rfl
      exact absurd (inv.pinned gathers x hx).1 (by omega)
    simp [view, update_of_ne away]

lemma commit (inv : Inv sb spec s) (h : Whole sb s g) (hs : commitStep sb s = .next t) :
    Whole sb t (g.record s .commit) := by
  have disk := inv.disk
  have stage := h.stage
  have slots : ∀ {tail b : Nat}, tail < s.lh.length → ¬ sb.inLog b → b ≠ sb.logstart + tail + 1 :=
    fun lt home e => home (e ▸ inLog_slot inv.room.2 lt)
  have head : ∀ {b : Nat}, ¬ sb.inLog b → b ≠ sb.logstart := fun home e => home (e ▸ inLog_head sb)
  unfold commitStep at hs
  split at hs <;> rename_i at_
  case h_1 tail =>
    simp only [at_, Stage] at stage
    split_ifs at hs with lt <;> cases hs
    · refine ⟨rfl, by simp, by simp, by simp, ?_⟩
      simp only [Ledger.record, at_, reduceCtorEq, if_false]
      refine ⟨stage.1, fun b hb => ?_, fun b home => ?_⟩
      · change view (writeLogAt sb s tail) b = _
        rw [view_writeLogAt, if_neg (slots lt (inv.home b hb).1)]
        exact stage.2.1 b hb
      · change (writeLogAt sb s tail).disk b = _
        rw [writeLogAt_disk, update_of_ne (slots lt home)]
        exact stage.2.2 b home
    · refine ⟨rfl, by simp, by simp, by simp, ?_⟩
      simp only [Ledger.record, at_, reduceCtorEq, if_false]
      exact stage
  case h_2 =>
    simp only [at_, Stage] at stage
    simp only [at_, DiskAt] at disk
    cases hs
    refine ⟨rfl, by simp, by simp, by simp, ?_⟩
    simp only [Ledger.record, at_, reduceCtorEq, if_false]
    refine ⟨stage.1, fun i (hi : i < s.lh.length) => ?_, fun b home => ?_⟩
    · change (writeHead sb s).disk (sb.logstart + i + 1) = g.shown s.lh[i]
      rw [writeHead_disk, update_of_ne (by omega), disk.2 i hi hi]
      exact stage.2.1 _ (List.getElem_mem hi)
    · change (writeHead sb s).disk b = _
      rw [writeHead_disk, update_of_ne (head home)]
      simpa using stage.2.2 b home
  case h_3 tail =>
    simp only [at_, Stage] at stage
    split_ifs at hs with lt <;> cases hs
    · refine ⟨rfl, by simp, by simp, by simp, ?_⟩
      simp only [Ledger.record, at_, reduceCtorEq, if_false]
      have entry : s.lh.getD tail 0 = s.lh[tail] := by simp [lt]
      have target := (inv.home _ (List.getElem_mem lt)).1
      have source : view s (sb.logstart + tail + 1) = g.shown s.lh[tail] :=
        (inv.coherent _ (inLog_slot inv.room.2 lt)).trans (stage.2.1 tail lt)
      refine ⟨by simpa using stage.1, fun i hi => ?_, fun b home => ?_⟩
      · replace hi : i < s.lh.length := by simpa using hi
        have other : sb.logstart + i + 1 ≠ s.lh[tail] := fun e => target (e ▸ inLog_slot inv.room.2 hi)
        change (installAt sb s false tail).disk _ = _
        simp only [installAt_disk, installAt_lh, entry, update_of_ne other]
        exact stage.2.1 i hi
      · change (installAt sb s false tail).disk b = _
        simp only [installAt_disk, installAt_lh, entry, source]
        rw [List.take_succ_eq_append_getElem lt, update_apply]
        simp only [List.mem_append, List.mem_singleton]
        by_cases e : b = s.lh[tail]
        · rw [if_pos e, if_pos (.inr e), e]
        · rw [if_neg e, stage.2.2 b home]
          simp [e]
    · refine ⟨rfl, by simp, by simp, by simp, ?_⟩
      simp only [Ledger.record, at_, reduceCtorEq, if_false]
      intro b home
      have at_end := stage.2.2 b home
      rw [List.take_of_length_le (by omega)] at at_end
      simpa [← stage.1] using at_end
  case h_4 =>
    simp only [at_, Stage] at stage
    cases hs
    refine ⟨rfl, by simp, by simp, by simp, ?_⟩
    simp only [Ledger.record, at_, reduceCtorEq, if_false]
    intro b home
    change (writeHead sb s).disk b = _
    rw [writeHead_disk, update_of_ne (head home)]
    exact stage b home
  case h_5 =>
    simp only [at_, DiskAt] at disk
    cases hs
    have closed := inv.quiet (by simp [at_])
    exact ⟨rfl, by simp, fun _ _ => disk.1, fun _ b => by simp [Ledger.record, at_, disk.1, closed], trivial⟩
  case h_6 => cases hs

variable [DecidableEq P]

section
variable (inv : Inv sb spec s) (h : Whole sb s g)
include inv h

lemma beginOp (closed : s.op p = none) (hs : LogMachine.beginOp s p = .next t) : Whole sb t g := by
  unfold LogMachine.beginOp at hs
  split_ifs at hs with busy
  cases hs
  have idle := inv.busy (by simpa using busy) h.up
  have mine : ¬ ∀ q, update s.op p (some ∅) q = none := fun closed => by simpa using closed p
  refine ⟨h.up, h.busy, fun _ closed => absurd closed mine, fun _ b => ?_, by simp [idle, Stage]⟩
  rw [h.logged idle b]
  refine or_congr_right ⟨?_, ?_⟩
  · rintro ⟨q, bs, hq, hb⟩
    have other : q ≠ p := by
      rintro rfl
      simp [closed] at hq
    exact ⟨q, bs, by simpa [update_of_ne other] using hq, hb⟩
  · rintro ⟨q, bs, hq, hb⟩
    by_cases e : q = p
    · subst e
      simp only [update_self, Option.some.injEq] at hq
      simp [← hq] at hb
    · exact ⟨q, bs, by simpa [update_of_ne e] using hq, hb⟩

lemma logWrite (open_ : (s.op p).isSome) (hs : LogMachine.logWrite sb s p b = .next t) : Whole sb t g := by
  have idle := inv.idle_of_open open_
  obtain ⟨bs, mine⟩ := Option.isSome_iff_exists.mp open_
  unfold LogMachine.logWrite at hs
  split_ifs at hs
  cases hs
  have phase : (logBlock (bread s b) b).phase = .idle := by
    unfold logBlock
    split_ifs <;> exact idle
  have entries : ∀ x, x ∈ (logBlock (bread s b) b).lh ↔ x = b ∨ x ∈ s.lh := by
    intro x
    unfold logBlock
    split_ifs with hm
    · change b ∈ s.lh at hm
      change x ∈ s.lh ↔ _
      refine ⟨Or.inr, ?_⟩
      rintro (rfl | hx)
      · exact hm
      · exact hx
    · change x ∈ s.lh ++ [b] ↔ _
      simp [or_comm]
  have op : (logBlock (bread s b) b).op = s.op := by
    unfold logBlock
    split_ifs <;> rfl
  have rest : s.committing = false := by
    have busy := h.busy
    simpa [idle] using busy
  have committing : (logBlock (bread s b) b).committing = s.committing := by
    unfold logBlock
    split_ifs <;> rfl
  refine ⟨by simp [phase, Phase.recovering], by simp [committing, rest], fun _ closed => ?_,
    fun _ x => ?_, by simp [phase, Stage]⟩
  · have mine' := closed p
    simp [op, mine] at mine'
  simp only [entries, op, mine, Option.map_some, h.logged idle x]
  constructor
  · rintro (rfl | ended | ⟨q, cs, hq, hx⟩)
    · exact .inr ⟨p, _, update_self .., Finset.mem_insert_self ..⟩
    · exact .inl ended
    · by_cases e : q = p
      · subst e
        obtain rfl : bs = cs := by simpa [mine] using hq
        exact .inr ⟨q, _, update_self .., Finset.mem_insert_of_mem hx⟩
      · exact .inr ⟨q, cs, by simpa [update_of_ne e] using hq, hx⟩
  · rintro (ended | ⟨q, cs, hq, hx⟩)
    · exact .inr (.inl ended)
    · by_cases e : q = p
      · subst e
        obtain rfl : insert b bs = cs := by simpa using hq
        rcases Finset.mem_insert.mp hx with rfl | hx
        · exact .inl rfl
        · exact .inr (.inr ⟨q, bs, mine, hx⟩)
      · exact .inr (.inr ⟨q, cs, by simpa [update_of_ne e] using hq, hx⟩)

lemma endOp (open_ : (s.op p).isSome) (hs : LogMachine.endOp s p = .next t) (next : Inv sb spec t) :
    Whole sb t ⟨g.ended ∪ (s.op p).getD ∅, view s, s.disk⟩ := by
  have idle := inv.idle_of_open open_
  have entries := h.logged_close idle p
  simp only [LogMachine.endOp] at hs
  split_ifs at hs with busy last some_logged
  · cases hs
    -- the commit starts: no operation is left open
    have closed : ∀ q, update s.op p none q = none := next.quiet (by simp)
    have ended : s.lh.toFinset = g.ended ∪ (s.op p).getD ∅ := by
      ext b
      rw [List.mem_toFinset, entries b]
      simp [closed, exists_false]
    exact ⟨rfl, by simp, by simp, by simp, ended, fun _ _ => rfl, fun _ _ => rfl⟩
  · cases hs
    have closed : ∀ q, update s.op p none q = none := next.quiet (by simp)
    have ended : g.ended ∪ (s.op p).getD ∅ = ∅ := by
      have empty : s.lh = [] := List.length_eq_zero_iff.mp (by simpa using some_logged)
      ext b
      have entry := entries b
      simp only [closed, empty, reduceCtorEq, false_and, exists_false, or_false] at entry
      exact entry.symm
    refine ⟨rfl, by simp, by simp, by simp, fun b _ => ?_⟩
    simp [ended]
  · cases hs
    refine ⟨h.up, h.busy, fun _ closed => absurd ?_ last, fun _ => entries, by simp [idle, Stage]⟩
    have none_open := next.count
    rw [openOps_empty.mpr closed] at none_open
    exact none_open

lemma step (up : Up a) (hs : Step sb s a t) : Whole sb t (g.record s a) := by
  have next := inv.step hs
  cases a <;> simp only [Step, LogMachine.step] at hs
  case beginOp p =>
    split_ifs at hs with guard
    exact h.beginOp inv guard.1 hs
  case modify p b data =>
    split_ifs at hs with guard
    cases hs
    have idle := inv.idle_of_open guard.1
    exact ⟨h.up, h.busy, h.fresh, h.logged, by simp [LogMachine.modify, idle, Stage]⟩
  case logWrite p b =>
    split_ifs at hs with guard
    exact h.logWrite inv guard.1 hs
  case endOp p =>
    split_ifs at hs with guard
    exact h.endOp inv guard hs next
  case commit => exact h.commit inv hs
  case load b =>
    cases hs
    exact ⟨h.up, h.busy, h.fresh, h.logged, h.stage.congr rfl rfl fun _ x _ => view_bread s b x⟩
  case evict b =>
    split_ifs at hs with free
    cases hs
    exact h.evict inv free
  all_goals exact up.elim

end

end Whole

lemma installTrans_quiet (sb) (recovering : Bool) (k tail : Nat) (s : State P) :
    (installTrans sb recovering k tail s).op = s.op ∧
    (installTrans sb recovering k tail s).committing = s.committing := by
  induction k generalizing tail s with
  | zero => exact ⟨rfl, rfl⟩
  | succ k ih =>
    rw [installTrans, (ih _ _).1, (ih _ _).2]
    unfold installAt
    split_ifs <;> exact ⟨rfl, rfl⟩

lemma recoverFromLog_quiet (sb) (s : State P) :
    (recoverFromLog sb s).op = s.op ∧ (recoverFromLog sb s).committing = s.committing := by
  obtain ⟨op, committing⟩ := installTrans_quiet sb true (readHead sb s).lh.length 0 (readHead sb s)
  simp only [recoverFromLog, writeHead, bwrite, bread]
  exact ⟨op, committing⟩

section
variable {sb : Super} {spec disk₀ : Nat → Block} {s : State P} {g : Ledger} {acts : List (Act P)}

def booted (sb : Super) (disk : Nat → Block) : State P := recoverFromLog sb (crash disk)

lemma whole_booted (sb) (disk : Nat → Block) :
    Whole sb (booted sb disk : State P) (.start (booted sb disk : State P)) := by
  obtain ⟨op, committing⟩ := recoverFromLog_quiet sb (crash disk : State P)
  exact .start rfl committing rfl (congrFun op)

lemma panic_cases [DecidableEq P] (hs : step sb s a = .panic msg) :
    (∃ p, (s.op p).isSome ∧ s.committing = true ∧ msg = "log.committing") ∨
    (∃ p, (s.op p).isSome ∧ s.outstanding < 1 ∧ msg = "log_write outside of trans") ∨
    msg = "too big a transaction" := by
  cases a <;> simp only [step] at hs
  case endOp p =>
    split_ifs at hs with open_
    simp only [endOp] at hs
    split_ifs at hs with busy
    cases hs
    exact .inl ⟨p, open_, busy, rfl⟩
  case logWrite p b =>
    split_ifs at hs with guard
    unfold logWrite at hs
    split_ifs at hs with big none_open <;> cases hs
    · exact .inr (.inr rfl)
    · exact .inr (.inl ⟨p, guard.1, none_open, rfl⟩)
  case beginOp p =>
    unfold beginOp at hs
    split_ifs at hs
  case commit =>
    unfold commitStep at hs
    split at hs <;> (try split_ifs at hs) <;> cases hs
  case recover =>
    unfold recoverStep at hs
    split at hs <;> (try split_ifs at hs) <;> cases hs
  case load b => cases hs
  case crash => cases hs
  all_goals split_ifs at hs

variable [Fintype P] [DecidableEq P]

lemma run_whole (inv : Inv sb spec (booted sb disk₀ : State P))
    (run : Runs.Run (Noted sb) (booted sb disk₀, .start (booted sb disk₀ : State P)) acts (s, g)) :
    (∃ spec, Inv sb spec s) ∧ Whole sb s g := by
  refine run.invariant (fun x => (∃ spec, Inv sb spec x.1) ∧ Whole sb x.1 x.2) ?_ ⟨⟨spec, inv⟩, whole_booted sb disk₀⟩
  rintro ⟨s, g⟩ a ⟨t, g'⟩ ⟨⟨spec, inv⟩, whole⟩ ⟨⟨up, hs⟩, rfl⟩
  exact ⟨⟨_, inv.step hs⟩, whole.step inv up hs⟩

lemma panic_too_big (inv : Inv sb spec s) (whole : Whole sb s g)
    (hs : step sb s a = .panic msg) : msg = "too big a transaction" := by
  rcases panic_cases hs with ⟨p, open_, busy, _⟩ | ⟨p, open_, none_open, _⟩ | big
  · exact absurd (inv.idle_of_open open_) (whole.busy busy)
  · have pos := Finset.card_pos.mpr ⟨p, mem_openOps.mpr open_⟩
    rw [inv.count] at none_open
    omega
  · exact big

/-- A commit contains only whole operations, for any interleaving of
operations, commit steps and cache traffic after any boot. -/
theorem commit_whole (sb : Super) (disk₀ : Nat → Block)
    (empty : field (disk₀ sb.logstart) 0 4 = 0) (s₀ : State P) (done : List Txn)
    (before : Reach sb disk₀ s₀ done) (acts : List (Act P)) (s : State P) (g : Ledger)
    (run : Runs.Run (Noted sb) (booted sb s₀.disk, .start (booted sb s₀.disk : State P)) acts (s, g)) :
    (s.committing = true → s.outstanding = 0 ∧ (∀ p, s.op p = none) ∧ ∀ p b t, ¬ Step sb s (.logWrite p b) t) ∧
    (∀ tail, s.phase = .install tail → headBlocks (s.disk sb.logstart) = s.lh ∧ s.lh.toFinset = g.ended ∧
      ∀ i, ∀ h : i < s.lh.length, s.disk (sb.logstart + i + 1) = g.shown s.lh[i]) ∧
    (s.phase = .done → ∀ b, ¬ sb.inLog b → s.disk b = if b ∈ g.ended then g.shown b else g.disk b) ∧
    s.lh.Nodup ∧
    (s.outstanding = 0 → s.committing = false → s.lh = [] ∧ ∀ p, ∃ t, Step sb s (.beginOp p) t) ∧
    ∀ a, step sb s a ≠ .panic "log.committing" ∧ step sb s a ≠ .panic "log_write outside of trans" := by
  have start : headBlocks (disk₀ sb.logstart) = [] := by simp [headBlocks, headCount, empty]
  obtain ⟨⟨spec, inv⟩, whole⟩ := run_whole (((reach_inv start before).crash).recoverFromLog rfl) run
  have stage := whole.stage
  have disk := inv.disk
  refine ⟨fun busy => ?_, fun tail at_ => ?_, fun at_ => ?_, inv.once, fun none_open quiet => ?_, fun a => ?_⟩
  · have closed := inv.quiet (whole.busy busy)
    refine ⟨by simp [inv.count, openOps_empty.mpr closed], closed, fun p b t hs => ?_⟩
    simp [Step, step, closed p] at hs
  · simp only [at_, Stage, DiskAt] at stage disk
    exact ⟨disk.1.head, stage.1, stage.2.1⟩
  · simp only [at_, Stage] at stage
    exact stage
  · have idle := inv.busy quiet whole.up
    have closed : ∀ p, s.op p = none := by
      rw [inv.count] at none_open
      exact openOps_empty.mp (Finset.card_eq_zero.mp (by omega))
    have fresh := whole.fresh idle closed
    refine ⟨fresh, fun p => ?_⟩
    simp [Step, step, closed p, whole.up, beginOp, quiet, fresh, none_open, maxOpBlocks, logSize]
  · constructor <;> intro hs <;> simpa using panic_too_big inv whole hs

end

/-- Two operations overlap. The commit starts at the end of the second one and
brings home what both have logged. -/
theorem commit_whole_two_operations : ∃ (acts : List (Act (Fin 2))) (s : State (Fin 2)) (g : Ledger),
    Runs.Run (Noted (P := Fin 2) mkfsSuper) (booted mkfsSuper (fun _ => zeros bsize),
      .start (booted mkfsSuper (fun _ => zeros bsize) : State (Fin 2))) acts (s, g) ∧
    g.ended = {40, 41} ∧ s.disk 40 = (fun _ => 7) ∧ s.disk 41 = (fun _ => 8) ∧
    s.disk 42 = zeros bsize := by
  have reached : Reach mkfsSuper (fun _ => zeros bsize) (crash (fun _ => zeros bsize) : State (Fin 2)) [] := .boot
  have r0 : Runs.Run (Noted (P := Fin 2) mkfsSuper) (booted mkfsSuper (fun _ => zeros bsize),
    .start (booted mkfsSuper (fun _ => zeros bsize) : State (Fin 2))) [] _ := .nil _
  have r1 := r0.record (.beginOp 0) ⟨trivial, rfl⟩
  have r2 := r1.record (.beginOp 1) ⟨trivial, rfl⟩
  have r3 := r2.record (.modify 0 40 (fun _ => 7)) ⟨trivial, rfl⟩
  have r4 := r3.record (.logWrite 0 40) ⟨trivial, rfl⟩
  have r5 := r4.record (.endOp 0) ⟨trivial, rfl⟩
  have r6 := r5.record (.modify 1 41 (fun _ => 8)) ⟨trivial, rfl⟩
  have r7 := r6.record (.logWrite 1 41) ⟨trivial, rfl⟩
  have r8 := r7.record (.endOp 1) ⟨trivial, rfl⟩
  have r9 := r8.record .commit ⟨trivial, rfl⟩
  have r10 := r9.record .commit ⟨trivial, rfl⟩
  have r11 := r10.record .commit ⟨trivial, rfl⟩
  have r12 := r11.record .commit ⟨trivial, rfl⟩
  have r13 := r12.record .commit ⟨trivial, rfl⟩
  have r14 := r13.record .commit ⟨trivial, rfl⟩
  have r15 := r14.record .commit ⟨trivial, rfl⟩
  have r16 := r15.record .commit ⟨trivial, rfl⟩
  have home := (commit_whole mkfsSuper _ (by simp) _ _ reached _ _ _ r16).2.2.1 rfl
  refine ⟨_, _, _, r16, rfl, ?_, ?_, ?_⟩
  · rw [home 40 (by decide)]
    rfl
  · rw [home 41 (by decide)]
    rfl
  · rw [home 42 (by decide)]
    rfl

end Xv6.LogCommit
