import Mathlib.Algebra.Order.BigOperators.Group.Finset
import Mathlib.Tactic.Linarith
import Xv6.LogInvariant
import Xv6.Runs

/-! Log space reservation. `beginOp` reserves `maxOpBlocks` blocks against `logSize` for every
operation in progress: the transaction and what the open operations may still log never exceed
`logSize`. `logWrite` checks against the on-disk log, whose `logSize` blocks include the header,
and refuses at `logSize - 1`. -/

namespace Xv6.LogSpace
open Params LogMachine LogHeader LogDisk LogInvariant LogOps RedoLog Function Finset Option
open ByteFields (zeros)

variable {P : Type}

def Within (s : State P) : Act P → Prop
  | .logWrite p b => ((s.op p).getD ∅ ∪ {b.val}).card ≤ maxOpBlocks
  | _ => True

instance (s : State P) : (a : Act P) → Decidable (Within s a)
  | .logWrite _ _ => inferInstanceAs (Decidable (_ ≤ _))
  | .beginOp _ | .modify _ _ _ | .endOp _ | .commit | .recover | .load _ | .evict _ | .crash =>
    inferInstanceAs (Decidable True)

def left (op : P → Option (Finset Nat)) (p : P) : Nat :=
  match op p with
  | none => 0
  | some bs => maxOpBlocks - bs.card

structure Reserved [Fintype P] (s : State P) : Prop where
  inLog : ∀ p bs, s.op p = some bs → ∀ b ∈ bs, b ∈ s.lh
  space : s.lh.length + ∑ p, left s.op p ≤ logSize

lemma left_le (op : P → Option (Finset Nat)) (p) : left op p ≤ if (op p).isSome then maxOpBlocks else 0 := by
  unfold left
  split <;> simp_all

section
variable [Fintype P]

lemma sum_left_le (op : P → Option (Finset Nat)) : ∑ p, left op p ≤ (openOps op).card * maxOpBlocks := by
  calc
    _ ≤ ∑ p, if (op p).isSome then maxOpBlocks else 0 := sum_le_sum (fun p _ => left_le op p)
    _ = _ := by rw [← sum_filter]; simp [openOps]

variable [DecidableEq P]

lemma sum_left_update (op : P → Option (Finset Nat)) (p v) :
    ∑ q, left (update op p v) q + left op p = ∑ q, left op q + left (update op p v) p := by
  have others : ∑ q ∈ univ.erase p, left (update op p v) q = ∑ q ∈ univ.erase p, left op q := by
    apply sum_congr rfl
    intro q hq
    simp [left, ne_of_mem_erase hq]
  have new := add_sum_erase univ (left (update op p v)) (mem_univ p)
  have old := add_sum_erase univ (left op) (mem_univ p)
  omega

end

lemma commitStep_op (hs : commitStep sb s = .next t) : s.phase ≠ .idle ∧ t.op = s.op := by
  unfold commitStep at hs
  split at hs <;> rename_i at_ <;> (try split_ifs at hs) <;> cases hs <;> exact ⟨by simp [at_], rfl⟩

lemma recoverStep_op (hs : recoverStep sb s = .next t) : s.phase ≠ .idle ∧ t.op = s.op := by
  unfold recoverStep at hs
  split at hs <;> rename_i at_ <;> (try split_ifs at hs) <;> cases hs <;> exact ⟨by simp [at_], rfl⟩

namespace Reserved
variable [Fintype P] {sb : Super} {spec : Nat → Block} {s t : State P}

lemma quiet (inv : Inv sb spec t) (closed : ∀ p, t.op p = none) : Reserved t := by
  refine ⟨fun p bs hp => by simp [closed p] at hp, ?_⟩
  have zero : ∑ p, left t.op p = 0 := sum_eq_zero (fun p _ => by simp [left, closed p])
  rw [zero]
  exact inv.room.1

variable [DecidableEq P]

lemma beginOp (inv : Inv sb spec s) (h : Reserved s) (closed : s.op p = none)
    (hs : beginOp s p = .next t) : Reserved t := by
  unfold LogMachine.beginOp at hs
  split_ifs at hs with hc full
  cases hs
  refine ⟨?_, ?_⟩
  · intro q bs hq b hb
    by_cases e : q = p
    · subst e
      simp only [update_self, some.injEq] at hq
      simp [← hq] at hb
    · exact h.inLog q bs (by simpa [e] using hq) b hb
  · have moved := sum_left_update s.op p (some ∅)
    have before : left s.op p = 0 := by simp [left, closed]
    have after : left (update s.op p (some ∅)) p = maxOpBlocks := by simp [left]
    have bound := sum_left_le s.op
    have count := inv.count
    simp only [maxOpBlocks, logSize] at *
    omega

lemma endOp (h : Reserved s) (hs : endOp s p = .next t) : Reserved t := by
  have same : t.lh = s.lh ∧ t.op = update s.op p none := by
    simp only [LogMachine.endOp] at hs
    split_ifs at hs <;> cases hs <;> exact ⟨rfl, rfl⟩
  refine ⟨?_, ?_⟩
  · intro q bs hq b hb
    rw [same.2] at hq
    by_cases e : q = p
    · subst e; simp at hq
    · rw [same.1]
      exact h.inLog q bs (by simpa [e] using hq) b hb
  · have moved := sum_left_update s.op p none
    have after : left (update s.op p none) p = 0 := by simp [left]
    have space := h.space
    rw [same.1, same.2]
    omega

lemma logWrite (h : Reserved s) (mine : s.op p = some bs)
    (within : (insert b bs).card ≤ maxOpBlocks) (hs : logWrite sb s p b = .next t) :
    Reserved t := by
  unfold LogMachine.logWrite at hs
  split_ifs at hs
  cases hs
  have moved := sum_left_update s.op p (some (insert b bs))
  have before : left s.op p = maxOpBlocks - bs.card := by simp [left, mine]
  have after : left (update s.op p (some (insert b bs))) p = maxOpBlocks - (insert b bs).card := by simp [left]
  have space := h.space
  by_cases hm : b ∈ s.lh
  · -- absorbed: the transaction stays, the operation's own set may still grow
    have same : LogMachine.logBlock (bread s b) b = bread s b := if_pos hm
    simp only [same]
    have grows := card_le_card (subset_insert b bs)
    refine ⟨?_, ?_⟩
    · intro q cs hq x hx
      change x ∈ s.lh
      by_cases e : q = p
      · subst e
        simp only [update_self, bread, mine, map_some, some.injEq] at hq
        rw [← hq, mem_insert] at hx
        rcases hx with rfl | hx
        · exact hm
        · exact h.inLog q bs mine x hx
      · exact h.inLog q cs (by simpa [e, bread] using hq) x hx
    · simp only [bread, mine, map_some]
      omega
  · have fresh : b ∉ bs := fun hb => hm (h.inLog p bs mine b hb)
    rw [card_insert_of_notMem fresh] at within after
    have same : LogMachine.logBlock (bread s b) b = { bread s b with
      lh := s.lh ++ [b], pins := update s.pins b (s.pins b + 1) } := if_neg hm
    simp only [same]
    refine ⟨?_, ?_⟩
    · intro q cs hq x hx
      change x ∈ s.lh ++ [b]
      rw [List.mem_append, List.mem_singleton]
      by_cases e : q = p
      · subst e
        simp only [update_self, bread, mine, map_some, some.injEq] at hq
        rw [← hq, mem_insert] at hx
        exact hx.symm.imp_left (h.inLog q bs mine x)
      · exact .inl (h.inLog q cs (by simpa [e, bread] using hq) x hx)
    · simp only [bread, mine, map_some, List.length_append, List.length_singleton]
      omega

lemma step (inv : Inv sb spec s) (h : Reserved s) (within : Within s a) (hs : Step sb s a t) : Reserved t := by
  have next := inv.step hs
  cases a <;> simp only [Step, LogMachine.step] at hs
  case beginOp p =>
    split_ifs at hs with guard
    exact h.beginOp inv guard.1 hs
  case modify p b data =>
    split_ifs at hs
    cases hs
    exact ⟨h.inLog, h.space⟩
  case logWrite p b =>
    split_ifs at hs with guard
    obtain ⟨bs, mine⟩ := isSome_iff_exists.mp guard.1
    rw [Within, mine, getD_some, union_comm] at within
    exact h.logWrite mine within hs
  case endOp p =>
    split_ifs at hs
    exact h.endOp hs
  case commit =>
    obtain ⟨run, same⟩ := commitStep_op hs
    exact quiet next (fun p => by rw [same, inv.quiet run p])
  case recover =>
    obtain ⟨run, same⟩ := recoverStep_op hs
    exact quiet next (fun p => by rw [same, inv.quiet run p])
  case load b =>
    cases hs
    exact ⟨h.inLog, h.space⟩
  case evict b =>
    split_ifs at hs
    cases hs
    exact ⟨h.inLog, h.space⟩
  case crash =>
    cases hs
    exact quiet next (fun _ => rfl)

end Reserved

def sinceCommit (s : State P) (logged : Finset Nat) : Act P → Finset Nat
  | .logWrite _ b => insert b.val logged
  | .commit => if s.phase = .done then ∅ else logged
  | .crash => ∅
  | _ => logged

/-- The runs of operations that keep to their budget, each state with the
blocks logged since the last commit. -/
inductive Trace [DecidableEq P] (sb : Super) (disk₀ : Nat → Block) : State P → Finset Nat → Prop
  | boot : Trace sb disk₀ (crash disk₀) ∅
  | step {s t : State P} {a : Act P} {logged : Finset Nat} :
      Trace sb disk₀ s logged → Within s a → Step sb s a t →
      Trace sb disk₀ t (sinceCommit s logged a)

/-- While operations run, `log.lh` lists the blocks logged since the last commit. -/
structure Listed (s : State P) (logged : Finset Nat) : Prop where
  idle : s.phase = .idle → s.lh.toFinset = logged
  recovering : s.phase.recovering → logged = ∅

section
variable [Fintype P] [DecidableEq P] {sb : Super} {spec : Nat → Block} {s t : State P}
  {logged : Finset Nat}

lemma Listed.step (inv : Inv sb spec s) (h : Listed s logged)
    (hs : Step sb s a t) : Listed t (sinceCommit s logged a) := by
  have next := inv.step hs
  cases a <;> simp only [Step, LogMachine.step] at hs
  case beginOp p =>
    split_ifs at hs
    unfold LogMachine.beginOp at hs
    split_ifs at hs
    cases hs
    exact ⟨h.idle, h.recovering⟩
  case modify p b data =>
    split_ifs at hs
    cases hs
    exact ⟨h.idle, h.recovering⟩
  case logWrite p b =>
    split_ifs at hs with guard
    have idle := inv.idle_of_open guard.1
    unfold LogMachine.logWrite at hs
    split_ifs at hs
    cases hs
    unfold LogMachine.logBlock
    split_ifs with hm
    · change b.val ∈ s.lh at hm
      refine ⟨fun _ => ?_, fun rec => ?_⟩
      · change s.lh.toFinset = insert b.val logged
        rw [← h.idle idle, insert_eq_of_mem (by simpa using hm)]
      · change s.phase.recovering at rec
        simp [idle, Phase.recovering] at rec
    · refine ⟨fun _ => ?_, fun rec => ?_⟩
      · change (s.lh ++ [b.val]).toFinset = insert b.val logged
        rw [← h.idle idle]
        ext x
        simp
      · change s.phase.recovering at rec
        simp [idle, Phase.recovering] at rec
  case endOp p =>
    split_ifs at hs
    simp only [LogMachine.endOp] at hs
    split_ifs at hs <;> cases hs
    · exact ⟨by simp, by simp [Phase.recovering]⟩
    · exact ⟨by simp, by simp [Phase.recovering]⟩
    · exact ⟨h.idle, h.recovering⟩
  case commit =>
    unfold LogMachine.commitStep at hs
    split at hs <;> rename_i at_ <;> (try split_ifs at hs) <;> cases hs
    case h_5 =>
      have disk := inv.disk
      simp only [at_, DiskAt] at disk
      exact ⟨fun _ => by simp [sinceCommit, at_, disk.1], by simp [Phase.recovering]⟩
    all_goals exact ⟨by simp, by simp [Phase.recovering]⟩
  case recover =>
    have up : s.phase.recovering := by
      unfold LogMachine.recoverStep at hs
      split at hs <;> rename_i at_ <;> first | cases hs; done | simp [at_, Phase.recovering]
    have none := h.recovering up
    refine ⟨fun idle => ?_, fun _ => none⟩
    have disk := inv.disk
    unfold LogMachine.recoverStep at hs
    split at hs <;> rename_i at_ <;> (try split_ifs at hs) <;> cases hs <;> simp only [reduceCtorEq] at idle
    simp only [at_, DiskAt] at disk
    change s.lh.toFinset = logged
    simp [disk.1, none]
  case load b =>
    cases hs
    exact ⟨h.idle, h.recovering⟩
  case evict b =>
    split_ifs at hs
    cases hs
    exact ⟨h.idle, h.recovering⟩
  case crash =>
    cases hs
    exact ⟨by simp [crash], by simp [sinceCommit]⟩

lemma trace_inv (empty : headBlocks (disk₀ sb.logstart) = []) (h : Trace sb disk₀ s logged) :
    (∃ spec, Inv sb spec s) ∧ Reserved s ∧ Listed s logged := by
  induction h with
  | boot =>
    have inv : Inv sb disk₀ (crash disk₀ : State P) := Inv.boot empty
    exact ⟨⟨_, inv⟩, .quiet inv (fun _ => rfl), by simp [crash], fun _ => rfl⟩
  | step _ within hs ih =>
    obtain ⟨⟨spec, inv⟩, res, listed⟩ := ih
    exact ⟨⟨_, inv.step hs⟩, res.step inv within hs, listed.step inv hs⟩

/-- On the disk of `mkfs`, `logWrite` refuses exactly when `logSize - 1` distinct blocks have been
logged since the last commit, although `beginOp` never promises more than `logSize`. -/
theorem logWrite_fits_iff (disk₀ : Nat → Block)
    (empty : headBlocks (disk₀ mkfsSuper.logstart) = []) (s : State P) (logged : Finset Nat)
    (h : Trace mkfsSuper disk₀ s logged) (p : P) (b : Fin (2 ^ 32))
    (inOp : (s.op p).isSome) (home : ¬ mkfsSuper.inLog b) :
    (step mkfsSuper s (.logWrite p b) ≠ .panic "too big a transaction" ↔ logged.card < logSize - 1) ∧
    logged.card + ∑ q, left s.op q ≤ logSize := by
  obtain ⟨⟨spec, inv⟩, reserved, listed⟩ := trace_inv empty h
  have idle := inv.idle_of_open inOp
  have card : s.lh.length = logged.card := by rw [← listed.idle idle, List.toFinset_card_of_nodup inv.once]
  refine ⟨?_, card ▸ reserved.space⟩
  have some_open : ¬ s.outstanding < 1 := by
    have pos := Finset.card_pos.mpr ⟨p, mem_openOps.mpr inOp⟩
    rw [inv.count]
    omega
  simp only [LogMachine.step, inOp, home, LogMachine.logWrite, if_neg some_open, ← card]
  have nlog : mkfsSuper.nlog = logSize := rfl
  split_ifs with guard full
  · simp [logSize, maxOpBlocks, nlog] at full ⊢
    omega
  · simp [logSize, maxOpBlocks, nlog] at full ⊢
    omega
  · simp at guard

end

def attempt [DecidableEq P] (sb : Super) (s : State P) : List (Act P) → Outcome (State P)
  | [] => .next s
  | a :: as =>
    if Within s a then
      match step sb s a with
      | .next t => attempt sb t as
      | .asleep => .asleep
      | .panic msg => .panic msg
    else .asleep

lemma attempt_panic [DecidableEq P] {s : State P} (h : Trace sb disk₀ s logged) (stuck : attempt sb s as = .panic msg) :
    ∃ (t : State P) (logged' : Finset Nat) (a : Act P),
      Trace sb disk₀ t logged' ∧ Within t a ∧ step sb t a = .panic msg := by
  induction as generalizing s logged with
  | nil => simp [attempt] at stuck
  | cons a as ih =>
    unfold attempt at stuck
    split_ifs at stuck with within
    split at stuck
    · rename_i t hs
      exact ih (h.step within hs) stuck
    · cases stuck
    · rename_i msg' hs
      cases stuck
      exact ⟨s, logged, a, h, within, hs⟩

def threeFullOps : List (Act (Fin 3)) :=
  [.recover, .recover, .recover, .beginOp 0, .beginOp 1, .beginOp 2] ++
    (List.range logSize).map (fun k =>
      .logWrite (Fin.ofNat 3 (k / maxOpBlocks)) (Fin.ofNat (2 ^ 32) (40 + k)))

lemma attempt_next [DecidableEq P] {s t : State P} (h : Trace sb disk₀ s logged) (ran : attempt sb s as = .next t) :
    ∃ logged', Trace sb disk₀ t logged' := by
  induction as generalizing s logged with
  | nil =>
    cases ran
    exact ⟨logged, h⟩
  | cons a as ih =>
    unfold attempt at ran
    split_ifs at ran with within
    split at ran
    · rename_i t' hs
      exact ih (h.step within hs) ran
    · cases ran
    · cases ran

/-- The last block that fits: 28 have been logged, by three operations at once. -/
theorem logWrite_fits_last : ∃ (s : State (Fin 3)) (logged : Finset Nat),
    Trace mkfsSuper (fun _ => zeros bsize) s logged ∧ logged.card = 28 ∧
    step mkfsSuper s (.logWrite 2 68) ≠ .panic "too big a transaction" := by
  have run : (match attempt mkfsSuper (crash fun _ => zeros bsize) (threeFullOps.take 34) with
    | .next s => decide ((s.op 2).isSome ∧ s.lh.length = 28)
    | _ => false) = true := by
    decide +kernel
  split at run
  · rename_i s ran
    obtain ⟨inOp, full⟩ := of_decide_eq_true run
    obtain ⟨logged, trace⟩ := attempt_next .boot ran
    have empty : headBlocks (zeros bsize) = [] := by simp [headBlocks, headCount]
    obtain ⟨⟨_, inv⟩, _, listed⟩ := trace_inv empty trace
    have card : logged.card = 28 := by
      rw [← full, ← listed.idle (inv.idle_of_open inOp), List.toFinset_card_of_nodup inv.once]
    refine ⟨s, logged, trace, card, (logWrite_fits_iff _ empty _ _ trace 2 68 inOp (by decide)).1.mpr ?_⟩
    rw [card]
    decide
  · cases run

theorem logWrite_too_big : ¬ ∀ (s : State (Fin 3)) (logged : Finset Nat),
    Trace mkfsSuper (fun _ => zeros bsize) s logged →
    ∀ a, Within s a → step mkfsSuper s a ≠ .panic "too big a transaction" := by
  intro fits
  have run : (attempt mkfsSuper (crash fun _ => zeros bsize) threeFullOps).message = some "too big a transaction" := by
    decide +kernel
  obtain ⟨t, logged, a, trace, within, hs⟩ := attempt_panic .boot (Outcome.eq_panic run)
  exact fits t logged trace a within hs

end Xv6.LogSpace
