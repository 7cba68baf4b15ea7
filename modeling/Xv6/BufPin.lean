import Xv6.BufExec

/-! No logged block is evicted before it is installed: the invariant of the
buffers holds in every state that the kernel reaches after its boot. -/

namespace Xv6.BufPin
open Params BioMachine BioCache BufMachine BufCount BufLog BufExec Runs Function
open LogMachine (Block)
open ByteFields (zeros)

section
variable {P : Type} [Fintype P] [DecidableEq P] {s t : State n P} {g : Notes}

omit [DecidableEq P] in
lemma inv_start (sb boot disk latest) : Inv sb (start boot disk : State n P) ⟨0, latest, False⟩ := by
  have unpinned : ∀ b, ¬ Pinned (start boot disk : State n P) ⟨0, latest, False⟩ b :=
    fun b pinned => List.not_mem_nil pinned.2
  have counts : Counts (start boot disk : State n P) ⟨0, latest, False⟩ := by
    refine ⟨⟨_, _, .binit n⟩, fun b => ?_, fun _ => .inr ⟨rfl, rfl⟩, ?_, ?_⟩
    · rw [BufCount.pin, if_neg (unpinned b)]
      simp [start, binit, users, lock]
    · rintro b q ⟨⟩
    · exact fun k hk => absurd hk List.not_mem_nil
  have control : Control sb (start boot disk : State n P) := by
    refine ⟨by simp [start], fun _ _ => rfl, by simp [start], ?_, ?_, ?_, ?_⟩
    · rintro ⟨⟩
    · rintro ⟨⟩
    · rintro ⟨⟩
    · rintro b ⟨⟩
  refine ⟨counts, control, .empty .kept true, ⟨rfl, ?_, ?_, fun _ => rfl, ?_, rfl⟩,
    typed_recoverFromLog, fun _ _ b pinned => absurd pinned (unpinned b)⟩
  · rintro (_ | _ | _) <;> trivial
  · rintro (_ | _ | _) _ _ locked <;> cases locked
  · rintro ⟨⟩

lemma inv_step (small : Fintype.card P + 3 < 2 ^ 32) (h : Inv sb s g)
    (hs : BufMachine.Step sb s a t) : Inv sb t (g.record s a) := by
  cases a
  case log => exact inv_log small h hs
  all_goals simp only [BufMachine.Step, BufMachine.next, Option.ite_none_right_eq_some] at hs
  case bget p k =>
    obtain ⟨⟨⟨_, free⟩, ready⟩, hs⟩ := hs
    obtain ⟨⟨u, b⟩, got, rfl⟩ := Option.map_eq_some_iff.mp hs
    exact h.bget small free ready got
  case acquire p b =>
    obtain ⟨⟨⟨_, free⟩, waits, unheld⟩, ⟨⟩⟩ := hs
    exact h.acquire free waits unheld
  case release p b =>
    obtain ⟨⟨⟨_, free⟩, ready, mine, clean⟩, ⟨⟩⟩ := hs
    exact h.release free ready mine clean
  case drop p b =>
    obtain ⟨⟨⟨_, free⟩, gives⟩, ⟨⟩⟩ := hs
    exact h.drop free gives
  case beginOp p =>
    obtain ⟨⟨⟨up, _⟩, _, closed, rest, _⟩, ⟨⟩⟩ := hs
    exact h.beginOp up rest closed
  case store p b data =>
    obtain ⟨⟨_, _, op, mine, _⟩, ⟨⟩⟩ := hs
    exact h.store op mine _ _ _ _ id (fun _ _ bad => Bool.noConfusion bad) fun _ _ => rfl
  case copyin p b off m src =>
    obtain ⟨⟨⟨_, _, op, mine, _⟩, _⟩, ⟨⟩⟩ := hs
    have whole : ¬ (g.torn ∨ ¬ Harmless s (.copyin p b off m src)) → ¬ g.torn := fun intact torn => intact (.inl torn)
    split_ifs with fails
    · have stored := h.store op mine (copyinData s b off m src) (s.dirty b) g.latest _ whole
        (fun intact pinned clean => ?_) (fun _ _ => rfl)
      · rwa [update_eq_self b s.dirty] at stored
      · have harmless := not_not.mp (not_or.mp intact).2
        exact ((h.gathering (h.logger_none op)).2 (whole intact) b pinned clean).symm.trans (harmless fails).symm
    · exact h.store op mine _ _ _ _ whole (fun _ _ bad => Bool.noConfusion bad) fun _ _ => rfl
  case logWrite p b =>
    obtain ⟨⟨⟨_, _, op, mine, home⟩, _, room, _⟩, ⟨⟩⟩ := hs
    exact h.logWrite small op mine home room
  case endOp p =>
    obtain ⟨⟨_, ready, op, unlocked, _⟩, hs⟩ := hs
    refine h.endOp op ready unlocked ?_
    dsimp only at hs ⊢
    split_ifs at hs ⊢ <;> exact Option.some.inj hs

end

def Noted {n : Nat} (sb : Super) :
    State n (Fin nproc) × Notes → Act n (Fin nproc) → State n (Fin nproc) × Notes → Prop :=
  Recorded (BufMachine.Step sb) Notes.record

lemma run_inv (run : Run (Noted sb) (start boot disk, ⟨0, latest, False⟩) acts (s, g)) : Inv sb s g := by
  refine run.invariant (fun x => Inv sb x.1 x.2) ?_ (inv_start sb boot disk latest)
  rintro ⟨s, g⟩ a ⟨t, g'⟩ inv ⟨hs, rfl⟩
  exact inv_step (by rw [Fintype.card_fin]; decide) inv hs

section
variable {P : Type} [Fintype P] [DecidableEq P] {sb : Super} {s t : State n P} {g : Notes}
  {rest : List Instr}

section
variable (inv : Inv sb s g)
include inv

lemma logger_typed (code : s.code = i :: rest) (hs : BufMachine.Step sb s .log t) :
    ∃ p T T', s.logger = some p ∧ After sb s g p T ∧ rule T i = some T' ∧ execute sb s p i rest = some t := by
  simp only [BufMachine.Step, BufMachine.next] at hs
  split at hs
  case h_2 => cases hs
  case h_1 p j rest' logs code' =>
    obtain ⟨rfl, rfl⟩ := List.cons.inj (code'.symm.trans code)
    have log := inv.log
    simp only [LogOk, logs, code, Typed] at log
    obtain ⟨T, agrees, typed, latest⟩ := log
    split at typed
    case h_2 => exact typed.elim
    case h_1 T' ok => exact ⟨p, T, T', logs, ⟨inv.counts, inv.control, agrees, latest⟩, ok, hs⟩

lemma writeLog_copies (code : s.code = .copy .slot .home :: rest)
    (hs : BufMachine.Step sb s .log t) (up : s.recovering = false) :
    ∃ b d, s.reg .home = some b ∧ s.reg .slot = some d ∧ Pinned s g b ∧
      (¬ g.torn → t.disk (blockno s d) = g.latest (blockno s b)) := by
  obtain ⟨p, T, T', logs, now, typed, hs⟩ := logger_typed inv code hs
  simp only [rule, Option.ite_none_right_eq_some, Bool.and_eq_true, Bool.or_eq_true, beq_iff_eq, bne_iff_ne] at typed
  obtain ⟨⟨⟨⟨⟨⟨settled, locked⟩, locked'⟩, _⟩, way⟩, inside⟩, _⟩ := typed
  have kept : T.pins = .kept := by
    rcases way with (recovers | kept) | ⟨_, ⟨⟩⟩
    · rw [now.agrees.recovering, recovers] at up
      cases up
    · exact kept.1
  obtain ⟨d, slot, mine, _⟩ := (now.agrees.regs .slot).locked locked
  obtain ⟨b, home, held, has⟩ := (now.agrees.regs .home).locked locked'
  have lt := now.agrees.loop inside
  have unpinned : g.unpinned = 0 := by
    have holds := now.agrees.pins
    rwa [kept] at holds
  have entry : blockno s b = s.lh[s.tail] := by
    rw [has.2]
    simp [block, lt]
  have pinned : Pinned s g b := by
    refine ⟨has.1, ?_⟩
    simp only [pending, up, unpinned, Bool.false_eq_true, if_false, List.drop_zero, entry]
    exact List.getElem_mem lt
  refine ⟨b, d, home, slot, pinned, fun whole => ?_⟩
  simp only [execute, slot, home, Option.bind_eq_bind, Option.bind_some, mine, if_true] at hs
  obtain ⟨⟩ := hs
  have latest := now.latest (by simp [kept, Pins.gathers]) whole b pinned (clean_of_logger now.control logs held)
  exact (update_self ..).trans latest

lemma bunpin_takes (code : s.code = .bunpin :: rest) (hs : BufMachine.Step sb s .log t) :
    ∃ b, s.reg .home = some b ∧ pending s g = blockno s b :: pending t (g.record s .log) := by
  obtain ⟨p, T, T', _, now, typed, hs⟩ := logger_typed inv code hs
  obtain ⟨b, u⟩ := unpins_of_typed now typed
  simp only [execute, u.reg, Option.bind_eq_bind, Option.bind_some] at hs
  obtain ⟨⟩ := hs
  refine ⟨b, u.reg, ?_⟩
  simp only [Notes.record, code]
  rw [u.pending_next, u.first]

lemma install_done (code : s.code = .install false :: rest)
    (hs : BufMachine.Step sb s .log t) (last : s.lh.length ≤ s.tail) : pending s g = [] := by
  obtain ⟨p, T, T', _, now, typed, _⟩ := logger_typed inv code hs
  exact install_finished now typed last

end

end

lemma whole_of_harmless (run : Run (Noted sb) x acts y) (whole : ¬ x.2.torn)
    (harmless : Run (Meets (BufMachine.Step sb) Harmless) x.1 acts s) : ¬ y.2.torn := by
  induction run with
  | nil => exact whole
  | cons first _ ih =>
    cases harmless with
    | cons here rest =>
      obtain ⟨hs, note⟩ := first
      obtain ⟨hs', harmless⟩ := here
      cases hs.symm.trans hs'
      refine ih ?_ rest
      rw [note]
      unfold Notes.record
      split
      · exact whole
      · exact fun torn => torn.elim whole (absurd harmless)
      · split
        · exact whole
        · split_ifs <;> exact whole
        · exact whole
      · exact whole

/-- In every state the kernel reaches, a buffer counts its users and its pin, and what is pinned is
what has been logged and not yet unpinned by the running `installTrans`: `bget` never recycles it,
and `writeLog` finds what was logged last, unless a failed user copy has changed a buffer since. -/
theorem refcnt_exact {n : Nat} (sb : Super) (boot : Fin nproc) (disk latest : UInt32 → Block)
    (acts : List (Act n (Fin nproc))) (s : State n (Fin nproc)) (g : Notes)
    (run : Run (Noted sb) (start boot disk, ⟨0, latest, False⟩) acts (s, g)) :
    (∀ b, (s.cache.buf b).refcnt.toNat = users s b + if Pinned s g b then 1 else 0) ∧
    (s.logger = none → pending s g = s.lh) ∧
    (pending s g).Nodup ∧
    (∀ p b t, BufMachine.Step sb s (.logWrite p b) t → blockno s b ∈ s.lh → t.cache = s.cache ∧ t.lh = s.lh) ∧
    (∀ rest t, s.code = .bunpin :: rest → BufMachine.Step sb s .log t →
      ∃ b, s.reg .home = some b ∧ pending s g = blockno s b :: pending t (g.record s .log)) ∧
    (∀ rest t, s.code = .install false :: rest → BufMachine.Step sb s .log t → s.lh.length ≤ s.tail →
      pending s g = []) ∧
    (∀ k ∈ pending s g, ∃ b, Carries s b k ∧ valid s b = true ∧
      ∀ dev blockno c x, bget s.cache dev blockno = .ok (c, x) →
        (c.buf b).dev = rootDev ∧ (c.buf b).blockno = k ∧ (c.buf b).valid = true) ∧
    (∀ rest t, s.code = .copy .slot .home :: rest → BufMachine.Step sb s .log t →
      s.recovering = false → ∃ b d, s.reg .home = some b ∧ s.reg .slot = some d ∧ Pinned s g b ∧
        (Run (Meets (BufMachine.Step sb) Harmless) (start boot disk) acts s →
          t.disk (blockno s d) = g.latest (blockno s b))) := by
  have inv := run_inv run
  refine ⟨inv.counts.counted, inv.pending_eq, ?_, ?_, fun _ _ => bunpin_takes inv,
    fun _ _ => install_done inv, ?_, fun rest t code hs up => ?_⟩
  · unfold pending
    split_ifs with up
    · exact List.nodup_nil
    · exact (inv.control.once (by simpa using up)).sublist (List.drop_sublist ..)
  · intro p b t hs logged
    simp only [BufMachine.Step, BufMachine.next, Option.ite_none_right_eq_some] at hs
    obtain ⟨_, ⟨⟩⟩ := hs
    simp only [logBlock, if_pos logged, and_self]
  · intro k hk
    obtain ⟨b, carried, ok⟩ := inv.counts.cached k hk
    refine ⟨b, carried, ok, fun dev blockno c x got => ?_⟩
    have used := inv.counts.refcnt_ne_zero (.inr ⟨carried.1, carried.2 ▸ hk⟩)
    rcases inv.counts.rep.bget got with ⟨_, _, rfl⟩ | ⟨_, free, rfl⟩
    · simp only [bpin, Cache.set, update_apply]
      split_ifs with e
      · subst e
        exact ⟨carried.1, carried.2, ok⟩
      · exact ⟨carried.1, carried.2, ok⟩
    · have other : b ≠ x := by
        rintro rfl
        exact used free
      simp only [Cache.set, update_of_ne other]
      exact ⟨carried.1, carried.2, ok⟩
  · obtain ⟨b, d, home, slot, pinned, copies⟩ := writeLog_copies inv code hs up
    exact ⟨b, d, home, slot, pinned, fun harmless => copies (whole_of_harmless run id harmless)⟩

def mkfsSuper : Super := ⟨2, logSize, logSize_pos, by decide⟩

def oneWrite : List (Act 3 (Fin nproc)) :=
  List.replicate 13 .log ++
    [.beginOp 0, .bget 0 40, .acquire 0 1, .store 0 1 (fun _ => 7), .logWrite 0 1, .release 0 1,
      .drop 0 1]

theorem refcnt_exact_logged : ∃ (s : State 3 (Fin nproc)) (g : Notes),
    Run (Noted mkfsSuper) (start 0 fun _ => zeros bsize, ⟨0, fun _ => zeros bsize, False⟩) oneWrite (s, g) ∧
    users s 1 = 0 ∧ Pinned s g 1 ∧ (s.cache.buf 1).refcnt.toNat = 1 := by
  have done : ((exec (BufMachine.next mkfsSuper) (start 0 fun _ => zeros bsize)
    oneWrite).map fun s => ((s.cache.buf 1).dev, blockno s 1, s.lh, s.logger, users s 1)) =
    some (rootDev, 40, [40], none, 0) := by
    decide +kernel
  obtain ⟨s, hs, facts⟩ := Option.map_eq_some_iff.mp done
  simp only [Prod.mk.injEq] at facts
  obtain ⟨dev, blockno, lh, free, alone⟩ := facts
  obtain ⟨g, run⟩ : ∃ g, Run (Noted mkfsSuper)
    (start 0 fun _ => zeros bsize, ⟨0, fun _ => zeros bsize, False⟩) oneWrite (s, g) :=
    (run_of_exec _ hs).recorded _
  obtain ⟨counted, pending, _⟩ := refcnt_exact mkfsSuper 0 _ _ oneWrite s g run
  have pinned : Pinned s g 1 := ⟨dev, by simp [pending free, blockno, lh]⟩
  refine ⟨s, g, run, alone, pinned, ?_⟩
  rw [counted 1, alone, if_pos pinned]

/-- In the middle of the commit that follows, `installTrans` has unpinned the
block and has not cleared the transaction yet. -/
theorem refcnt_short_during_install : ∃ s : State 3 (Fin nproc),
    Run (BufMachine.Step mkfsSuper) (start 0 fun _ => zeros bsize)
      (oneWrite ++ .endOp 0 :: List.replicate 26 .log) s ∧
    blockno s 1 ∈ s.lh ∧ (s.cache.buf 1).refcnt.toNat = 1 ∧ users s 1 = 1 := by
  have done : ((exec (BufMachine.next mkfsSuper) (start 0 fun _ => zeros bsize)
    (oneWrite ++ .endOp 0 :: List.replicate 26 .log)).map fun s =>
      (blockno s 1, s.lh, (s.cache.buf 1).refcnt.toNat, users s 1)) =
    some (40, [40], 1, 1) := by
    decide +kernel
  obtain ⟨s, hs, facts⟩ := Option.map_eq_some_iff.mp done
  simp only [Prod.mk.injEq] at facts
  obtain ⟨blockno, lh, refcnt, held⟩ := facts
  exact ⟨s, run_of_exec _ hs, by simp [blockno, lh], refcnt, held⟩

end Xv6.BufPin
