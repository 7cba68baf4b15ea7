import Xv6.SleepMachine

/-! No wakeup is lost. A waiter calls `sleep(chan, lk)` while it holds `lk` and the
predicate is false; whoever makes the predicate true holds `lk` and runs a whole
`wakeup(chan)` before letting `lk` go. -/

namespace Xv6.SleepWake

open SleepMachine Runs
open Function (update_apply)

variable {n k L : Nat} {σ : Type} {s t : State n k L σ} {a : Act n k L σ} {p : Fin n}

@[grind]
def carries : Pc L → Bool
  | .sleepLocked .. | .sleepReleased .. | .sleepTidied .. | .exitLocked .. => true
  | _ => false

structure Shape (s : State n k L σ) : Prop where
  locked : ∀ p, carries (s.pc (.thread p)) = true → s.locked p = true
  asleep : ∀ p, (s.proc p).state = .sleeping → (s.pc (.thread p)).isSleeping = true
  alive : ∀ p lk, (s.pc (.thread p)).inSleep = some lk →
    (s.proc p).state = .sleeping ∨ (s.proc p).state = .runnable ∨ (s.proc p).state = .running
  busy : ∀ c p, s.intr c = some (some p) →
    (s.proc p).state = .running ∧ (s.pc (.thread p)).preemptible = true ∧ s.locked p = false
  tidied : ∀ p lk, s.pc (.thread p) = .sleepTidied lk ∨ s.pc (.thread p) = .sleepReacquire lk →
    (s.proc p).chan = 0

lemma shape_start (live d) : Shape (start live d : State n k L σ) where
  locked _ h := by simp [start, carries] at h
  asleep p h := absurd h (start_not_sleeping live d p)
  alive _ _ h := by simp [start, Pc.inSleep] at h
  busy _ _ h := by simp [start] at h
  tidied _ _ h := by simp [start] at h

@[grind =]
lemma isSleeping_eq_true {pc : Pc L} : pc.isSleeping = true ↔ ∃ lk, pc = .sleeping lk := by
  cases pc <;> simp [Pc.isSleeping]

/-- Each part is kept on its own: a step of another agent leaves the thread and its
slot alone, except that it may wake it. -/
lemma Shape.step (h : Shape s) (hs : Step s a t) : Shape t := by
  obtain ⟨en, rfl⟩ := hs
  constructor
  case' locked => intro p; have before := h.locked
  case' asleep => intro p; have before := h.asleep
  case' alive => intro p lk; have before := h.alive
  case' busy => intro c p; have before := h.busy
  case' tidied => intro p lk; have before := h.tidied
  all_goals
    cases a <;> simp only [Enabled, effect] at en ⊢
    all_goals try split
    all_goals
      try simp only [State.setProc, State.setPc, State.setLocked, State.setHolder, State.setIntr,
        update_apply, Agent.thread.injEq]
    all_goals grind

section

def actor : Act n k L σ → Option (Agent n k)
  | .acquire b _ | .release b _ | .store b _ | .wakeup b _ | .wakeupVisit b _ _
  | .wakeupDone b _ => some b
  | .sleep p _ _ | .sleepRelease p _ _ | .sleepState p _ _ | .sched p | .tidy p _ | .unlock p _
  | .reacquire p _ | .yield p | .kill p _ | .killVisit p _ _ | .killDone p _ | .alloc p _ _ _
  | .ready p _ | .exit p _ | .exitRelease p _ | .reap p _ => some (.thread p)
  | .interrupt c _ | .iret c => some (.handler c)
  | .dispatch _ => none

def takes (lk : Fin L) : Act n k L σ → Bool
  | .acquire _ l | .reacquire _ l => l = lk
  | _ => false

def drops (lk : Fin L) : Act n k L σ → Bool
  | .release _ l | .sleepRelease _ _ l | .exitRelease _ l => l = lk
  | _ => false

/-- What has happened since `lk` was last taken: the predicate was made true, a
`wakeup(chan)` of the holder ran to its end. -/
structure Hold where
  raised : Bool
  woke : Bool

variable (chan : UInt64) (lk : Fin L) (Q : (Fin n → Proc) → σ → Bool)

def State.holds (s : State n k L σ) : Bool := Q s.proc s.data

def Hold.record (g : Hold) (s : State n k L σ) (a : Act n k L σ) (t : State n k L σ) : Hold :=
  if takes lk a then ⟨false, false⟩
  else
    { raised := g.raised || (!State.holds Q s && State.holds Q t)
      woke := g.woke || match a with
        | .wakeupDone b c => c = chan ∧ s.holder lk = some b
        | _ => false }

section
variable {chan : UInt64} {lk : Fin L} {Q : (Fin n → Proc) → σ → Bool} {g : Hold}
  {s t : State n k L σ} {a : Act n k L σ}

lemma record_of_takes (h : takes lk a = true) : g.record chan lk Q s a t = ⟨false, false⟩ := by
  simp [Hold.record, h]

lemma woke_record (h : takes lk a = false) (woke : g.woke = true) : (g.record chan lk Q s a t).woke = true := by
  simp [Hold.record, h, woke]

lemma raised_record (h : takes lk a = false) (kept : State.holds Q t = true → State.holds Q s = true) :
    (g.record chan lk Q s a t).raised = g.raised := by
  by_cases yes : State.holds Q t = true
  · simp [Hold.record, h, kept yes]
  · simp [Hold.record, h, yes]

end

/-- The waiter's part: `sleep(chan, lk)` is called with `lk` held and the predicate
false. -/
def Asks (s : State n k L σ) : Act n k L σ → Prop
  | .sleep p c l =>
    c = chan → l = lk ∧ s.holder lk = some (.thread p) ∧ State.holds Q s = false
  | _ => True

instance (s : State n k L σ) : (a : Act n k L σ) → Decidable (Asks chan lk Q s a)
  | .sleep _ c _ => inferInstanceAs (Decidable (c = chan → _))
  | .acquire .. | .release .. | .store .. | .sleepRelease .. | .sleepState .. | .sched .. | .dispatch ..
  | .tidy .. | .unlock .. | .reacquire .. | .yield .. | .wakeup .. | .wakeupVisit .. | .wakeupDone ..
  | .kill .. | .killVisit .. | .killDone .. | .interrupt .. | .iret .. | .alloc .. | .ready ..
  | .exit .. | .exitRelease .. | .reap .. => isTrue trivial

structure Protocol (s : State n k L σ) (g : Hold) (a : Act n k L σ) (t : State n k L σ) :
    Prop where
  asks : Asks chan lk Q s a
  raises : State.holds Q s = false → State.holds Q t = true →
    s.holder lk ≠ none ∧ actor a = s.holder lk
  wakes : drops lk a = true → g.raised = true → g.woke = true

lemma protocol_iff : Protocol chan lk Q s g a t ↔ Asks chan lk Q s a ∧
    (State.holds Q s = false → State.holds Q t = true → s.holder lk ≠ none ∧ actor a = s.holder lk) ∧
    (drops lk a = true → g.raised = true → g.woke = true) :=
  ⟨fun h => ⟨h.asks, h.raises, h.wakes⟩, fun h => ⟨h.1, h.2.1, h.2.2⟩⟩

instance (s t : State n k L σ) (g : Hold) (a : Act n k L σ) :
    Decidable (Protocol chan lk Q s g a t) :=
  decidable_of_iff _ (protocol_iff chan lk Q).symm

def Guarded (x : State n k L σ × Hold) (a : Act n k L σ) (y : State n k L σ × Hold) : Prop :=
  Step x.1 a y.1 ∧ y.2 = x.2.record chan lk Q x.1 a y.1 ∧ Protocol chan lk Q x.1 x.2 a y.1

def guardedNext (x : State n k L σ × Hold) (a : Act n k L σ) : Option (State n k L σ × Hold) :=
  (SleepMachine.next x.1 a).bind fun t =>
    if Protocol chan lk Q x.1 x.2 a t then some (t, x.2.record chan lk Q x.1 a t) else none

lemma guarded_of_next (h : guardedNext chan lk Q x a = some y) : Guarded chan lk Q x a y := by
  obtain ⟨t, step, h⟩ := Option.bind_eq_some_iff.mp h
  split at h
  · obtain rfl := Option.some.inj h
    exact ⟨step_of_next step, rfl, ‹_›⟩
  · cases h

end

variable {chan : UInt64} {lk l : Fin L} {b : Agent n k}

/-- The process has let its lock go on the way to sleep on `chan`, or sleeps there. -/
@[grind]
def Waiting (chan : UInt64) (s : State n k L σ) (p : Fin n) : Prop :=
  (∃ lk, s.pc (.thread p) = .sleepReleased chan lk) ∨
    (s.proc p).state = .sleeping ∧ (s.proc p).chan = chan

lemma waiting_step (hs : Step s a t) (h : Waiting chan t p) : Waiting chan s p ∨ ∃ lk, a = .sleepRelease p chan lk := by
  obtain ⟨en, rfl⟩ := hs
  by_cases going : ∃ lk, a = .sleepRelease p chan lk
  · exact .inr going
  left
  unfold Waiting at *
  cases a
  case sleepRelease q c lk => simp_all [effect, update_apply]; grind
  all_goals simp only [Enabled, effect] at en h ⊢
  all_goals try split at h
  all_goals try simp only [State.setProc, State.setPc, State.setLocked, State.setHolder, State.setIntr,
    update_apply, Agent.thread.injEq] at h
  all_goals grind

lemma Shape.me_running (h : Shape s) (awake : Awake s b) (at_ : s.pc b = .wakeup chan i) (me : myproc s b = some p) :
    (s.proc p).state = .running ∧ (s.pc (.thread p)).preemptible = true := by
  cases b with
  | thread q =>
    obtain rfl : q = p := Option.some.inj me
    exact ⟨awake.1, by simp [at_, Pc.preemptible]⟩
  | handler c =>
    have on := h.busy c p (Option.join_eq_some_iff.mp me)
    exact ⟨on.1, on.2.1⟩

lemma not_waiting_of_visit (h : Shape s) (hs : Step s (.wakeupVisit b chan p) t) : ¬ Waiting chan t p := by
  obtain ⟨⟨awake, at_, free⟩, rfl⟩ := hs
  have locked := h.locked p
  have me := h.me_running awake at_ (p := p)
  unfold Waiting
  simp only [effect, State.setProc, State.setPc, update_apply]
  grind

section
variable (hs : Step s a t)
include hs

lemma holder_step (changed : t.holder lk ≠ s.holder lk) : (takes lk a = true ∧ s.holder lk = none) ∨
    (drops lk a = true ∧ t.holder lk = none ∧ actor a = s.holder lk) := by
  obtain ⟨en, rfl⟩ := hs
  cases a <;> simp only [Enabled, effect] at en changed ⊢
  all_goals try split at changed
  all_goals simp_all [takes, drops, actor, update_apply]

lemma taken_step (taken : takes lk a = true) : s.holder lk = none ∧ ∃ b, t.holder lk = some b ∧ t.pc b = .out := by
  obtain ⟨en, rfl⟩ := hs
  cases a <;> simp only [takes, decide_eq_true_eq, Bool.false_eq_true] at taken
  case acquire b l =>
    subst taken
    exact ⟨en.2, b, by simp [effect], en.1.2⟩
  case reacquire p l =>
    subst taken
    exact ⟨en.2.2, .thread p, by simp [effect], by simp [effect]⟩

lemma act_of_sleepLocked (at_ : s.pc (.thread p) = .sleepLocked chan l)
    (mine : actor a = some (.thread p)) : a = .sleepRelease p chan l := by
  obtain ⟨en, -⟩ := hs
  cases a <;> simp only [actor, Option.some.injEq, Agent.thread.injEq, reduceCtorEq] at mine
  all_goals
    simp_all [Enabled, Free, Interruptible, Pc.preemptible, Pc.isSleeping]

lemma sleepLocked_step (at_ : t.pc (.thread p) = .sleepLocked chan l) :
    a = .sleep p chan l ∨ s.pc (.thread p) = .sleepLocked chan l ∧ actor a ≠ some (.thread p) := by
  by_cases was : s.pc (.thread p) = .sleepLocked chan l
  · refine .inr ⟨was, fun mine => ?_⟩
    obtain rfl := act_of_sleepLocked hs was mine
    obtain ⟨-, rfl⟩ := hs
    simp [effect] at at_
  · obtain ⟨en, rfl⟩ := hs
    left
    cases a <;> simp only [Enabled, effect] at en at_ ⊢
    all_goals try split at at_
    all_goals try simp only [State.setProc, State.setPc, State.setLocked, State.setHolder, State.setIntr,
      update_apply, Agent.thread.injEq] at at_
    all_goals grind

lemma wakeup_pc_step (at_ : t.pc b = .wakeup chan i) :
    s.pc b = .wakeup chan i ∨ i = 0 ∨ ∃ j, a = .wakeupVisit b chan j ∧ i = j.val + 1 ∧ s.pc b = .wakeup chan j := by
  obtain ⟨en, rfl⟩ := hs
  cases a
  case wakeupVisit b' c j =>
    simp only [effect, State.setProc_pc, State.setPc_pc, update_apply] at at_
    split at at_
    · rename_i same
      subst same
      obtain ⟨rfl, rfl⟩ := Pc.wakeup.inj at_
      exact .inr (.inr ⟨j, rfl, rfl, en.2.1⟩)
    · exact .inl at_
  all_goals simp only [Enabled, effect] at en at_ ⊢
  all_goals try split at at_
  all_goals try simp only [State.setProc, State.setPc, State.setLocked, State.setHolder, State.setIntr,
    update_apply] at at_
  all_goals grind

lemma holds_of_drops (d : drops lk a = true) : State.holds Q t = State.holds Q s := by
  obtain ⟨-, rfl⟩ := hs
  cases a <;> first | contradiction | rfl

end

variable {chan : UInt64} {lk : Fin L} {Q : (Fin n → Proc) → σ → Bool} {g : Hold}

/-- Nobody waits for what has already come, unless the holder of `lk` still owes
a `wakeup` that has not passed the slot. -/
structure NoneLost (chan : UInt64) (lk : Fin L) (Q : (Fin n → Proc) → σ → Bool)
    (s : State n k L σ) (g : Hold) : Prop where
  asked : ∀ p l, s.pc (.thread p) = .sleepLocked chan l →
    l = lk ∧ s.holder lk = some (.thread p) ∧ State.holds Q s = false
  idle : s.holder lk = none → ∀ p, Waiting chan s p → State.holds Q s = false
  owed : ∀ b, s.holder lk = some b → ∀ p, Waiting chan s p →
    g.woke = false ∧ (State.holds Q s = true → g.raised = true) ∧
      ∀ i, s.pc b = .wakeup chan i → i ≤ p.val

lemma noneLost_start (live d) (g : Hold) : NoneLost chan lk Q (start live d : State n k L σ) g where
  asked p l h := by simp [start] at h
  idle _ p w := by
    rcases w with ⟨l, at_⟩ | ⟨asleep, -⟩
    · simp [start] at at_
    · exact absurd asleep (start_not_sleeping live d p)
  owed b h := by simp [start] at h

section
variable (h : NoneLost chan lk Q s g)
include h

lemma NoneLost.asked_step (hs : Step s a t) (kept : Protocol chan lk Q s g a t) (p l)
    (at_ : t.pc (.thread p) = .sleepLocked chan l) :
    l = lk ∧ t.holder lk = some (.thread p) ∧ State.holds Q t = false := by
  rcases sleepLocked_step hs at_ with rfl | ⟨was, other⟩
  · obtain ⟨-, rfl⟩ := hs
    exact kept.asks rfl
  · obtain ⟨rfl, held, no⟩ := h.asked p l was
    refine ⟨rfl, ?_, ?_⟩
    · by_contra moved
      rcases holder_step hs (by rwa [held]) with ⟨-, free⟩ | ⟨-, -, mine⟩
      · simp [held] at free
      · exact other (mine.trans held)
    · by_contra yes
      obtain ⟨-, mine⟩ := kept.raises no (by simpa using yes)
      exact other (mine.trans held)

lemma NoneLost.waiting_before (hs : Step s a t) (w : Waiting chan t p) :
    Waiting chan s p ∨ drops lk a = true ∧ State.holds Q s = false ∧ t.holder lk = none := by
  rcases waiting_step hs w with before | ⟨l, rfl⟩
  · exact .inl before
  · obtain ⟨⟨at_, -⟩, rfl⟩ := hs
    obtain ⟨rfl, -, no⟩ := h.asked p l at_
    exact .inr ⟨by simp [drops], no, by simp [effect]⟩

lemma NoneLost.idle_step (hs : Step s a t) (kept : Protocol chan lk Q s g a t) (free : t.holder lk = none) (p)
    (w : Waiting chan t p) : State.holds Q t = false := by
  by_cases was : s.holder lk = none
  · -- nobody can have raised the predicate
    by_contra yes
    have no : State.holds Q s = false := by
      rcases h.waiting_before hs w with before | ⟨-, no, -⟩
      · exact h.idle was p before
      · exact no
    exact (kept.raises no (by simpa using yes)).1 was
  · -- `lk` is being dropped
    rcases holder_step hs (fun e => was (e.symm.trans free)) with ⟨-, was'⟩ | ⟨drop, -, -⟩
    · exact absurd was' was
    rw [holds_of_drops hs drop]
    rcases h.waiting_before hs w with before | ⟨-, no, -⟩
    · obtain ⟨b, held⟩ := Option.ne_none_iff_exists'.mp was
      obtain ⟨asleep, raised, -⟩ := h.owed b held p before
      by_contra yes
      have woke := kept.wakes drop (raised (by simpa using yes))
      simp [asleep] at woke
    · exact no

section
variable (shape : Shape s) (hs : Step s a t) (kept : Protocol chan lk Q s g a t)
include shape hs kept

lemma NoneLost.owed_step (b : Agent n k) (held : t.holder lk = some b) (p)
    (w : Waiting chan t p) :
    (g.record chan lk Q s a t).woke = false ∧ (State.holds Q t = true → (g.record chan lk Q s a t).raised = true) ∧
      ∀ i, t.pc b = .wakeup chan i → i ≤ p.val := by
  have before : Waiting chan s p := by
    rcases h.waiting_before hs w with before | ⟨-, -, free⟩
    · exact before
    · simp [held] at free
  by_cases same : t.holder lk = s.holder lk
  · obtain ⟨asleep, raised, passed⟩ := h.owed b (same.symm.trans held) p before
    have not_taken : takes lk a = false := by
      by_contra taken
      have free := (taken_step hs (by simpa using taken)).1
      simp [← same, held] at free
    refine ⟨?_, fun yes => ?_, fun i at_ => ?_⟩
    · by_contra woke
      cases a <;> simp [Hold.record, not_taken, asleep] at woke
      -- the loop that ends has passed every slot
      obtain ⟨rfl, mine⟩ := woke
      obtain rfl : b = _ := Option.some.inj (held.symm.trans (same.trans mine))
      have := passed n hs.1.2
      omega
    · by_cases was : State.holds Q s = true
      · simp [Hold.record, not_taken, raised was]
      · simp [Hold.record, not_taken, was, yes]
    · rcases wakeup_pc_step hs at_ with was | rfl | ⟨j, rfl, rfl, was⟩
      · exact passed i was
      · exact Nat.zero_le _
      · have le := passed j was
        have ne : j ≠ p := by
          rintro rfl
          exact not_waiting_of_visit shape hs w
        omega
  · -- `lk` has just been taken
    rcases holder_step hs same with ⟨taken, free⟩ | ⟨-, free, -⟩
    · have no := h.idle free p before
      refine ⟨by simp [Hold.record, taken], fun yes => ?_, fun i at_ => ?_⟩
      · exact absurd free (kept.raises no yes).1
      · obtain ⟨-, b', held', at_out⟩ := taken_step hs taken
        obtain rfl : b = b' := Option.some.inj (held.symm.trans held')
        simp [at_out] at at_
    · simp [held] at free

lemma NoneLost.step : NoneLost chan lk Q t (g.record chan lk Q s a t) where
  asked := h.asked_step hs kept
  idle := h.idle_step hs kept
  owed := h.owed_step shape hs kept

end

end

lemma Shape.sleep_returns (h : Shape s) (hs : Step s a t)
    (inside : (s.pc (.thread p)).inSleep = some l) (outside : (t.pc (.thread p)).inSleep = none) :
    t.pc (.thread p) = .out ∧ t.holder l = some (.thread p) ∧ (t.proc p).chan = 0 := by
  have alive := h.alive p l inside
  have tidied := h.tidied p l
  obtain ⟨en, rfl⟩ := hs
  cases a <;> simp only [Enabled, effect] at en outside ⊢
  all_goals try split at outside
  all_goals try simp only [State.setProc, State.setPc, State.setLocked, State.setHolder, State.setIntr,
    update_apply, Agent.thread.injEq] at outside ⊢
  all_goals grind

/-- In every run that keeps to the protocol: while `lk` is free, no process sleeps on `chan` with the
predicate true; and a `sleep` that returns, however it was woken, holds its lock again and has
cleared `p->chan`. -/
theorem no_lost_wakeup {live : Fin n → Option Int32} {d : σ} {as : List (Act n k L σ)}
    (run : Run (Guarded chan lk Q) (start live d, ⟨false, false⟩) as (s, g)) :
    (∀ p, s.holder lk = none → (s.proc p).state = .sleeping → (s.proc p).chan = chan → Q s.proc s.data = false) ∧
    (∀ p l a t, Step s a t → (s.pc (.thread p)).inSleep = some l → (t.pc (.thread p)).inSleep = none →
      t.pc (.thread p) = .out ∧ t.holder l = some (.thread p) ∧ (t.proc p).chan = 0) := by
  obtain ⟨shape, none_⟩ : Shape s ∧ NoneLost chan lk Q s g := by
    refine run.invariant (fun x => Shape x.1 ∧ NoneLost chan lk Q x.1 x.2) ?_
      ⟨shape_start live d, noneLost_start live d _⟩
    rintro x a y ⟨shape, none_⟩ ⟨hs, recorded, kept⟩
    exact ⟨shape.step hs, recorded ▸ none_.step shape hs kept⟩
  refine ⟨fun p free asleep on => ?_, fun p l a t hs inside outside => ?_⟩
  · exact none_.idle free p (.inr ⟨asleep, on⟩)
  · exact shape.sleep_returns hs inside outside

/-- Process `0` waits for the data to become true; process `1` takes the lock while
`0` is still on its way to sleep, and makes the data true before `0` sleeps. -/
def lateSleeper : List (Act 2 0 1 Bool) :=
  [.dispatch 0, .dispatch 1, .acquire (.thread 0) 0, .sleep 0 7 0, .sleepRelease 0 7 0,
    .acquire (.thread 1) 0, .store (.thread 1) true, .wakeup (.thread 1) 7, .sleepState 0 7 0,
    .sched 0, .wakeupVisit (.thread 1) 7 0, .wakeupVisit (.thread 1) 7 1,
    .wakeupDone (.thread 1) 7, .release (.thread 1) 0, .dispatch 0, .tidy 0 0, .unlock 0 0]

theorem no_lost_wakeup_late_sleeper : ∃ x : State 2 0 1 Bool × Hold,
    Run (Guarded 7 0 fun _ d => d) (start (fun _ => some 1) false, ⟨false, false⟩) lateSleeper x ∧
    ∀ t, Step x.1 (.reacquire 0 0) t → t.holder 0 = some (.thread 0) ∧ (t.proc 0).chan = 0 := by
  have done : ((exec (guardedNext 7 0 fun _ d => d) (start (fun _ => some 1) false, ⟨false, false⟩)
    lateSleeper).map fun x => (x.1.pc (.thread 0))) = some (.sleepReacquire 0) := by
    decide +kernel
  obtain ⟨x, hx, at_⟩ := Option.map_eq_some_iff.mp done
  have run := (run_of_exec _ hx).mono fun _ _ _ => guarded_of_next 7 0 _
  refine ⟨x, run, fun t hs => ?_⟩
  have outside : (t.pc (.thread 0)).inSleep = none := by
    obtain ⟨-, rfl⟩ := hs
    simp [effect, Pc.inSleep]
  exact ((no_lost_wakeup run).2 0 0 _ t hs (by simp [at_, Pc.inSleep]) outside).2

end Xv6.SleepWake
