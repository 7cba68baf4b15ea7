import Xv6.FamilyTree

/-! No exit is lost. Becoming a zombie and handing one to `initproc` make the predicate of `wait`
true, under `wait_lock` and together with a `wakeup` of the waiter; so the protocol of `sleep` and
`wakeup` is kept for every waiter. -/

namespace Xv6.FamilyWait

open FamilyMachine FamilyTree
open SleepMachine.State (setProc setPc setLocked setHolder setIntr)
open SleepMachine (Agent Pc Free Awake Enabled effect)
open SleepWake (Hold Protocol NoneLost Shape)
open Function (update_apply)
open SleepWake (takes record_of_takes raised_record drops)

variable {n k L : Nat} {K : Kernel n L} {s t : FamilyMachine.State n k L}

@[grind]
def scanned : Prog n → Nat
  | .waitScan i _ => i
  | .waitSleep => n
  | _ => 0

lemma locks_of_scanned (h : i < scanned prog) : locks prog = true ∧ prog ≠ .waitAsleep := by
  cases prog <;> simp_all [scanned, locks]

lemma holder_of_locks (h : Places K s) (at_ : locks (s.data.prog p) = true)
    (awake : s.data.prog p ≠ .waitAsleep) : s.holder K.waitLock = some (.thread p) := by
  refine (h.held p).mp ?_
  have fits := h.fits p
  cases hpc : s.pc (.thread p) <;> rw [hpc] at fits <;> grind

/-- What `wait` has seen stays as it saw it while it holds `wait_lock`; and a
process asleep in `wait` sleeps on its own address. -/
structure Scan (K : Kernel n L) (s : FamilyMachine.State n k L) : Prop where
  seen : ∀ p q, q.val < scanned (s.data.prog p) → s.data.parent q = some p →
    (s.proc q).state ≠ .zombie
  chan : ∀ p c l, s.data.prog p = .waitAsleep →
    s.pc (.thread p) = .sleepLocked c l ∨ s.pc (.thread p) = .sleepReleased c l → c = K.addr p
  asleep : ∀ p, s.data.prog p = .waitAsleep → (s.proc p).state = .sleeping →
    (s.proc p).chan = K.addr p

lemma seen_call (h : Scan K s) (places : Places K s) (hs : Step K s (.call c) t)
    (p q) (passed : q.val < scanned (t.data.prog p)) (mine : t.data.parent q = some p) :
    (t.proc q).state ≠ .zombie := by
  rcases prog_call hs p with ⟨rfl, at_, e⟩ | ⟨r, -, e⟩ | ⟨other, e⟩
  · have was := h.seen c.caller q
    rw [e] at passed
    rw [at_] at was
    obtain ⟨-, -, pass, -, rfl⟩ := hs
    cases c
    case waitOther p havekids pp =>
      rcases Nat.lt_succ_iff_lt_or_eq.mp passed with lt | eq
      · exact was lt mine
      · exact absurd mine (Fin.ext eq ▸ pass)
    case waitChild p havekids pp =>
      rcases Nat.lt_succ_iff_lt_or_eq.mp passed with lt | eq
      · exact was lt mine
      · exact Fin.ext eq ▸ pass.2.2
    case waitBlock p => exact was passed mine
    all_goals exact absurd passed (Nat.not_lt_zero _)
  · simp [e, scanned] at passed
  · -- the scanning process holds `wait_lock`, and the caller does not
    rw [e] at passed
    obtain ⟨locked, awake⟩ := locks_of_scanned passed
    have held := holder_of_locks places locked awake
    have alone : ∀ r, s.holder K.waitLock = some (.thread r) → r = p := by
      intro r hr
      have both := hr.symm.trans held
      simpa using both
    have before : s.data.parent q = some p := by
      rcases parent_call hs q with same | ⟨-, none_⟩ | ⟨r, rfl, new⟩ | ⟨r, status, rfl, -, -⟩
      · rw [← same, mine]
      · simp [none_] at mine
      · obtain rfl : r = p := Option.some.inj (new.symm.trans mine)
        exact absurd rfl other
      · have at_ : s.data.prog r = .exitReparent status q := hs.2.1
        exact absurd (alone r (holder_of_locks places (by simp [at_, locks]) (by simp [at_]))).symm other
    have was := h.seen p q passed before
    rcases state_call hs q with same | ⟨_, _, _, e⟩ | ⟨_, _, _, e⟩ | ⟨status, rfl, -⟩ | ⟨_, _, _, _, _, e⟩
    · rwa [same]
    · simp [e]
    · simp [e]
    · have at_ : s.data.prog q = .exitWakeup status := hs.2.1
      exact absurd (alone q (holder_of_locks places (by simp [at_, locks]) (by simp [at_]))).symm other
    · simp [e]

lemma Scan.call (h : Scan K s) (places : Places K s) (hs : Step K s (.call c) t) : Scan K t := by
  refine ⟨seen_call h places hs, ?_, ?_⟩
  case' refine_1 => intro p c' l; have before := h.chan p c' l
  case' refine_2 => intro p; have before := h.asleep p
  all_goals
    obtain ⟨free, at_, pass, en, rfl⟩ := hs
    cases c <;> simp only [Call.caller, Call.place, Passes, innerAct, InnerEnabled, innerEffect,
      callEffect, stores, Call.goal, Family.setProg, Enabled, effect] at free at_ pass en ⊢
    all_goals
      try simp only [setProc, setPc, setLocked, setHolder, Function.update_apply, Agent.thread.injEq]
    all_goals grind

lemma Scan.other (h : Scan K s) (shape : Shape s)
    (places : Places K s) (ok : Allowed K s a) (hs : SleepMachine.Step s a t) : Scan K t := by
  have data := data_other ok hs
  refine ⟨fun p q passed mine => ?_, ?_, ?_⟩
  · rw [data] at passed mine
    exact mt (sameKind_other shape ok hs q).zombie.mp (h.seen p q passed mine)
  case' refine_2 => intro p c' l; have before := h.chan p c' l
  case' refine_3 => intro p; have before := h.asleep p; have chan := h.chan p
  all_goals
    have fits := places.fits p
    obtain ⟨en, rfl⟩ := hs
    cases a <;> simp only [Enabled, effect, Allowed, Outside] at en ok ⊢
    all_goals try split
    all_goals
      try simp only [setProc, setPc, setLocked, setHolder, setIntr, Function.update_apply, Agent.thread.injEq]
    all_goals grind

lemma Scan.step (h : Scan K s) (shape : Shape s) (places : Places K s) (hs : Step K s a t) : Scan K t := by
  cases a with
  | other a => exact h.other shape places hs.1 hs.2
  | call c => exact h.call places hs

variable {w : Fin n} {a : SleepMachine.Act n k L (Family n)}

def zombieChild (w : Fin n) (proc : Fin n → SleepMachine.Proc) (d : Family n) : Bool :=
  decide (∃ q, d.parent q = some w ∧ (proc q).state = .zombie)

lemma holds_iff : SleepWake.State.holds (zombieChild w) s = true ↔
    ∃ q, s.data.parent q = some w ∧ (s.proc q).state = .zombie := by
  simp [SleepWake.State.holds, zombieChild]

lemma holds_other (shape : Shape s) (ok : Allowed K s a) (hs : SleepMachine.Step s a t) :
    SleepWake.State.holds (zombieChild w) t = SleepWake.State.holds (zombieChild w) s := by
  rw [Bool.eq_iff_iff, holds_iff, holds_iff, data_other ok hs]
  exact exists_congr fun q => and_congr_right fun _ => (sameKind_other shape ok hs q).zombie

/-- A store of a call gives `w` a zombie child only by passing one on to `initproc`. -/
lemma holds_store (tree : Tree K s) (hs : Step K s (.call c) t)
    (yes : SleepWake.State.holds (zombieChild w) (effect s (storeOf K s c)) = true) :
    SleepWake.State.holds (zombieChild w) s = true ∨ w = K.initproc ∧
      ∃ p status pp, c = .reparentChild p status pp := by
  obtain ⟨q, mine, zombie⟩ := holds_iff.mp yes
  have dead : (s.proc q).state = .zombie := zombie
  have owned : t.data.parent q = some w := by
    rw [hs.2.2.2.2]
    exact mine
  rcases parent_call hs q with same | ⟨-, none_⟩ | ⟨p, rfl, -⟩ | ⟨p, status, rfl, -, new⟩
  · exact .inl (holds_iff.mpr ⟨q, same ▸ owned, dead⟩)
  · simp [none_] at owned
  · have used := tree.child p q (congrArg child hs.2.1)
    simp [used] at dead
  · exact .inr ⟨Option.some.inj (owned.symm.trans new), p, status, q, rfl⟩

/-- What a call does besides gives `w` a zombie child only when its child exits. -/
lemma holds_inner (hi : innerAct K s c = some a) (hs : SleepMachine.Step u a t)
    (yes : SleepWake.State.holds (zombieChild w) t = true) :
    SleepWake.State.holds (zombieChild w) u = true ∨ ∃ p status, c = .exitZombie p status ∧
      u.data.parent p = some w := by
  obtain ⟨q, mine, zombie⟩ := holds_iff.mp yes
  obtain ⟨en, rfl⟩ := hs
  cases c <;> simp only [innerAct, reduceCtorEq, Option.some.injEq] at hi
  case exitZombie p status =>
    subst hi
    rcases eq_or_ne q p with rfl | ne
    · exact .inr ⟨q, status, rfl, mine⟩
    · exact .inl (holds_iff.mpr ⟨q, mine, by simpa [effect, ne] using zombie⟩)
  all_goals
    subst hi
    refine .inl (holds_iff.mpr ⟨q, mine, ?_⟩)
    simp only [Enabled, effect] at en zombie
    simp only [setProc, setPc, setLocked, setHolder, Function.update_apply] at zombie
    grind

variable {p : Fin n} {g : Hold} {c : Call n}

@[grind]
def wakeChan : Pc L → Option UInt64
  | .wakeup chan _ => some chan
  | _ => none

def Pay (K : Kernel n L) (w : Fin n) (s : FamilyMachine.State n k L) (g : Hold) (p : Fin n) :
    Prop :=
  match s.data.prog p with
  | .exitReparent .. | .exited => g.raised = true → g.woke = true
  | .exitReparented .. =>
    (g.raised = true → g.woke = true ∨ w = K.initproc) ∧
    (∀ chan, wakeChan (s.pc (.thread p)) = some chan → chan = K.addr K.initproc) ∧
    (s.pc (.thread p) = .out → w = K.initproc → g.woke = true)
  | .exitWakeup _ =>
    (g.raised = true → g.woke = true) ∧
    (∀ chan, wakeChan (s.pc (.thread p)) = some chan → chan = parentChan K s p) ∧
    (s.pc (.thread p) = .out → s.data.parent p = some w → g.woke = true)
  | _ => g.raised = false

def Paid (K : Kernel n L) (w : Fin n) (s : FamilyMachine.State n k L) (g : Hold) : Prop :=
  ∀ p, s.holder K.waitLock = some (.thread p) → Pay K w s g p

lemma wakeChan_other (ok : Allowed K s a) (hs : SleepMachine.Step s a t) (busy : s.data.prog p ≠ .idle) (chan) :
    wakeChan (t.pc (.thread p)) = some chan → wakeChan (s.pc (.thread p)) = some chan := by
  obtain ⟨en, rfl⟩ := hs
  cases a <;> simp only [Enabled, effect, Allowed, Outside] at en ok ⊢
  all_goals try split
  all_goals try simp only [setProc, setPc, setLocked, setHolder, setIntr, update_apply, Agent.thread.injEq]
  all_goals grind

lemma out_other (places : Places K s) (ok : Allowed K s a) (hs : SleepMachine.Step s a t)
    (busy : s.data.prog p ≠ .idle) (awake : s.data.prog p ≠ .waitAsleep)
    (done : ∀ chan, a ≠ .wakeupDone (.thread p) chan) :
    t.pc (.thread p) = .out → s.pc (.thread p) = .out := by
  have fits := places.fits p
  obtain ⟨en, rfl⟩ := hs
  cases a
  case wakeupDone b chan =>
    have ne : Agent.thread p ≠ b := fun e => done chan (e ▸ rfl)
    simp [effect, ne]
  all_goals simp only [Enabled, effect, Allowed, Outside] at en ok ⊢
  all_goals try split
  all_goals try simp only [setProc, setPc, setLocked, setHolder, setIntr, update_apply, Agent.thread.injEq]
  all_goals grind

lemma woke_of_done (held : s.holder K.waitLock = some (.thread p)) :
    (g.record (K.addr w) K.waitLock (zombieChild w) s (.wakeupDone (.thread p) (K.addr w)) t).woke = true := by
  simp [Hold.record, takes, held]

lemma Paid.other (h : Paid K w s g) (shape : Shape s) (places : Places K s)
    (ok : Allowed K s a) (hs : SleepMachine.Step s a t) :
    Paid K w t (g.record (K.addr w) K.waitLock (zombieChild w) s a t) := by
  intro p held
  have data := data_other ok hs
  by_cases taken : takes K.waitLock a = true
  · -- only a process asleep in `wait` takes `wait_lock` outside the calls
    cases a <;> simp only [takes, decide_eq_true_eq, Bool.false_eq_true] at taken
    case acquire b l => exact absurd taken ok.2
    case reacquire q l =>
      subst taken
      have fits := places.fits q
      obtain ⟨⟨at_, -, -⟩, rfl⟩ := hs
      obtain rfl : q = p := by simpa [effect] using held
      have asleep : s.data.prog q = .waitAsleep := by simpa [at_, Fits] using fits
      simp [Pay, data, asleep, record_of_takes, takes]
  · have taken : takes K.waitLock a = false := by simpa using taken
    have was : s.holder K.waitLock = some (.thread p) := by
      by_contra ne
      rcases SleepWake.holder_step hs (fun e => ne (e.symm.trans held)) with ⟨yes, -⟩ | ⟨-, none_, -⟩
      · simp [taken] at yes
      · simp [none_] at held
    have before := h p was
    have raised : (g.record (K.addr w) K.waitLock (zombieChild w) s a t).raised = g.raised :=
      raised_record taken fun yes => holds_other shape ok hs ▸ yes
    have woke (yes : g.woke = true) : (g.record (K.addr w) K.waitLock (zombieChild w) s a t).woke = true :=
      SleepWake.woke_record taken yes
    have prog : t.data.prog p = s.data.prog p := by rw [data]
    unfold Pay at before ⊢
    rw [prog]
    cases hp : s.data.prog p <;> simp only [hp] at before ⊢
    case exitReparent => exact fun r => woke (before (raised ▸ r))
    case exited => exact fun r => woke (before (raised ▸ r))
    case exitReparented =>
      have busy : s.data.prog p ≠ .idle := by simp [hp]
      refine ⟨fun r => (before.1 (raised ▸ r)).imp_left woke, fun chan on =>
        before.2.1 chan (wakeChan_other ok hs busy chan on), fun out isInit => ?_⟩
      by_cases done : ∃ chan, a = .wakeupDone (.thread p) chan
      · obtain ⟨chan, rfl⟩ := done
        obtain rfl : chan = K.addr w := isInit ▸ before.2.1 chan (by simp [hs.1.2, wakeChan])
        exact woke_of_done was
      · refine woke (before.2.2 (out_other places ok hs busy (by simp [hp]) ?_ out) isInit)
        exact fun chan e => done ⟨chan, e⟩
    case exitWakeup =>
      have busy : s.data.prog p ≠ .idle := by simp [hp]
      refine ⟨fun r => woke (before.1 (raised ▸ r)), fun chan on => ?_, fun out mine => ?_⟩
      · have same := before.2.1 chan (wakeChan_other ok hs busy chan on)
        rwa [parentChan, data]
      · rw [data] at mine
        by_cases done : ∃ chan, a = .wakeupDone (.thread p) chan
        · obtain ⟨chan, rfl⟩ := done
          obtain rfl : chan = K.addr w := by
            simpa [parentChan, mine] using before.2.1 chan (by simp [hs.1.2, wakeChan])
          exact woke_of_done was
        · refine woke (before.2.2 (out_other places ok hs busy (by simp [hp]) ?_ out) mine)
          exact fun chan e => done ⟨chan, e⟩
    all_goals exact raised.trans before

lemma caller_holds (places : Places K s) (hs : Step K s (.call c) t)
    (at_ : locks c.place = true) : s.holder K.waitLock = some (.thread c.caller) := by
  refine (places.held c.caller).mp ?_
  rw [hs.1.2, hs.2.1]
  exact at_

/-- While another process holds `wait_lock`, a call can only allocate or release its
child. -/
lemma call_of_bystander (places : Places K s) (hs : Step K s (.call c) t)
    (held : s.holder K.waitLock = some (.thread p)) (other : p ≠ c.caller) :
    ∃ q np, c = .forkAlloc q np ∨ c = .forkFails q np ∨ c = .forkReady q np := by
  have unheld : locks c.place ≠ true := by
    intro at_
    have mine := (caller_holds places hs at_).symm.trans held
    exact other (by simpa using mine.symm)
  have en := hs.2.2.2.1
  cases c
  case forkAlloc q np => exact ⟨q, np, .inl rfl⟩
  case forkFails q np => exact ⟨q, np, .inr (.inl rfl)⟩
  case forkReady q np => exact ⟨q, np, .inr (.inr rfl)⟩
  case forkAcquire q np => simp [InnerEnabled, innerAct, Enabled, held] at en
  case exitAcquire q status => simp [InnerEnabled, innerAct, Enabled, held] at en
  case waitAcquire q => simp [InnerEnabled, innerAct, Enabled, held] at en
  all_goals exact absurd rfl unheld

def callRecord (K : Kernel n L) (w : Fin n) (g : Hold) (s : FamilyMachine.State n k L) (c : Call n)
    (t : FamilyMachine.State n k L) : Hold :=
  let u := effect s (storeOf K s c)
  let g' := g.record (K.addr w) K.waitLock (zombieChild w) s (storeOf K s c) u
  match innerAct K s c with
  | some a => g'.record (K.addr w) K.waitLock (zombieChild w) u a t
  | none => g'

lemma raised_store (tree : Tree K s) (hs : Step K s (.call c) t)
    (other : ¬ (w = K.initproc ∧ ∃ p status pp, c = .reparentChild p status pp)) :
    (g.record (K.addr w) K.waitLock (zombieChild w) s (storeOf K s c) (effect s (storeOf K s c))).raised = g.raised :=
  raised_record rfl fun yes => (holds_store tree hs yes).resolve_right other

lemma protocol_other (paid : Paid K w s g) (shape : Shape s) (places : Places K s)
    (ok : Allowed K s a) (hs : SleepMachine.Step s a t) :
    Protocol (K.addr w) K.waitLock (zombieChild w) s g a t where
  asks := by
    cases a <;> try exact trivial
    case sleep q chan l => exact fun e => absurd e (ok.2.2 w)
  raises no yes := by
    rw [holds_other shape ok hs, no] at yes
    cases yes
  wakes drop raised := by
    cases a <;> simp only [drops, decide_eq_true_eq, Bool.false_eq_true] at drop
    case release b l => exact absurd drop ok.2
    case sleepRelease q chan l =>
      subst drop
      have asleep : s.data.prog q = .waitAsleep := by simpa [hs.1.1, Fits] using places.fits q
      have pay := paid q hs.1.2
      simp only [Pay, asleep] at pay
      simp [pay] at raised
    case exitRelease q l =>
      subst drop
      have gone : s.data.prog q = .exited := by simpa [hs.1.1, Fits] using places.fits q
      have pay := paid q hs.1.2
      simp only [Pay, gone] at pay
      exact pay raised

lemma protocol_store (tree : Tree K s) (places : Places K s) (hs : Step K s (.call c) t) :
    Protocol (K.addr w) K.waitLock (zombieChild w) s g (storeOf K s c) (effect s (storeOf K s c)) where
  asks := trivial
  raises no yes := by
    rcases holds_store tree hs yes with was | ⟨-, p, status, pp, rfl⟩
    · simp [no] at was
    · have held := caller_holds places hs rfl
      exact ⟨by simp [held], held.symm⟩
  wakes drop := by simp [storeOf, drops] at drop

lemma protocol_inner (paid : Paid K w s g) (tree : Tree K s)
    (places : Places K s) (scan : Scan K s) (hs : Step K s (.call c) t)
    (hu : u = effect s (storeOf K s c)) (hi : innerAct K s c = some a)
    (rest : SleepMachine.Step u a t) :
    Protocol (K.addr w) K.waitLock (zombieChild w) u
      (g.record (K.addr w) K.waitLock (zombieChild w) s (storeOf K s c) u) a t where
  asks := by
    cases c <;> simp only [innerAct, reduceCtorEq, Option.some.injEq] at hi <;> subst hi <;> try exact trivial
    case waitSleep q =>
      intro e
      obtain rfl := K.addr_inj e
      have held := caller_holds places hs rfl
      subst hu
      refine ⟨rfl, held, ?_⟩
      by_contra yes
      rcases holds_store tree hs (by simpa using yes) with was | ⟨-, p, status, pp, e⟩
      · obtain ⟨r, mine, zombie⟩ := holds_iff.mp was
        have at_ : s.data.prog q = .waitSleep := hs.2.1
        exact scan.seen q r (by simp [at_, scanned]) mine zombie
      · cases e
  raises no yes := by
    rcases holds_inner hi rest yes with was | ⟨p, status, rfl, -⟩
    · simp [no] at was
    · obtain rfl : _ = a := Option.some.inj hi
      have held := rest.1.2.2
      exact ⟨by simp [held], held.symm⟩
  wakes drop raised := by
    subst hu
    cases c <;> simp only [innerAct, reduceCtorEq, Option.some.injEq] at hi <;> subst hi <;>
      simp only [drops, Bool.false_eq_true] at drop
    case forkRelease q np =>
      have at_ : s.data.prog q = .forkParent np := hs.2.1
      have pay := paid q (caller_holds places hs rfl)
      simp only [Pay, at_] at pay
      simp [raised_store tree hs, pay] at raised
    case waitRelease q r =>
      have at_ : s.data.prog q = .waitReturn r := hs.2.1
      have pay := paid q (caller_holds places hs rfl)
      simp only [Pay, at_] at pay
      simp [raised_store tree hs, pay] at raised

lemma noneLost_call (h : NoneLost (K.addr w) K.waitLock (zombieChild w) s g)
    (paid : Paid K w s g) (shape : Shape s) (tree : Tree K s) (places : Places K s)
    (scan : Scan K s) (hs : Step K s (.call c) t) :
    NoneLost (K.addr w) K.waitLock (zombieChild w) t (callRecord K w g s c t) := by
  obtain ⟨u, store, rest⟩ := call_split K hs
  have hu := store.2
  have first := h.step shape store (hu ▸ protocol_store tree places hs)
  unfold callRecord
  cases hi : innerAct K s c with
  | none =>
    rw [hi] at rest
    obtain rfl : t = u := rest
    rwa [hu] at first ⊢
  | some a =>
    rw [hi] at rest
    have second := protocol_inner paid tree places scan hs hu hi rest
    rw [← hu]
    exact first.step (shape.step store) rest second

def acquires : Call n → Bool
  | .forkAcquire .. | .exitAcquire .. | .waitAcquire .. => true
  | _ => false

lemma callRecord_acquires (h : acquires c = true) : callRecord K w g s c t = ⟨false, false⟩ := by
  cases c <;> first | contradiction | simp [callRecord, innerAct, record_of_takes, takes]

lemma callRecord_woke (h : acquires c = false) : (callRecord K w g s c t).woke = g.woke := by
  cases c <;> first | contradiction | simp [callRecord, innerAct, Hold.record, storeOf, takes]

lemma callRecord_raised (tree : Tree K s) (hs : Step K s (.call c) t) (h : acquires c = false)
    (reparent : w = K.initproc → ∀ p status pp, c ≠ .reparentChild p status pp)
    (exit : ∀ p status, c = .exitZombie p status → s.data.parent p ≠ some w) :
    (callRecord K w g s c t).raised = g.raised := by
  have stored := raised_store (g := g) tree hs fun ⟨e, p, status, pp, hc⟩ => reparent e p status pp hc
  obtain ⟨u, store, rest⟩ := call_split K hs
  have hu := store.2
  unfold callRecord
  cases hi : innerAct K s c with
  | none => exact stored
  | some a =>
    rw [hi] at rest
    have untaken : takes K.waitLock a = false := by
      cases c <;> simp only [innerAct, reduceCtorEq, Option.some.injEq] at hi <;> subst hi <;>
        first | contradiction | rfl
    refine (raised_record untaken fun yes => ?_).trans stored
    rw [← hu]
    refine (holds_inner hi rest yes).resolve_right ?_
    rintro ⟨p, status, rfl, mine⟩
    rw [hu] at mine
    exact exit p status rfl mine

lemma holder_before (hs : Step K s (.call c) t) (held : t.holder K.waitLock = some (.thread p))
    (other : acquires c = false) : s.holder K.waitLock = some (.thread p) := by
  obtain ⟨-, -, -, -, rfl⟩ := hs
  cases c <;> first | contradiction | exact held | simp [callEffect, innerEffect, innerAct, effect] at held

lemma Paid.bystander (h : Paid K w s g) (shape : Shape s) (tree : Tree K s) (places : Places K s)
    (hs : Step K s (.call c) t) (held : s.holder K.waitLock = some (.thread p))
    (other : p ≠ c.caller) : Pay K w t (callRecord K w g s c t) p := by
  have unused : ∀ np, s.locked np = false → (s.proc np).state = .unused → p ≠ np := by
    rintro np free none_ rfl
    exact places.holder_ne_of_unused shape p free none_ held
  obtain ⟨q, np, kind⟩ := call_of_bystander places hs held other
  have ⟨prog, pc, parent⟩ : t.data.prog p = s.data.prog p ∧ t.pc (.thread p) = s.pc (.thread p) ∧
    t.data.parent p = s.data.parent p := by
    obtain ⟨-, -, -, en, rfl⟩ := hs
    rcases kind with rfl | rfl | rfl <;> simp only [Call.caller] at other
    · have ne := unused np en.2.1 en.2.2
      simp [callEffect, innerEffect, innerAct, effect, stores, Family.setProg, ne, other, Call.caller]
    · have ne := unused np en.2.1 en.2.2
      simp [callEffect, innerEffect, innerAct, effect, stores, Family.setProg, ne, other, Call.caller]
    · simp [callEffect, innerEffect, innerAct, effect, stores, Family.setProg, other, Call.caller]
  have quiet : acquires c = false := by rcases kind with rfl | rfl | rfl <;> rfl
  have raised : (callRecord K w g s c t).raised = g.raised := by
    refine callRecord_raised tree hs quiet ?_ ?_ <;> rcases kind with rfl | rfl | rfl <;> simp
  have before := h p held
  unfold Pay parentChan at before ⊢
  rwa [prog, pc, parent, raised, callRecord_woke quiet]

lemma Paid.caller (h : Paid K w s g) (tree : Tree K s)
    (hs : Step K s (.call c) t) (held : t.holder K.waitLock = some (.thread c.caller)) :
    Pay K w t (callRecord K w g s c t) c.caller := by
  have prog : t.data.prog c.caller = c.goal s := by
    rw [hs.2.2.2.2]
    simp [callEffect, Family.setProg]
  rcases (acquires c).eq_false_or_eq_true with taken | taken
  · unfold Pay
    rw [prog, callRecord_acquires taken]
    cases c <;> first | contradiction | simp [Call.goal]
  have before := h c.caller (holder_before hs held taken)
  have out := hs.1.2
  have raised := callRecord_raised (g := g) (w := w) tree hs taken
  unfold Pay at before ⊢
  rw [hs.2.1] at before
  rw [prog, callRecord_woke taken]
  cases c <;> simp only [Call.place, Call.goal, Call.caller] at before out ⊢
  case forkAcquire | exitAcquire | waitAcquire => contradiction
  case reparentOther p status pp => exact fun r => before (raised (by simp) (by simp) ▸ r)
  case reparentChild p status pp =>
    have pc : t.pc (.thread p) = .wakeup (K.addr K.initproc) 0 := by
      rw [hs.2.2.2.2]
      simp [callEffect, innerEffect, innerAct, effect]
    rw [pc]
    refine ⟨fun r => ?_, by simp [wakeChan], by simp⟩
    by_cases isInit : w = K.initproc
    · exact .inr isInit
    · exact .inl (before (raised (fun e => absurd e isInit) (by simp) ▸ r))
  case reparentWoken p status i =>
    intro r
    exact (before.1 (raised (by simp) (by simp) ▸ r)).elim id (before.2.2 out)
  case exitWakeup p status =>
    have pc : t.pc (.thread p) = .wakeup (parentChan K s p) 0 := by
      rw [hs.2.2.2.2]
      simp [callEffect, innerEffect, innerAct, effect]
    have chan : parentChan K t p = parentChan K s p := by
      rw [hs.2.2.2.2]
      rfl
    rw [pc, chan]
    exact ⟨fun r => before (raised (by simp) (by simp) ▸ r), by simp [wakeChan], by simp⟩
  case exitZombie p status =>
    intro r
    by_cases mine : s.data.parent p = some w
    · exact before.2.2 out mine
    · refine before.1 (raised (by simp) ?_ ▸ r)
      rintro q status' ⟨⟩
      exact mine
  all_goals exact (raised (by simp) (by simp)).trans before

lemma Paid.call (h : Paid K w s g) (shape : Shape s) (tree : Tree K s) (places : Places K s)
    (hs : Step K s (.call c) t) : Paid K w t (callRecord K w g s c t) := by
  intro p held
  rcases eq_or_ne p c.caller with rfl | other
  · exact h.caller tree hs held
  · refine h.bystander shape tree places hs (holder_before hs held ?_) other
    by_contra taken
    obtain ⟨-, -, -, -, rfl⟩ := hs
    cases c <;> first
      | exact absurd rfl taken
      | (simp [callEffect, innerEffect, innerAct, effect, Call.caller] at held other; exact other held.symm)

end Xv6.FamilyWait
