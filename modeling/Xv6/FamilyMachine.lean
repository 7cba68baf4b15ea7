import Xv6.SleepMachine

/-! `fork`, `exit`, `reparent` and `wait` of `kernel/proc.c` as programs over the machine of `sleep`
and `wakeup`: a step of a call stores into fields that `wait_lock` protects and takes at most one
step of that machine; the branches of a test are steps of their own. All other steps of the kernel
may come in between, as long as they leave `wait_lock` and the channels of `wait` alone. -/

namespace Xv6.FamilyMachine

open SleepMachine (Agent Free)

structure Kernel (n L : Nat) where
  addr : Fin n → UInt64
  addr_inj : Function.Injective addr
  waitLock : Fin L
  initproc : Fin n

/-- Where the thread of a process is in `fork`, `exit` or `wait`. -/
inductive Prog (n : Nat)
  | idle
  | forkChild (np : Fin n)
  | forkLocked (np : Fin n)
  | forkParent (np : Fin n)
  | forkReady (np : Fin n)
  | exitReparent (status : Int32) (i : Nat)
  | exitReparented (status : Int32) (i : Nat)
  | exitWakeup (status : Int32)
  | exited
  | waitScan (i : Nat) (havekids : Bool)
  | waitSleep
  | waitAsleep
  | waitReturn (r : Int32)
  deriving DecidableEq

/-- A process that has exited; `born` tells apart the processes of one slot. -/
structure Exited where
  born : Nat
  pid : Int32
  status : Int32

/-- A `wait` that has returned the pid of a child and, unless its address was `0`,
copied out the status. -/
structure Reaped (n : Nat) where
  born : Nat
  caller : Fin n
  pid : Int32
  status : Option Int32

structure Family (n : Nat) where
  parent : Fin n → Option (Fin n)
  xstate : Fin n → Int32
  nextpid : Int32
  prog : Fin n → Prog n
  count : Nat
  born : Fin n → Nat
  exits : List Exited
  reaps : List (Reaped n)

abbrev State (n k L : Nat) := SleepMachine.State n k L (Family n)

/-- The steps of the calls; the parameters beyond the caller say where it is. -/
inductive Call (n : Nat)
  | forkAlloc (p np : Fin n)
  | forkFails (p np : Fin n)
  | forkAcquire (p np : Fin n)
  | forkSetParent (p np : Fin n)
  | forkRelease (p np : Fin n)
  | forkReady (p np : Fin n)
  | exitAcquire (p : Fin n) (status : Int32)
  | reparentOther (p : Fin n) (status : Int32) (pp : Fin n)
  | reparentChild (p : Fin n) (status : Int32) (pp : Fin n)
  | reparentWoken (p : Fin n) (status : Int32) (i : Nat)
  | exitWakeup (p : Fin n) (status : Int32)
  | exitZombie (p : Fin n) (status : Int32)
  | waitAcquire (p : Fin n)
  | waitOther (p : Fin n) (havekids : Bool) (pp : Fin n)
  | waitChild (p : Fin n) (havekids : Bool) (pp : Fin n)
  | waitReap (p : Fin n) (havekids : Bool) (pp : Fin n) (copied : Bool)
  | waitCopyFails (p : Fin n) (havekids : Bool) (pp : Fin n)
  | waitNone (p : Fin n) (havekids : Bool)
  | waitBlock (p : Fin n)
  | waitSleep (p : Fin n)
  | waitAgain (p : Fin n)
  | waitRelease (p : Fin n) (r : Int32)

inductive Act (n k L : Nat)
  | other (a : SleepMachine.Act n k L (Family n))
  | call (c : Call n)

variable {n k L : Nat} (K : Kernel n L) (s : State n k L)

def Outside : Agent n k → Prop
  | .thread p => s.data.prog p = .idle
  | .handler _ => True

instance : (a : Agent n k) → Decidable (Outside s a)
  | .thread p => inferInstanceAs (Decidable (s.data.prog p = .idle))
  | .handler _ => isTrue trivial

/-- The steps of the rest of the kernel, and those that carry on inside `sleep`,
`wakeup` and `sched`. -/
def Allowed : SleepMachine.Act n k L (Family n) → Prop
  | .acquire a l | .release a l => Outside s a ∧ l ≠ K.waitLock
  | .sleep p chan l => Outside s (.thread p : Agent n k) ∧ l ≠ K.waitLock ∧ ∀ q, chan ≠ K.addr q
  | .wakeup a _ => Outside s a
  | .kill p _ => Outside s (.thread p : Agent n k)
  | .store .. | .alloc .. | .ready .. | .exit .. | .reap .. => False
  | _ => True

instance : (a : SleepMachine.Act n k L (Family n)) → Decidable (Allowed K s a)
  | .acquire .. | .release .. | .sleep .. => inferInstanceAs (Decidable (_ ∧ _))
  | .wakeup a _ => inferInstanceAs (Decidable (Outside s a))
  | .kill p _ => inferInstanceAs (Decidable (Outside s (.thread p : Agent n k)))
  | .store .. | .alloc .. | .ready .. | .exit .. | .reap .. => isFalse id
  | .sleepRelease .. | .sleepState .. | .sched .. | .dispatch .. | .tidy .. | .unlock ..
  | .reacquire .. | .yield .. | .wakeupVisit .. | .wakeupDone .. | .killVisit .. | .killDone ..
  | .interrupt .. | .iret .. | .exitRelease .. => isTrue trivial

def Call.caller : Call n → Fin n
  | .forkAlloc p .. | .forkFails p .. | .forkAcquire p .. | .forkSetParent p ..
  | .forkRelease p .. | .forkReady p .. | .exitAcquire p .. | .reparentOther p ..
  | .reparentChild p .. | .reparentWoken p .. | .exitWakeup p .. | .exitZombie p ..
  | .waitAcquire p | .waitOther p .. | .waitChild p .. | .waitReap p .. | .waitCopyFails p ..
  | .waitNone p .. | .waitBlock p | .waitSleep p | .waitAgain p | .waitRelease p .. => p

def Call.place : Call n → Prog n
  | .forkAlloc .. | .forkFails .. | .exitAcquire .. | .waitAcquire .. => .idle
  | .forkAcquire _ np => .forkChild np
  | .forkSetParent _ np => .forkLocked np
  | .forkRelease _ np => .forkParent np
  | .forkReady _ np => .forkReady np
  | .reparentOther _ status pp | .reparentChild _ status pp => .exitReparent status pp
  | .reparentWoken _ status i => .exitReparented status i
  | .exitWakeup _ status => .exitReparent status n
  | .exitZombie _ status => .exitWakeup status
  | .waitOther _ havekids pp | .waitChild _ havekids pp | .waitReap _ havekids pp _
  | .waitCopyFails _ havekids pp => .waitScan pp havekids
  | .waitNone _ havekids => .waitScan n havekids
  | .waitBlock _ => .waitScan n true
  | .waitSleep _ => .waitSleep
  | .waitAgain _ => .waitAsleep
  | .waitRelease _ r => .waitReturn r

/-- The tests of the step, besides its place; `p->lock` is taken where the source
takes it. -/
def Passes : Call n → Prop
  | .exitAcquire p _ => p ≠ K.initproc
  | .reparentOther p _ pp | .waitOther p _ pp => s.data.parent pp ≠ some p
  | .reparentChild p _ pp => s.data.parent pp = some p
  | .waitChild p _ pp =>
    s.data.parent pp = some p ∧ s.locked pp = false ∧ (s.proc pp).state ≠ .zombie
  | .waitReap p _ pp _ | .waitCopyFails p _ pp =>
    s.data.parent pp = some p ∧ s.locked pp = false ∧ (s.proc pp).state = .zombie
  | .waitNone p havekids => s.locked p = false ∧ (havekids = false ∨ (s.proc p).killed = true)
  | .waitBlock p => s.locked p = false ∧ (s.proc p).killed = false
  | _ => True

instance : (c : Call n) → Decidable (Passes K s c)
  | .exitAcquire p _ => inferInstanceAs (Decidable (p ≠ K.initproc))
  | .reparentOther p _ pp | .waitOther p _ pp =>
    inferInstanceAs (Decidable (s.data.parent pp ≠ some p))
  | .reparentChild p _ pp => inferInstanceAs (Decidable (s.data.parent pp = some p))
  | .waitChild .. | .waitReap .. | .waitCopyFails .. | .waitNone .. | .waitBlock .. =>
    inferInstanceAs (Decidable (_ ∧ _))
  | .forkAlloc .. | .forkFails .. | .forkAcquire .. | .forkSetParent .. | .forkRelease ..
  | .forkReady .. | .reparentWoken .. | .exitWakeup .. | .exitZombie .. | .waitAcquire ..
  | .waitSleep .. | .waitAgain .. | .waitRelease .. => isTrue trivial

def Call.goal : Call n → Prog n
  | .forkAlloc _ np => .forkChild np
  | .forkAcquire _ np => .forkLocked np
  | .forkSetParent _ np => .forkParent np
  | .forkRelease _ np => .forkReady np
  | .forkFails .. | .forkReady .. | .waitRelease .. => .idle
  | .exitAcquire _ status => .exitReparent status 0
  | .reparentOther _ status pp => .exitReparent status (pp + 1)
  | .reparentChild _ status pp => .exitReparented status pp
  | .reparentWoken _ status i => .exitReparent status (i + 1)
  | .exitWakeup _ status => .exitWakeup status
  | .exitZombie .. => .exited
  | .waitAcquire _ | .waitAgain _ => .waitScan 0 false
  | .waitOther _ havekids pp => .waitScan (pp + 1) havekids
  | .waitChild _ _ pp => .waitScan (pp + 1) true
  | .waitReap _ _ pp _ => .waitReturn (s.proc pp).pid
  | .waitCopyFails .. | .waitNone .. => .waitReturn (-1)
  | .waitBlock _ => .waitSleep
  | .waitSleep _ => .waitAsleep

def stores : Call n → Family n
  | .forkAlloc _ np =>
    { s.data with
      nextpid := s.data.nextpid + 1
      prog := Function.update s.data.prog np .idle
      count := s.data.count + 1
      born := Function.update s.data.born np s.data.count }
  | .forkFails _ np =>
    { s.data with
      nextpid := s.data.nextpid + 1
      parent := Function.update s.data.parent np none
      xstate := Function.update s.data.xstate np 0 }
  | .forkSetParent p np => { s.data with parent := Function.update s.data.parent np (some p) }
  | .reparentChild _ _ pp =>
    { s.data with parent := Function.update s.data.parent pp (some K.initproc) }
  | .exitZombie p status =>
    { s.data with
      xstate := Function.update s.data.xstate p status
      exits := ⟨s.data.born p, (s.proc p).pid, status⟩ :: s.data.exits }
  | .waitReap p _ pp copied =>
    { s.data with
      parent := Function.update s.data.parent pp none
      xstate := Function.update s.data.xstate pp 0
      reaps := ⟨s.data.born pp, p, (s.proc pp).pid,
        if copied then some (s.data.xstate pp) else none⟩ :: s.data.reaps }
  | _ => s.data

def Family.setProg (d : Family n) (p : Fin n) (prog : Prog n) : Family n :=
  { d with prog := Function.update d.prog p prog }

def parentChan (p : Fin n) : UInt64 :=
  match s.data.parent p with
  | some w => K.addr w
  | none => 0

def innerAct : Call n → Option (SleepMachine.Act n k L (Family n))
  | .forkAlloc p np => some (.alloc p np s.data.nextpid true)
  | .forkFails p np => some (.alloc p np s.data.nextpid false)
  | .forkAcquire p _ | .exitAcquire p _ | .waitAcquire p => some (.acquire (.thread p) K.waitLock)
  | .forkRelease p _ | .waitRelease p _ => some (.release (.thread p) K.waitLock)
  | .forkReady p np => some (.ready p np)
  | .reparentChild p _ _ => some (.wakeup (.thread p) (K.addr K.initproc))
  | .exitWakeup p _ => some (.wakeup (.thread p) (parentChan K s p))
  | .exitZombie p _ => some (.exit p K.waitLock)
  | .waitReap p _ pp _ => some (.reap p pp)
  | .waitSleep p => some (.sleep p (K.addr p) K.waitLock)
  | .forkSetParent .. | .reparentOther .. | .reparentWoken .. | .waitOther .. | .waitChild ..
  | .waitCopyFails .. | .waitNone .. | .waitBlock .. | .waitAgain .. => none

def InnerEnabled : Option (SleepMachine.Act n k L (Family n)) → Prop
  | some a => SleepMachine.Enabled s a
  | none => True

instance : (a : Option (SleepMachine.Act n k L (Family n))) → Decidable (InnerEnabled s a)
  | some a => inferInstanceAs (Decidable (SleepMachine.Enabled s a))
  | none => isTrue trivial

def innerEffect : Option (SleepMachine.Act n k L (Family n)) → State n k L
  | some a => SleepMachine.effect s a
  | none => s

def callEffect (c : Call n) : State n k L :=
  { innerEffect s (innerAct K s c) with data := (stores K s c).setProg c.caller (c.goal s) }

def Step (s : State n k L) : Act n k L → State n k L → Prop
  | .other a, t => Allowed K s a ∧ SleepMachine.Step s a t
  | .call c, t =>
    Free s (.thread c.caller) ∧ s.data.prog c.caller = c.place ∧ Passes K s c ∧
      InnerEnabled s (innerAct K s c) ∧ t = callEffect K s c

def next (s : State n k L) : Act n k L → Option (State n k L)
  | .other a => if Allowed K s a then SleepMachine.next s a else none
  | .call c =>
    if Free s (.thread c.caller) ∧ s.data.prog c.caller = c.place ∧ Passes K s c ∧
      InnerEnabled s (innerAct K s c) then
      some (callEffect K s c)
    else none

lemma step_of_next {s t : State n k L} {a : Act n k L} (h : next K s a = some t) : Step K s a t := by
  cases a with
  | other a =>
    simp only [next] at h
    split at h
    · exact ⟨‹_›, SleepMachine.step_of_next h⟩
    · cases h
  | call c =>
    simp only [next] at h
    split at h
    · rename_i guard
      exact ⟨guard.1, guard.2.1, guard.2.2.1, guard.2.2.2, (Option.some.inj h).symm⟩
    · cases h

lemma inner_not_store {s : State n k L} {c : Call n}
    {a : SleepMachine.Act n k L (Family n)} (h : innerAct K s c = some a) (b : Agent n k)
    (d : Family n) : a ≠ .store b d := by
  cases c <;> simp only [innerAct, reduceCtorEq, Option.some.injEq] at h
  all_goals simp [← h]

def storeOf (s : State n k L) (c : Call n) : SleepMachine.Act n k L (Family n) :=
  .store (.thread c.caller) ((stores K s c).setProg c.caller (c.goal s))

lemma call_split {s t : State n k L} {c : Call n} (hs : Step K s (.call c) t) :
    ∃ u, SleepMachine.Step s (storeOf K s c) u ∧
      match innerAct K s c with
      | some a => SleepMachine.Step u a t
      | none => t = u := by
  obtain ⟨free, -, -, en, rfl⟩ := hs
  refine ⟨_, ⟨free, rfl⟩, ?_⟩
  cases hi : innerAct K s c with
  | none => simp [callEffect, innerEffect, hi, storeOf, SleepMachine.effect]
  | some a =>
    rw [hi] at en
    refine ⟨(SleepMachine.enabled_data _).mpr en, ?_⟩
    rw [storeOf, SleepMachine.effect, SleepMachine.effect_data (inner_not_store K hi)]
    simp only [callEffect, innerEffect, hi]

def boot : State n k L :=
  SleepMachine.start (fun p => if p = K.initproc then some 1 else none)
    { parent _ := none
      xstate _ := 0
      nextpid := 2
      prog _ := .idle
      count := 1
      born _ := 0
      exits := []
      reaps := [] }

end Xv6.FamilyMachine
