import Xv6.ProcMachine
import Xv6.Runs

/-! `sleep`, `wakeup` and `kill` of `kernel/proc.c`, with their callers' spinlocks: `n` processes, `k`
CPUs that take interrupts and `L` spinlocks besides the `p->lock`s; `data` is what the callers
share. A `p->lock` carried across several steps by its own thread is `locked`; any other critical
section of one is a step, enabled while it is not. A step that would panic is not enabled. The
scheduler is seen only in `dispatch` and `sched`, so any number of CPUs may run processes. -/

namespace Xv6.SleepMachine

open ProcMachine (ProcState)

structure Proc where
  state : ProcState
  chan : UInt64
  killed : Bool
  pid : Int32
  deriving DecidableEq

/-- The kernel thread of a process, or the handler of an interrupt on a CPU. -/
inductive Agent (n k : Nat)
  | thread (p : Fin n)
  | handler (c : Fin k)
  deriving DecidableEq

/-- Where an agent is: outside the functions modelled here, in one of the stages of
`sleep` or `exit`, or in the loop of `wakeup` or `kill`. -/
inductive Pc (L : Nat)
  | out
  | sleepLocked (chan : UInt64) (lk : Fin L)
  | sleepReleased (chan : UInt64) (lk : Fin L)
  | sleeping (lk : Fin L)
  | sleepTidied (lk : Fin L)
  | sleepReacquire (lk : Fin L)
  | exitLocked (lk : Fin L)
  | exitReleased
  | wakeup (chan : UInt64) (i : Nat)
  | kill (pid : Int32) (i : Nat)
  deriving DecidableEq

@[grind]
def Pc.preemptible {L : Nat} : Pc L → Bool
  | .out | .sleepReacquire _ | .wakeup .. | .kill .. => true
  | _ => false

@[grind]
def Pc.inSleep {L : Nat} : Pc L → Option (Fin L)
  | .sleepLocked _ lk | .sleepReleased _ lk | .sleeping lk | .sleepTidied lk
  | .sleepReacquire lk => some lk
  | _ => none

/-- `intr c` is the interrupt in service on CPU `c`, with the process it interrupts. -/
structure State (n k L : Nat) (σ : Type) where
  proc : Fin n → Proc
  locked : Fin n → Bool
  holder : Fin L → Option (Agent n k)
  pc : Agent n k → Pc L
  intr : Fin k → Option (Option (Fin n))
  data : σ

inductive Act (n k L : Nat) (σ : Type)
  | acquire (a : Agent n k) (l : Fin L)
  | release (a : Agent n k) (l : Fin L)
  | store (a : Agent n k) (d : σ)
  | sleep (p : Fin n) (chan : UInt64) (lk : Fin L)
  | sleepRelease (p : Fin n) (chan : UInt64) (lk : Fin L)
  | sleepState (p : Fin n) (chan : UInt64) (lk : Fin L)
  | sched (p : Fin n)
  | dispatch (p : Fin n)
  | tidy (p : Fin n) (lk : Fin L)
  | unlock (p : Fin n) (lk : Fin L)
  | reacquire (p : Fin n) (lk : Fin L)
  | yield (p : Fin n)
  | wakeup (a : Agent n k) (chan : UInt64)
  | wakeupVisit (a : Agent n k) (chan : UInt64) (i : Fin n)
  | wakeupDone (a : Agent n k) (chan : UInt64)
  | kill (p : Fin n) (pid : Int32)
  | killVisit (p : Fin n) (pid : Int32) (i : Fin n)
  | killDone (p : Fin n) (pid : Int32)
  | interrupt (c : Fin k) (m : Option (Fin n))
  | iret (c : Fin k)
  | alloc (p q : Fin n) (pid : Int32) (ok : Bool)
  | ready (p q : Fin n)
  | exit (p : Fin n) (lk : Fin L)
  | exitRelease (p : Fin n) (lk : Fin L)
  | reap (p q : Fin n)

variable {n k L : Nat} {σ : Type}

section
variable (s : State n k L σ)

@[grind]
def Awake : Agent n k → Prop
  | .thread p => (s.proc p).state = .running ∧ ∀ c, s.intr c ≠ some (some p)
  | .handler c => (s.intr c).isSome

instance : (a : Agent n k) → Decidable (Awake s a)
  | .thread p => inferInstanceAs (Decidable ((s.proc p).state = .running ∧ _))
  | .handler c => inferInstanceAs (Decidable ((s.intr c).isSome = true))

@[grind]
def Free (a : Agent n k) : Prop := Awake s a ∧ s.pc a = .out

instance (a : Agent n k) : Decidable (Free s a) :=
  inferInstanceAs (Decidable (_ ∧ _))

@[grind]
def Unheld (a : Agent n k) : Prop := ∀ l, s.holder l ≠ some a

instance (a : Agent n k) : Decidable (Unheld s a) :=
  inferInstanceAs (Decidable (∀ l, s.holder l ≠ some a))

/-- A thread that a timer or device interrupt may find on its CPU. -/
@[grind]
def Interruptible (p : Fin n) : Prop :=
  Awake s (.thread p) ∧ s.locked p = false ∧ (s.pc (.thread p)).preemptible = true ∧
    Unheld s (.thread p)

instance (p : Fin n) : Decidable (Interruptible s p) :=
  inferInstanceAs (Decidable (_ ∧ _))

@[grind]
def myproc : Agent n k → Option (Fin n)
  | .thread p => some p
  | .handler c => (s.intr c).join

@[grind]
def Pc.isSleeping : Pc L → Bool
  | .sleeping _ => true
  | _ => false

def Enabled : Act n k L σ → Prop
  | .acquire a l => Free s a ∧ s.holder l = none
  | .release a l => Free s a ∧ s.holder l = some a
  | .store a _ => Free s a
  | .sleep p _ _ => Free s (.thread p) ∧ s.locked p = false
  | .sleepRelease p chan lk =>
    s.pc (.thread p) = .sleepLocked chan lk ∧ s.holder lk = some (.thread p)
  | .sleepState p chan lk => s.pc (.thread p) = .sleepReleased chan lk
  | .sched p =>
    ((s.pc (.thread p)).isSleeping = true ∨ s.pc (.thread p) = .exitReleased) ∧
      s.locked p = true ∧ (s.proc p).state ≠ .running ∧ Unheld s (.thread p)
  | .dispatch p => (s.proc p).state = .runnable ∧ s.locked p = false
  | .tidy p lk =>
    s.pc (.thread p) = .sleeping lk ∧ (s.proc p).state = .running ∧ s.locked p = true
  | .unlock p lk => s.pc (.thread p) = .sleepTidied lk
  | .reacquire p lk =>
    s.pc (.thread p) = .sleepReacquire lk ∧ Awake s (.thread p) ∧ s.holder lk = none
  | .yield p => Interruptible s p
  | .wakeup a _ => Free s a
  | .wakeupVisit a chan i =>
    Awake s a ∧ s.pc a = .wakeup chan i ∧ (myproc s a = some i ∨ s.locked i = false)
  | .wakeupDone a chan => Awake s a ∧ s.pc a = .wakeup chan n
  | .kill p _ => Free s (.thread p)
  | .killVisit p pid i =>
    Awake s (.thread p) ∧ s.pc (.thread p) = .kill pid i ∧ s.locked i = false
  | .killDone p pid => Awake s (.thread p) ∧ s.pc (.thread p) = .kill pid n
  | .interrupt c m =>
    s.intr c = none ∧ s.pc (.handler c) = .out ∧ ∀ p, m = some p → Interruptible s p
  | .iret c => Free s (.handler c) ∧ Unheld s (.handler c)
  | .alloc p q _ _ =>
    Free s (.thread p) ∧ s.locked q = false ∧ (s.proc q).state = .unused
  | .ready p q => Free s (.thread p) ∧ s.locked q = false ∧ (s.proc q).state = .used
  | .exit p lk => Free s (.thread p) ∧ s.locked p = false ∧ s.holder lk = some (.thread p)
  | .exitRelease p lk => s.pc (.thread p) = .exitLocked lk ∧ s.holder lk = some (.thread p)
  | .reap p q => Free s (.thread p) ∧ s.locked q = false ∧ (s.proc q).state = .zombie

instance : (a : Act n k L σ) → Decidable (Enabled s a)
  | .store a _ | .wakeup a _ => inferInstanceAs (Decidable (Free s a))
  | .kill p _ => inferInstanceAs (Decidable (Free s (.thread p)))
  | .sleepState p chan lk =>
    inferInstanceAs (Decidable (s.pc (.thread p) = .sleepReleased chan lk))
  | .unlock p lk => inferInstanceAs (Decidable (s.pc (.thread p) = .sleepTidied lk))
  | .yield p => inferInstanceAs (Decidable (Interruptible s p))
  | .acquire .. | .release .. | .sleep .. | .sleepRelease .. | .sched .. | .dispatch ..
  | .tidy .. | .reacquire .. | .wakeupVisit .. | .wakeupDone .. | .killVisit .. | .killDone ..
  | .interrupt .. | .iret .. | .alloc .. | .ready .. | .exit .. | .exitRelease .. | .reap .. =>
    inferInstanceAs (Decidable (_ ∧ _))

end

section
variable (s : State n k L σ)

@[simps]
def State.setProc (q : Fin n) (p : Proc) : State n k L σ :=
  { s with proc := Function.update s.proc q p }

@[simps]
def State.setPc (a : Agent n k) (pc : Pc L) : State n k L σ :=
  { s with pc := Function.update s.pc a pc }

@[simps]
def State.setLocked (q : Fin n) (b : Bool) : State n k L σ :=
  { s with locked := Function.update s.locked q b }

@[simps]
def State.setHolder (l : Fin L) (a : Option (Agent n k)) : State n k L σ :=
  { s with holder := Function.update s.holder l a }

@[simps]
def State.setIntr (c : Fin k) (m : Option (Option (Fin n))) : State n k L σ :=
  { s with intr := Function.update s.intr c m }

@[grind]
def wake (p : Proc) : Proc :=
  if p.state = .sleeping then { p with state := .runnable } else p

@[grind]
def freeproc (p : Proc) : Proc :=
  { p with state := .unused, chan := 0, killed := false, pid := 0 }

@[grind]
def wakeupSlot (me : Option (Fin n)) (chan : UInt64) (i : Fin n) : Proc :=
  if me ≠ some i ∧ (s.proc i).chan = chan then wake (s.proc i) else s.proc i

def effect : Act n k L σ → State n k L σ
  | .acquire a l => s.setHolder l (some a)
  | .release _ l => s.setHolder l none
  | .store _ d => { s with data := d }
  | .sleep p chan lk => (s.setLocked p true).setPc (.thread p) (.sleepLocked chan lk)
  | .sleepRelease p chan lk => (s.setHolder lk none).setPc (.thread p) (.sleepReleased chan lk)
  | .sleepState p chan lk =>
    (s.setProc p { s.proc p with chan := chan, state := .sleeping }).setPc (.thread p)
      (.sleeping lk)
  | .sched p => s.setLocked p false
  -- a thread that slept resumes inside `sleep` and holds its lock
  | .dispatch p =>
    (s.setProc p { s.proc p with state := .running }).setLocked p
      (s.pc (.thread p)).isSleeping
  | .tidy p lk =>
    (s.setProc p { s.proc p with chan := 0 }).setPc (.thread p) (.sleepTidied lk)
  | .unlock p lk => (s.setLocked p false).setPc (.thread p) (.sleepReacquire lk)
  | .reacquire p lk => (s.setHolder lk (some (.thread p))).setPc (.thread p) .out
  | .yield p => s.setProc p { s.proc p with state := .runnable }
  | .wakeup a chan => s.setPc a (.wakeup chan 0)
  | .wakeupVisit a chan i =>
    (s.setProc i (wakeupSlot s (myproc s a) chan i)).setPc a (.wakeup chan (i + 1))
  | .wakeupDone a _ => s.setPc a .out
  | .kill p pid => s.setPc (.thread p) (.kill pid 0)
  | .killVisit p pid i =>
    if (s.proc i).pid = pid then
      (s.setProc i { wake (s.proc i) with killed := true }).setPc (.thread p) .out
    else s.setPc (.thread p) (.kill pid (i + 1))
  | .killDone p _ => s.setPc (.thread p) .out
  | .interrupt c m => s.setIntr c (some m)
  | .iret c => s.setIntr c none
  | .alloc _ q pid ok =>
    if ok then (s.setProc q { s.proc q with state := .used, pid := pid }).setPc (.thread q) .out
    else s.setProc q (freeproc (s.proc q))
  | .ready _ q => s.setProc q { s.proc q with state := .runnable }
  | .exit p lk =>
    ((s.setProc p { s.proc p with state := .zombie }).setLocked p true).setPc (.thread p)
      (.exitLocked lk)
  | .exitRelease p lk => (s.setHolder lk none).setPc (.thread p) .exitReleased
  | .reap _ q => s.setProc q (freeproc (s.proc q))

end

def Step (s : State n k L σ) (a : Act n k L σ) (t : State n k L σ) : Prop :=
  Enabled s a ∧ t = effect s a

def next (s : State n k L σ) (a : Act n k L σ) : Option (State n k L σ) :=
  if Enabled s a then some (effect s a) else none

lemma step_of_next {s t : State n k L σ} {a : Act n k L σ} (h : next s a = some t) : Step s a t := by
  unfold next at h
  split at h
  · exact ⟨‹_›, (Option.some.inj h).symm⟩
  · cases h

variable {s : State n k L σ} {a : Act n k L σ}

lemma enabled_data (d) : Enabled { s with data := d } a ↔ Enabled s a := by
  cases a <;> exact Iff.rfl

lemma effect_data (h : ∀ b d, a ≠ .store b d) (d) : effect { s with data := d } a = { effect s a with data := d } := by
  cases a
  case store b d => exact absurd rfl (h b d)
  case killVisit p pid i =>
    simp only [effect]
    split <;> rfl
  case alloc p q pid ok =>
    cases ok <;> rfl
  all_goals rfl

/-- The processes of `live`, with their pids, are runnable and outside the functions
modelled here; no lock is held and no interrupt is in service. -/
def start (live : Fin n → Option Int32) (d : σ) : State n k L σ where
  proc p :=
    match live p with
    | some pid => ⟨.runnable, 0, false, pid⟩
    | none => ⟨.unused, 0, false, 0⟩
  locked _ := false
  holder _ := none
  pc _ := .out
  intr _ := none
  data := d

lemma start_not_sleeping (live d p) : ((start live d : State n k L σ).proc p).state ≠ .sleeping := by
  simp only [start]
  split <;> simp

end Xv6.SleepMachine
