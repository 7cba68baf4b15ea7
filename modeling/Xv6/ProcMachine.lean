import Mathlib.Data.Fintype.Basic
import Xv6.Params

/-! The process table and the schedulers of `kernel/proc.c`, for `n` slots and `k` CPUs, by critical
sections of `p->lock`: one that is handed across `swtch` is held over several steps, any other is
one step, enabled while the lock is free. A CPU runs its scheduler loop or the kernel thread of a
process; `Ctl` says where. `swtch` out of a thread is a step of its own: `saved` says that the
stored context is complete, and no step tests it. -/

namespace Xv6.ProcMachine

inductive ProcState
  | unused | used | sleeping | runnable | running | zombie
  deriving DecidableEq, Repr

/-- `DEFAULT`, `CPU_BOUND` and `IO_BOUND` of `kernel/fcntl.h`. -/
def defaultType : Int32 := 1
def cpuBound : Int32 := 2
def ioBound : Int32 := 3

structure Proc (n : Nat) where
  state : ProcState
  chan : UInt64
  killed : Bool
  xstate : Int32
  pid : Int32
  parent : Option (Fin n)
  type : Int32
  tempoTotal : UInt32

/-- Where `swtch` resumes a kernel thread. -/
inductive Resume
  | forkret | yield | sleep | exit
  deriving DecidableEq, Repr

structure Found (n : Nat) where
  cpuProc : Option (Fin n) := none
  ioProc : Option (Fin n) := none
  defaultProc : Option (Fin n) := none
  deriving DecidableEq

/-- The scheduler scans, has chosen, or is at the test of its inner loop with
the lock held; or the thread of `p` runs: still holding its lock after
`swtch`, free of it, or about to `swtch` away; or it is back in the scheduler. -/
inductive Ctl (n : Nat)
  | scan (i : Nat) (found : Found n)
  | chosen (runProc : Option (Fin n))
  | test (runProc : Fin n)
  | resume (p : Fin n) (from_ : Resume) (tempoInicio : UInt32)
  | user (p : Fin n) (tempoInicio : UInt32)
  | leaving (p : Fin n) (to_ : Resume) (tempoInicio : UInt32)
  | back (p : Fin n) (tempoInicio : UInt32)
  deriving DecidableEq

/-- `lock p` is the CPU that holds `p->lock`, `context p` says where the stored
context of the thread of `p` resumes, and `current c` is `c->proc`. -/
structure State (n k : Nat) where
  proc : Fin n → Proc n
  lock : Fin n → Option (Fin k)
  context : Fin n → Resume
  saved : Fin n → Bool
  current : Fin k → Option (Fin n)
  ctl : Fin k → Ctl n
  initproc : Fin n
  nextpid : Int32
  ticks : UInt32

variable {n k : Nat}

def Found.visit (found : Found n) (q : Fin n) (p : Proc n) : Found n :=
  if p.state = .runnable then
    if p.type = cpuBound ∧ found.cpuProc = none then { found with cpuProc := some q }
    else if p.type = ioBound ∧ found.ioProc = none then { found with ioProc := some q }
    else if p.type = defaultType ∧ found.defaultProc = none then { found with defaultProc := some q }
    else found
  else found

def Found.runProc (found : Found n) : Option (Fin n) :=
  if found.cpuProc.isSome ∨ found.ioProc.isSome then
    if found.ioProc.isSome then found.ioProc else found.cpuProc
  else found.defaultProc

def freeproc (p : Proc n) : Proc n :=
  { p with state := .unused, chan := 0, killed := false, xstate := 0, pid := 0, parent := none }

def allocproc (p : Proc n) (pid : Int32) : Proc n :=
  { p with state := .used, pid := pid, tempoTotal := 0, type := defaultType }

def wake (p : Proc n) : Proc n :=
  if p.state = .sleeping then { p with state := .runnable } else p

section
variable (s : State n k)

@[simps]
def State.setProc (q : Fin n) (p : Proc n) : State n k :=
  { s with proc := Function.update s.proc q p }

@[simps]
def State.setCtl (c : Fin k) (ctl : Ctl n) : State n k :=
  { s with ctl := Function.update s.ctl c ctl }

@[simps]
def State.setLock (q : Fin n) (holder : Option (Fin k)) : State n k :=
  { s with lock := Function.update s.lock q holder }

@[simps]
def State.setCurrent (c : Fin k) (p : Option (Fin n)) : State n k :=
  { s with current := Function.update s.current c p }

@[simps]
def State.saveContext (q : Fin n) (at_ : Resume) : State n k :=
  { s with context := Function.update s.context q at_, saved := Function.update s.saved q true }

@[simps]
def State.leaveContext (q : Fin n) : State n k :=
  { s with saved := Function.update s.saved q false }

end

def Ctl.interruptible : Ctl n → Bool
  | .scan _ _ | .chosen _ | .user _ _ => true
  | _ => false

/-- The process whose thread runs on the CPU, outside any critical section. -/
def Ctl.running : Ctl n → Option (Fin n)
  | .user p _ => some p
  | _ => none

inductive Act (n k : Nat)
  | visit (c : Fin k)
  | choose (c : Fin k)
  | wfi (c : Fin k)
  | acquire (c : Fin k)
  | dispatch (c : Fin k)
  | release (c : Fin k)
  | resumed (c : Fin k)
  | yield (c : Fin k)
  | sleep (c : Fin k) (chan : UInt64)
  | exit (c : Fin k) (status : Int32)
  | swtch (c : Fin k)
  | account (c : Fin k)
  | wakeup (c : Fin k) (q : Fin n) (chan : UInt64)
  | kill (c : Fin k) (q : Fin n) (pid : Int32)
  | alloc (c : Fin k) (q : Fin n) (ok : Bool)
  | setParent (c : Fin k) (q : Fin n)
  | makeRunnable (c : Fin k) (q : Fin n)
  | reap (c : Fin k) (q : Fin n)
  | setType (c : Fin k) (type pid : Int32)
  | tick (c : Fin k)

section
variable (s : State n k) (c : Fin k)

def visit : Option (State n k) :=
  match s.ctl c with
  | .scan i found =>
    if h : i < n then
      if s.lock ⟨i, h⟩ = none then
        some (s.setCtl c (.scan (i + 1) (found.visit ⟨i, h⟩ (s.proc ⟨i, h⟩))))
      else none
    else none
  | _ => none

def choose : Option (State n k) :=
  match s.ctl c with
  | .scan i found => if i < n then none else some (s.setCtl c (.chosen found.runProc))
  | _ => none

def wfi : Option (State n k) :=
  match s.ctl c with
  | .chosen none => some (s.setCtl c (.scan 0 {}))
  | _ => none

def acquireRunProc : Option (State n k) :=
  match s.ctl c with
  | .chosen (some r) =>
    if s.lock r = none then some ((s.setLock r (some c)).setCtl c (.test r)) else none
  | _ => none

/-- The body of the inner loop, up to the first instruction of the thread. -/
def dispatch : Option (State n k) :=
  match s.ctl c with
  | .test r =>
    if (s.proc r).state = .runnable then
      some ((((s.setProc r { s.proc r with state := .running }).setCurrent c (some r)).leaveContext
        r).setCtl c (.resume r (s.context r) s.ticks))
    else none
  | _ => none

def releaseRunProc : Option (State n k) :=
  match s.ctl c with
  | .test r =>
    if (s.proc r).state = .runnable then none
    else some ((s.setLock r none).setCtl c (.scan 0 {}))
  | _ => none

def account : Option (State n k) :=
  match s.ctl c with
  | .back p tempoInicio =>
    some (((s.setProc p { s.proc p with
      tempoTotal := (s.proc p).tempoTotal + (s.ticks - tempoInicio) }).setCurrent c none).setCtl c
        (.test p))
  | _ => none

end

section
variable (s : State n k) (c : Fin k)

/-- The thread resumes in `yield`, `sleep` or `forkret` and releases its lock;
`exit` would panic with "zombie exit". -/
def resumed : Option (State n k) :=
  match s.ctl c with
  | .resume _ .exit _ => none
  | .resume p from_ tempoInicio =>
    let proc := if from_ = .sleep then { s.proc p with chan := 0 } else s.proc p
    some (((s.setProc p proc).setLock p none).setCtl c (.user p tempoInicio))
  | _ => none

/-- Acquire the thread's own lock, store `f` of its entry, and head for `swtch`. -/
def leave (to_ : Resume) (f : Proc n → Proc n) : Option (State n k) :=
  match s.ctl c with
  | .user p tempoInicio =>
    if s.lock p = none then
      some (((s.setProc p (f (s.proc p))).setLock p (some c)).setCtl c
        (.leaving p to_ tempoInicio))
    else none
  | _ => none

def yield : Option (State n k) :=
  leave s c .yield (fun p => { p with state := .runnable })

def sleep (chan : UInt64) : Option (State n k) :=
  leave s c .sleep (fun p => { p with chan := chan, state := .sleeping })

def reparent (p : Fin n) : State n k :=
  { s with proc := fun q =>
    if (s.proc q).parent = some p then { s.proc q with parent := some s.initproc }
    else s.proc q }

def exit (status : Int32) : Option (State n k) :=
  match (s.ctl c).running with
  | some p =>
    if p = s.initproc then none
    else leave (reparent s p) c .exit (fun p => { p with xstate := status, state := .zombie })
  | none => none

def swtch : Option (State n k) :=
  match s.ctl c with
  | .leaving p to_ tempoInicio =>
    some ((s.saveContext p to_).setCtl c (.back p tempoInicio))
  | _ => none

end

section
variable (s : State n k) (c : Fin k)

/-- The critical section of `wakeup` for slot `q`, in a thread or an interrupt. -/
def wakeup (q : Fin n) (chan : UInt64) : Option (State n k) :=
  if (s.ctl c).interruptible ∧ s.current c ≠ some q ∧ s.lock q = none then
    if (s.proc q).chan = chan then some (s.setProc q (wake (s.proc q))) else some s
  else none

def kill (q : Fin n) (pid : Int32) : Option (State n k) :=
  if (s.ctl c).running.isSome ∧ s.lock q = none then
    if (s.proc q).pid = pid then some (s.setProc q { wake (s.proc q) with killed := true })
    else some s
  else none

/-- `allocproc` in slot `q`; when memory runs out it frees the slot again. -/
def alloc (q : Fin n) (ok : Bool) : Option (State n k) :=
  if (s.ctl c).running.isSome ∧ s.lock q = none ∧ (s.proc q).state = .unused then
    let proc := allocproc (s.proc q) s.nextpid
    let s := { s with nextpid := s.nextpid + 1 }
    if ok then some ((s.setProc q proc).saveContext q .forkret)
    else some (s.setProc q (freeproc proc))
  else none

def setParent (q : Fin n) : Option (State n k) :=
  match (s.ctl c).running with
  | some p =>
    if (s.proc q).state = .used then some (s.setProc q { s.proc q with parent := some p }) else none
  | none => none

def makeRunnable (q : Fin n) : Option (State n k) :=
  if (s.ctl c).running.isSome ∧ (s.proc q).parent = (s.ctl c).running ∧ s.lock q = none ∧
    (s.proc q).state = .used then
    some (s.setProc q { s.proc q with state := .runnable })
  else none

def reap (q : Fin n) : Option (State n k) :=
  if (s.ctl c).running.isSome ∧ (s.proc q).parent = (s.ctl c).running ∧ s.lock q = none ∧
    (s.proc q).state = .zombie then
    some (s.setProc q (freeproc (s.proc q)))
  else none

def findPid (pid : Int32) : Option (Fin n) :=
  (List.finRange n).find? (fun q => (s.proc q).pid = pid)

def sysSetType (type pid : Int32) : Option (State n k) :=
  if (s.ctl c).running.isSome then
    match findPid s pid with
    | some q => some (s.setProc q { s.proc q with type := type })
    | none => some s
  else none

def clockintr : Option (State n k) :=
  if (s.ctl c).interruptible ∧ c.val = 0 then some { s with ticks := s.ticks + 1 } else none

end

def step (s : State n k) : Act n k → Option (State n k)
  | .visit c => visit s c
  | .choose c => choose s c
  | .wfi c => wfi s c
  | .acquire c => acquireRunProc s c
  | .dispatch c => dispatch s c
  | .release c => releaseRunProc s c
  | .resumed c => resumed s c
  | .yield c => yield s c
  | .sleep c chan => sleep s c chan
  | .exit c status => exit s c status
  | .swtch c => swtch s c
  | .account c => account s c
  | .wakeup c q chan => wakeup s c q chan
  | .kill c q pid => kill s c q pid
  | .alloc c q ok => alloc s c q ok
  | .setParent c q => setParent s c q
  | .makeRunnable c q => makeRunnable s c q
  | .reap c q => reap s c q
  | .setType c type pid => sysSetType s c type pid
  | .tick c => clockintr s c

def Step (s : State n k) (a : Act n k) (t : State n k) : Prop := step s a = some t

def emptyProc : Proc n where
  state := .unused
  chan := 0
  killed := false
  xstate := 0
  pid := 0
  parent := none
  type := 0
  tempoTotal := 0

/-- After `userinit`: the first process is runnable and every CPU enters
`scheduler`. -/
def boot (first : Fin n) : State n k where
  proc := Function.update (fun _ => emptyProc) first
    { allocproc emptyProc 1 with state := .runnable }
  lock _ := none
  context _ := .forkret
  saved := Function.update (fun _ => false) first true
  current _ := none
  ctl _ := .scan 0 {}
  initproc := first
  nextpid := 2
  ticks := 0

end Xv6.ProcMachine
