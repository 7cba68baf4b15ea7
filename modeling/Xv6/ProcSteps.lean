import Xv6.ProcMachine
import Xv6.Runs

/-! What each step of the process machine requires and what it does. -/

namespace Xv6.ProcMachine

open Option

variable {n k : Nat} {s t : State n k} {c : Fin k} {q : Fin n}

lemma visit_inv (hs : visit s c = some t) : ∃ i found, ∃ h : i < n, s.ctl c = .scan i found ∧ s.lock ⟨i, h⟩ = none ∧
    t = s.setCtl c (.scan (i + 1) (found.visit ⟨i, h⟩ (s.proc ⟨i, h⟩))) := by
  unfold visit at hs
  split at hs <;> try contradiction
  split at hs <;> try contradiction
  split at hs <;> try contradiction
  rename_i i found hctl hi free
  exact ⟨i, found, hi, hctl, free, (some.inj hs).symm⟩

lemma choose_inv (hs : choose s c = some t) :
    ∃ i found, n ≤ i ∧ s.ctl c = .scan i found ∧ t = s.setCtl c (.chosen found.runProc) := by
  unfold choose at hs
  split at hs <;> try contradiction
  split at hs <;> try contradiction
  rename_i i found hctl hi
  exact ⟨i, found, by omega, hctl, (some.inj hs).symm⟩

lemma wfi_inv (hs : wfi s c = some t) : s.ctl c = .chosen none ∧ t = s.setCtl c (.scan 0 {}) := by
  unfold wfi at hs
  split at hs <;> try contradiction
  rename_i hctl
  exact ⟨hctl, (some.inj hs).symm⟩

lemma acquire_inv (hs : acquireRunProc s c = some t) :
    ∃ r, s.ctl c = .chosen (some r) ∧ s.lock r = none ∧ t = (s.setLock r (some c)).setCtl c (.test r) := by
  unfold acquireRunProc at hs
  split at hs <;> try contradiction
  split at hs <;> try contradiction
  rename_i r hctl free
  exact ⟨r, hctl, free, (some.inj hs).symm⟩

lemma dispatch_inv (hs : dispatch s c = some t) : ∃ r, s.ctl c = .test r ∧ (s.proc r).state = .runnable ∧
    t = (((s.setProc r { s.proc r with state := .running }).setCurrent c (some r)).leaveContext
      r).setCtl c (.resume r (s.context r) s.ticks) := by
  unfold dispatch at hs
  split at hs <;> try contradiction
  split at hs <;> try contradiction
  rename_i r hctl ready
  exact ⟨r, hctl, ready, (some.inj hs).symm⟩

lemma release_inv (hs : releaseRunProc s c = some t) :
    ∃ r, s.ctl c = .test r ∧ (s.proc r).state ≠ .runnable ∧ t = (s.setLock r none).setCtl c (.scan 0 {}) := by
  unfold releaseRunProc at hs
  split at hs <;> try contradiction
  split at hs <;> try contradiction
  rename_i r hctl stop
  exact ⟨r, hctl, stop, (some.inj hs).symm⟩

lemma account_inv (hs : account s c = some t) : ∃ p t0, s.ctl c = .back p t0 ∧ t = ((s.setProc p { s.proc p with
        tempoTotal := (s.proc p).tempoTotal + (s.ticks - t0) }).setCurrent c none).setCtl c (.test p) := by
  unfold account at hs
  split at hs <;> try contradiction
  rename_i p t0 hctl
  exact ⟨p, t0, hctl, (some.inj hs).symm⟩

lemma resumed_eq (hs : resumed s c = some t) : ∃ p from_ t0, s.ctl c = .resume p from_ t0 ∧
    t = ((s.setProc p (if from_ = .sleep then { s.proc p with chan := 0 } else s.proc p)).setLock
      p none).setCtl c (.user p t0) := by
  unfold resumed at hs
  split at hs <;> try contradiction
  rename_i p from_ t0 _ hctl
  exact ⟨p, from_, t0, hctl, (some.inj hs).symm⟩

lemma resumed_inv (hs : resumed s c = some t) : ∃ p from_ t0, s.ctl c = .resume p from_ t0 ∧ ∃ proc,
    proc.state = (s.proc p).state ∧ proc.type = (s.proc p).type ∧
    t = ((s.setProc p proc).setLock p none).setCtl c (.user p t0) := by
  obtain ⟨p, from_, t0, hctl, rfl⟩ := resumed_eq hs
  refine ⟨p, from_, t0, hctl, _, ?_, ?_, rfl⟩ <;> split <;> rfl

lemma leave_inv (hs : leave s c to_ f = some t) : ∃ p t0, s.ctl c = .user p t0 ∧ s.lock p = none ∧
    t = ((s.setProc p (f (s.proc p))).setLock p (some c)).setCtl c (.leaving p to_ t0) := by
  unfold leave at hs
  split at hs <;> try contradiction
  split at hs <;> try contradiction
  rename_i p t0 hctl free
  exact ⟨p, t0, hctl, free, (some.inj hs).symm⟩

lemma yield_inv (hs : yield s c = some t) : ∃ p t0, s.ctl c = .user p t0 ∧ s.lock p = none ∧
    t = ((s.setProc p { s.proc p with state := .runnable }).setLock p (some c)).setCtl c (.leaving p .yield t0) :=
  leave_inv hs

lemma running_eq_some {ctl : Ctl n} : ctl.running = some p ↔ ∃ t0, ctl = .user p t0 := by
  cases ctl <;> simp [Ctl.running]

lemma exit_inv (hs : exit s c status = some t) : ∃ p, p ≠ s.initproc ∧ leave (reparent s p) c .exit
    (fun p => { p with xstate := status, state := .zombie }) = some t := by
  unfold exit at hs
  split at hs <;> try contradiction
  split at hs <;> try contradiction
  rename_i p hctl ne
  exact ⟨p, ne, hs⟩

lemma swtch_inv (hs : swtch s c = some t) : ∃ p to_ t0, s.ctl c = .leaving p to_ t0 ∧
    t = (s.saveContext p to_).setCtl c (.back p t0) := by
  unfold swtch at hs
  split at hs <;> try contradiction
  rename_i p to_ t0 hctl
  exact ⟨p, to_, t0, hctl, (some.inj hs).symm⟩

@[simp] lemma reparent_state (p q) : ((reparent s p).proc q).state = (s.proc q).state := by
  simp only [reparent]
  split <;> rfl

@[simp] lemma reparent_type (p q) : ((reparent s p).proc q).type = (s.proc q).type := by
  simp only [reparent]
  split <;> rfl

/-- How a system call or an interrupt changes the state of a process other
than the caller. -/
inductive Moves : ProcState → ProcState → Prop
  | same (a) : Moves a a
  | wake : Moves .sleeping .runnable
  | alloc : Moves .unused .used
  | ready : Moves .used .runnable
  | reap : Moves .zombie .unused

lemma Moves.running_iff (h : Moves a b) : b = .running ↔ a = .running := by
  cases h <;> simp

structure Quiet (s t : State n k) : Prop where
  lock : t.lock = s.lock
  current : t.current = s.current
  ctl : t.ctl = s.ctl
  saved : ∀ p, t.saved p = s.saved p ∨ t.saved p = true
  moves : ∀ p, Moves (s.proc p).state (t.proc p).state
  fresh : ∀ p, (s.proc p).state = .unused → (t.proc p).state ≠ .unused → t.saved p = true

def Act.isCall : Act n k → Bool
  | .wakeup .. | .kill .. | .alloc .. | .setParent .. | .makeRunnable .. | .reap .. | .setType ..
  | .tick .. => true
  | _ => false

lemma quiet_refl (s : State n k) : Quiet s s :=
  ⟨rfl, rfl, rfl, fun _ => .inl rfl, fun _ => .same _, fun _ h h' => (h' h).elim⟩

lemma quiet_setProc (move : Moves (s.proc q).state p.state)
    (old : (s.proc q).state = .unused → p.state = .unused) : Quiet s (s.setProc q p) where
  lock := rfl
  current := rfl
  ctl := rfl
  saved _ := .inl rfl
  moves r := by
    rcases eq_or_ne r q with rfl | ne
    · simpa using move
    · simpa [ne] using .same _
  fresh r h h' := by
    rcases eq_or_ne r q with rfl | ne
    · exact absurd (old h) (by simpa using h')
    · exact absurd h (by simpa [ne] using h')

lemma wake_moves (p : Proc n) : Moves p.state (wake p).state := by
  unfold wake
  split
  · rename_i h
    rw [h]
    exact .wake
  · exact .same _

@[simp] lemma wake_unused (h : p.state = .unused) : (wake p).state = .unused := by simp [wake, h]

@[simp] lemma wake_type (p : Proc n) : (wake p).type = p.type := by
  unfold wake
  split <;> rfl

lemma wakeup_inv (hs : wakeup s c q chan = some t) :
    (s.ctl c).interruptible = true ∧ s.current c ≠ some q ∧ s.lock q = none ∧
      (t = s ∨ (s.proc q).chan = chan ∧ t = s.setProc q (wake (s.proc q))) := by
  unfold wakeup at hs
  split at hs <;> try contradiction
  rename_i h
  obtain ⟨h1, h2, h3⟩ := h
  refine ⟨h1, h2, h3, ?_⟩
  split at hs
  · exact .inr ⟨‹_›, (some.inj hs).symm⟩
  · exact .inl (some.inj hs).symm

lemma kill_inv (hs : kill s c q pid = some t) : (s.ctl c).running.isSome ∧ s.lock q = none ∧
    (t = s ∨ t = s.setProc q { wake (s.proc q) with killed := true }) := by
  unfold kill at hs
  split at hs <;> try contradiction
  rename_i h
  refine ⟨h.1, h.2, ?_⟩
  split at hs
  · exact .inr (some.inj hs).symm
  · exact .inl (some.inj hs).symm

lemma alloc_inv (hs : alloc s c q ok = some t) :
    (s.ctl c).running.isSome ∧ s.lock q = none ∧ (s.proc q).state = .unused ∧ t = if ok then
      ({ s with nextpid := s.nextpid + 1 }.setProc q (allocproc (s.proc q) s.nextpid)).saveContext q .forkret
      else { s with nextpid := s.nextpid + 1 }.setProc q (freeproc (allocproc (s.proc q) s.nextpid)) := by
  unfold alloc at hs
  split at hs <;> try contradiction
  rename_i h
  obtain ⟨h1, h2, h3⟩ := h
  refine ⟨h1, h2, h3, ?_⟩
  cases ok <;> exact (some.inj hs).symm

lemma setParent_inv (hs : setParent s c q = some t) : ∃ p, (s.ctl c).running = some p ∧ (s.proc q).state = .used ∧
    t = s.setProc q { s.proc q with parent := some p } := by
  unfold setParent at hs
  split at hs <;> try contradiction
  split at hs <;> try contradiction
  exact ⟨_, ‹_›, ‹_›, (some.inj hs).symm⟩

lemma makeRunnable_inv (hs : makeRunnable s c q = some t) :
    (s.ctl c).running.isSome ∧ s.lock q = none ∧ (s.proc q).state = .used ∧
      t = s.setProc q { s.proc q with state := .runnable } := by
  unfold makeRunnable at hs
  split at hs <;> try contradiction
  rename_i h
  obtain ⟨h1, -, h2, h3⟩ := h
  exact ⟨h1, h2, h3, (some.inj hs).symm⟩

lemma reap_inv (hs : reap s c q = some t) : (s.ctl c).running.isSome ∧ s.lock q = none ∧ (s.proc q).state = .zombie ∧
    t = s.setProc q (freeproc (s.proc q)) := by
  unfold reap at hs
  split at hs <;> try contradiction
  rename_i h
  obtain ⟨h1, -, h2, h3⟩ := h
  exact ⟨h1, h2, h3, (some.inj hs).symm⟩

lemma sysSetType_inv (hs : sysSetType s c type pid = some t) : (s.ctl c).running.isSome ∧
    (t = s ∨ ∃ q, findPid s pid = some q ∧ t = s.setProc q { s.proc q with type := type }) := by
  unfold sysSetType at hs
  split at hs <;> try contradiction
  refine ⟨‹_›, ?_⟩
  split at hs
  · exact .inr ⟨_, ‹_›, (some.inj hs).symm⟩
  · exact .inl (some.inj hs).symm

lemma clockintr_inv (hs : clockintr s c = some t) :
    (s.ctl c).interruptible = true ∧ t = { s with ticks := s.ticks + 1 } := by
  unfold clockintr at hs
  split at hs <;> try contradiction
  rename_i h
  exact ⟨h.1, (some.inj hs).symm⟩

lemma quiet_alloc (hs : alloc s c q ok = some t) : Quiet s t := by
  obtain ⟨-, -, unused, rfl⟩ := alloc_inv hs
  cases ok with
  | false =>
    have same : Quiet s (s.setProc q (freeproc (allocproc (s.proc q) s.nextpid))) :=
      quiet_setProc (unused ▸ .same _) (fun _ => rfl)
    exact ⟨rfl, rfl, rfl, same.saved, same.moves, same.fresh⟩
  | true =>
    refine ⟨rfl, rfl, rfl, fun p => ?_, fun p => ?_, fun p hp hp' => ?_⟩ <;> rcases eq_or_ne p q with rfl | ne
    · simp
    · simp [ne]
    · simpa [unused, allocproc] using .alloc
    · simpa [ne] using .same _
    · simp
    · simp [ne, hp] at hp'

lemma quiet_of_isCall (ha : a.isCall = true) (hs : Step s a t) : Quiet s t := by
  cases a <;> try contradiction
  all_goals simp only [Step, step] at hs
  case wakeup c q chan =>
    obtain ⟨-, -, -, rfl | ⟨-, rfl⟩⟩ := wakeup_inv hs
    · exact quiet_refl _
    · exact quiet_setProc (wake_moves _) wake_unused
  case kill c q pid =>
    obtain ⟨-, -, rfl | rfl⟩ := kill_inv hs
    · exact quiet_refl _
    · exact quiet_setProc (wake_moves _) wake_unused
  case alloc c q ok => exact quiet_alloc hs
  case setParent c q =>
    obtain ⟨p, -, -, rfl⟩ := setParent_inv hs
    exact quiet_setProc (.same _) id
  case makeRunnable c q =>
    obtain ⟨-, -, used, rfl⟩ := makeRunnable_inv hs
    exact quiet_setProc (used ▸ .ready) (by simp [used])
  case reap c q =>
    obtain ⟨-, -, zombie, rfl⟩ := reap_inv hs
    exact quiet_setProc (zombie ▸ .reap) (fun _ => rfl)
  case setType c type pid =>
    obtain ⟨-, rfl | ⟨q, -, rfl⟩⟩ := sysSetType_inv hs
    · exact quiet_refl _
    · exact quiet_setProc (.same _) id
  case tick c =>
    obtain ⟨-, rfl⟩ := clockintr_inv hs
    exact ⟨rfl, rfl, rfl, fun _ => .inl rfl, fun _ => .same _, fun _ h h' => (h' h).elim⟩

def Act.cpu : Act n k → Fin k
  | .visit c | .choose c | .wfi c | .acquire c | .dispatch c | .release c | .resumed c | .yield c
  | .sleep c _ | .exit c _ | .swtch c | .account c | .wakeup c _ _ | .kill c _ _ | .alloc c _ _
  | .setParent c _ | .makeRunnable c _ | .reap c _ | .setType c _ _ | .tick c => c

lemma ctl_other (hs : Step s a t) (ne : c ≠ a.cpu) : t.ctl c = s.ctl c := by
  by_cases ha : a.isCall = true
  · rw [(quiet_of_isCall ha hs).ctl]
  cases a <;> try contradiction
  all_goals simp only [Step, step] at hs
  all_goals simp only [Act.cpu] at ne
  case visit d =>
    obtain ⟨i, found, hi, -, -, rfl⟩ := visit_inv hs
    simp [ne]
  case choose d =>
    obtain ⟨i, found, -, -, rfl⟩ := choose_inv hs
    simp [ne]
  case wfi d =>
    obtain ⟨-, rfl⟩ := wfi_inv hs
    simp [ne]
  case acquire d =>
    obtain ⟨r, -, -, rfl⟩ := acquire_inv hs
    simp [ne]
  case dispatch d =>
    obtain ⟨r, -, -, rfl⟩ := dispatch_inv hs
    simp [ne]
  case release d =>
    obtain ⟨r, -, -, rfl⟩ := release_inv hs
    simp [ne]
  case resumed d =>
    obtain ⟨p, from_, t0, -, proc, -, -, rfl⟩ := resumed_inv hs
    simp [ne]
  case yield d =>
    obtain ⟨p, t0, -, -, rfl⟩ := leave_inv hs
    simp [ne]
  case sleep d chan =>
    obtain ⟨p, t0, -, -, rfl⟩ := leave_inv hs
    simp [ne]
  case exit d status =>
    obtain ⟨p, -, hl⟩ := exit_inv hs
    obtain ⟨p, t0, -, -, rfl⟩ := leave_inv hl
    simp [ne, reparent]
  case swtch d =>
    obtain ⟨p, to_, t0, -, rfl⟩ := swtch_inv hs
    simp [ne]
  case account d =>
    obtain ⟨p, t0, -, rfl⟩ := account_inv hs
    simp [ne]

def Offers (c : Fin k) : Ctl n → Act n k → Prop
  | .scan _ _, a => a = .visit c ∨ a = .choose c ∨ a.isCall = true
  | .chosen none, a => a = .wfi c ∨ a.isCall = true
  | .chosen (some _), a => a = .acquire c ∨ a.isCall = true
  | .test _, a => a = .dispatch c ∨ a = .release c
  | .resume .., a => a = .resumed c
  | .user .., a => a = .yield c ∨ (∃ chan, a = .sleep c chan) ∨ (∃ status, a = .exit c status) ∨
      a.isCall = true
  | .leaving .., a => a = .swtch c
  | .back .., a => a = .account c

lemma interruptible_of_isCall (ha : a.isCall = true) (hs : Step s a t) : (s.ctl a.cpu).interruptible = true := by
  have of_running : ∀ c, (s.ctl c).running.isSome → (s.ctl c).interruptible = true := by
    intro c h
    cases hctl : s.ctl c <;> simp_all [Ctl.running, Ctl.interruptible]
  cases a <;> try contradiction
  all_goals simp only [Step, step] at hs
  case wakeup c q chan => exact (wakeup_inv hs).1
  case kill c q pid => exact of_running c (kill_inv hs).1
  case alloc c q ok => exact of_running c (alloc_inv hs).1
  case setParent c q =>
    obtain ⟨p, hp, -⟩ := setParent_inv hs
    exact of_running c (by simp [hp])
  case makeRunnable c q => exact of_running c (makeRunnable_inv hs).1
  case reap c q => exact of_running c (reap_inv hs).1
  case setType c type pid => exact of_running c (sysSetType_inv hs).1
  case tick c => exact (clockintr_inv hs).1

/-- On a CPU that runs no thread only interrupts are served: a `wakeup`, or a
step that leaves the table alone. -/
lemma call_off_thread (ha : a.isCall = true) (hs : Step s a t) (idle : (s.ctl a.cpu).running = none) :
    t.proc = s.proc ∨ ∃ q chan, a = .wakeup a.cpu q chan ∧ (s.proc q).state = .sleeping ∧
      (s.proc q).chan = chan ∧ t = s.setProc q { s.proc q with state := .runnable } := by
  cases a <;> try contradiction
  all_goals simp only [Step, step] at hs
  all_goals simp only [Act.cpu] at idle
  case wakeup c q chan =>
    obtain ⟨-, -, -, rfl | ⟨on, rfl⟩⟩ := wakeup_inv hs
    · exact .inl rfl
    · by_cases asleep : (s.proc q).state = .sleeping
      · exact .inr ⟨q, chan, rfl, asleep, on, by simp [wake, asleep]⟩
      · exact .inl (by simp [wake, asleep, State.setProc])
  case kill c q pid => simpa [idle] using (kill_inv hs).1
  case alloc c q ok => simpa [idle] using (alloc_inv hs).1
  case setParent c q =>
    obtain ⟨p, on, -⟩ := setParent_inv hs
    simp [idle] at on
  case makeRunnable c q => simpa [idle] using (makeRunnable_inv hs).1
  case reap c q => simpa [idle] using (reap_inv hs).1
  case setType c type pid => simpa [idle] using (sysSetType_inv hs).1
  case tick c =>
    obtain ⟨-, rfl⟩ := clockintr_inv hs
    exact .inl rfl

lemma offers_of_step (hs : Step s a t) : Offers a.cpu (s.ctl a.cpu) a := by
  by_cases ha : a.isCall = true
  · have open_ := interruptible_of_isCall ha hs
    rcases hctl : s.ctl a.cpu with _ | (_ | _) | _ | _ | _ | _ | _ <;> simp_all [Offers, Ctl.interruptible]
  cases a <;> try contradiction
  all_goals simp only [Step, step] at hs
  all_goals simp only [Act.cpu]
  case visit c =>
    obtain ⟨i, found, hi, hctl, -⟩ := visit_inv hs
    simp [hctl, Offers]
  case choose c =>
    obtain ⟨i, found, -, hctl, -⟩ := choose_inv hs
    simp [hctl, Offers]
  case wfi c => simp [(wfi_inv hs).1, Offers]
  case acquire c =>
    obtain ⟨r, hctl, -⟩ := acquire_inv hs
    simp [hctl, Offers]
  case dispatch c =>
    obtain ⟨r, hctl, -⟩ := dispatch_inv hs
    simp [hctl, Offers]
  case release c =>
    obtain ⟨r, hctl, -⟩ := release_inv hs
    simp [hctl, Offers]
  case resumed c =>
    obtain ⟨p, from_, t0, hctl, -⟩ := resumed_inv hs
    simp [hctl, Offers]
  case yield c =>
    obtain ⟨p, t0, hctl, -⟩ := leave_inv hs
    simp [hctl, Offers]
  case sleep c chan =>
    obtain ⟨p, t0, hctl, -⟩ := leave_inv hs
    simp [hctl, Offers]
  case exit c status =>
    obtain ⟨p, -, hl⟩ := exit_inv hs
    obtain ⟨p, t0, hctl, -⟩ := leave_inv hl
    simp only [reparent] at hctl
    simp [hctl, Offers]
  case swtch c =>
    obtain ⟨p, to_, t0, hctl, -⟩ := swtch_inv hs
    simp [hctl, Offers]
  case account c =>
    obtain ⟨p, t0, hctl, -⟩ := account_inv hs
    simp [hctl, Offers]

end Xv6.ProcMachine
