import Xv6.FamilyWait

/-! Runs of `fork`, `exit` and `wait`. The history kept in the state tells the
incarnations of a slot apart: each is created once, exits at most once and is reaped
at most once. -/

namespace Xv6.FamilyRun

open FamilyMachine FamilyTree FamilyWait Runs List
open SleepMachine.State (setProc setPc setLocked setHolder setIntr)
open SleepMachine (Agent Pc Free Awake Enabled effect)
open SleepWake (Hold Protocol NoneLost Shape)
open SleepMachine (freeproc start)

variable {n k L : Nat} {K : Kernel n L} {s t : FamilyMachine.State n k L}

structure History (s : FamilyMachine.State n k L) : Prop where
  fresh : ∀ q, (s.proc q).state ≠ .unused → s.data.born q < s.data.count
  distinct : ∀ q q', (s.proc q).state ≠ .unused → (s.proc q').state ≠ .unused →
    s.data.born q = s.data.born q' → q = q'
  past : ∀ e ∈ s.data.exits, e.born < s.data.count
  exits : (s.data.exits.map Exited.born).Nodup
  running : ∀ q, (s.proc q).state ≠ .unused → (s.proc q).state ≠ .zombie →
    s.data.born q ∉ s.data.exits.map Exited.born
  zombie : ∀ q, (s.proc q).state = .zombie →
    ⟨s.data.born q, (s.proc q).pid, s.data.xstate q⟩ ∈ s.data.exits ∧
      s.data.born q ∉ s.data.reaps.map Reaped.born
  reaps : (s.data.reaps.map Reaped.born).Nodup
  reaped : ∀ r ∈ s.data.reaps, ∃ e ∈ s.data.exits, e.born = r.born ∧ e.pid = r.pid ∧
    (r.status = none ∨ r.status = some e.status)

lemma History.born_not_reaped (h : History s)
    (out : b ∉ s.data.exits.map Exited.born) : b ∉ s.data.reaps.map Reaped.born := by
  intro mem
  obtain ⟨r, hr, rfl⟩ := mem_map.mp mem
  obtain ⟨e, he, same, -⟩ := h.reaped r hr
  exact out (same ▸ mem_map_of_mem he)

structure SameHistory (s t : FamilyMachine.State n k L) : Prop where
  unused : ∀ q, (t.proc q).state = .unused ↔ (s.proc q).state = .unused
  zombie : ∀ q, (t.proc q).state = .zombie ↔ (s.proc q).state = .zombie
  pid : ∀ q, (s.proc q).state = .zombie → (t.proc q).pid = (s.proc q).pid
  xstate : ∀ q, (s.proc q).state = .zombie → t.data.xstate q = s.data.xstate q
  count : t.data.count = s.data.count
  born : t.data.born = s.data.born
  exits : t.data.exits = s.data.exits
  reaps : t.data.reaps = s.data.reaps

lemma History.congr (h : History s) (same : SameHistory s t) : History t where
  fresh q hq := by
    rw [same.born, same.count]
    exact h.fresh q (mt (same.unused q).mpr hq)
  distinct q q' hq hq' := by
    rw [same.born]
    exact h.distinct q q' (mt (same.unused q).mpr hq) (mt (same.unused q').mpr hq')
  past := by
    rw [same.exits, same.count]
    exact h.past
  exits := by
    rw [same.exits]
    exact h.exits
  running q hq hz := by
    rw [same.exits, same.born]
    exact h.running q (mt (same.unused q).mpr hq) (mt (same.zombie q).mpr hz)
  zombie q hz := by
    have dead := (same.zombie q).mp hz
    rw [same.exits, same.reaps, same.born, same.pid q dead, same.xstate q dead]
    exact h.zombie q dead
  reaps := by
    rw [same.reaps]
    exact h.reaps
  reaped := by
    rw [same.reaps, same.exits]
    exact h.reaped

lemma sameHistory_other (shape : Shape s) (ok : Allowed K s a) (hs : SleepMachine.Step s a t) : SameHistory s t := by
  have data := data_other ok hs
  have kind := sameKind_other shape ok hs
  refine ⟨fun q => (kind q).unused, fun q => (kind q).zombie, fun q _ => ?_, ?_, ?_, ?_, ?_, ?_⟩
  · clear data kind
    obtain ⟨en, rfl⟩ := hs
    cases a <;> simp only [Enabled, effect, Allowed] at en ok ⊢
    all_goals try split
    all_goals try simp only [setProc, setPc, setLocked, setHolder, setIntr, Function.update_apply]
    all_goals grind
  all_goals simp [data]

section
variable (h : History s)
include h

lemma History.forkAlloc (hs : Step K s (.call (.forkAlloc p np)) t) : History t := by
  obtain ⟨-, -, -, -, rfl⟩ := hs
  have old : ∀ q, q ≠ np → ((callEffect K s (.forkAlloc p np)).proc q) = s.proc q ∧
    (callEffect K s (.forkAlloc p np)).data.born q = s.data.born q := by
    intro q ne
    simp [callEffect, innerEffect, innerAct, effect, stores, Family.setProg, ne]
  have new : ((callEffect K s (.forkAlloc p np)).proc np).state = .used ∧
    (callEffect K s (.forkAlloc p np)).data.born np = s.data.count := by
    simp [callEffect, innerEffect, innerAct, effect, stores, Family.setProg]
  have next : (callEffect K s (.forkAlloc p np)).data.count = s.data.count + 1 := rfl
  have exits : (callEffect K s (.forkAlloc p np)).data.exits = s.data.exits := rfl
  have reaps : (callEffect K s (.forkAlloc p np)).data.reaps = s.data.reaps := rfl
  have xstate : (callEffect K s (.forkAlloc p np)).data.xstate = s.data.xstate := rfl
  generalize callEffect K s (.forkAlloc p np) = t at *
  have fresh : ∀ q, q ≠ np → (t.proc q).state ≠ .unused → s.data.born q < s.data.count :=
    fun q ne hq => h.fresh q (by rwa [(old q ne).1] at hq)
  refine ⟨fun q hq => ?_, fun q q' hq hq' same => ?_, fun e he => ?_, exits ▸ h.exits,
    fun q hq hz => ?_, fun q hz => ?_, reaps ▸ h.reaps, ?_⟩
  · rcases eq_or_ne q np with rfl | ne
    · omega
    · have := fresh q ne hq
      rw [(old q ne).2]
      omega
  · by_cases e : q = np <;> by_cases e' : q' = np
    · exact e.trans e'.symm
    · have := fresh q' e' hq'
      rw [e, new.2, (old q' e').2] at same
      omega
    · have := fresh q e hq
      rw [e', new.2, (old q e).2] at same
      omega
    · rw [(old q e).2, (old q' e').2] at same
      rw [(old q e).1] at hq
      rw [(old q' e').1] at hq'
      exact h.distinct q q' hq hq' same
  · rw [exits] at he
    have := h.past e he
    omega
  · rw [exits]
    rcases eq_or_ne q np with rfl | ne
    · rw [new.2]
      intro mem
      obtain ⟨e, he, same⟩ := mem_map.mp mem
      have := h.past e he
      omega
    · rw [(old q ne).1] at hq hz
      rw [(old q ne).2]
      exact h.running q hq hz
  · have ne : q ≠ np := by
      rintro rfl
      simp [new.1] at hz
    rw [(old q ne).1] at hz
    rw [exits, reaps, xstate, (old q ne).1, (old q ne).2]
    exact h.zombie q hz
  · rw [reaps, exits]
    exact h.reaped

lemma History.exitZombie (hs : Step K s (.call (.exitZombie p status)) t) : History t := by
  have running : (s.proc p).state = .running := hs.1.1.1
  obtain ⟨-, -, -, -, rfl⟩ := hs
  have old : ∀ q, q ≠ p → ((callEffect K s (.exitZombie p status)).proc q) = s.proc q ∧
    (callEffect K s (.exitZombie p status)).data.xstate q = s.data.xstate q := by
    intro q ne
    simp [callEffect, innerEffect, innerAct, effect, stores, Family.setProg, ne]
  have new : ((callEffect K s (.exitZombie p status)).proc p).state = .zombie ∧
    ((callEffect K s (.exitZombie p status)).proc p).pid = (s.proc p).pid ∧
    (callEffect K s (.exitZombie p status)).data.xstate p = status := by
    simp [callEffect, innerEffect, innerAct, effect, stores, Family.setProg]
  have count : (callEffect K s (.exitZombie p status)).data.count = s.data.count := rfl
  have born : (callEffect K s (.exitZombie p status)).data.born = s.data.born := rfl
  have exits : (callEffect K s (.exitZombie p status)).data.exits =
    ⟨s.data.born p, (s.proc p).pid, status⟩ :: s.data.exits := rfl
  have reaps : (callEffect K s (.exitZombie p status)).data.reaps = s.data.reaps := rfl
  generalize callEffect K s (.exitZombie p status) = t at *
  have alive : ∀ q, (t.proc q).state ≠ .unused → (s.proc q).state ≠ .unused := by
    intro q hq
    rcases eq_or_ne q p with rfl | ne
    · simp [running]
    · rwa [(old q ne).1] at hq
  have open_ := h.running p (by simp [running]) (by simp [running])
  refine ⟨fun q hq => ?_, fun q q' hq hq' => ?_, fun e he => ?_, ?_, fun q hq hz => ?_,
    fun q hz => ?_, reaps ▸ h.reaps, fun r hr => ?_⟩
  · rw [born, count]
    exact h.fresh q (alive q hq)
  · rw [born]
    exact h.distinct q q' (alive q hq) (alive q' hq')
  · rw [exits] at he
    rw [count]
    rcases mem_cons.mp he with rfl | he
    · exact h.fresh p (by simp [running])
    · exact h.past e he
  · rw [exits]
    exact nodup_cons.mpr ⟨open_, h.exits⟩
  · have ne : q ≠ p := by
      rintro rfl
      exact hz new.1
    rw [exits, born]
    intro mem
    rw [(old q ne).1] at hz
    rcases mem_cons.mp mem with same | mem
    · exact ne (h.distinct q p (alive q hq) (by simp [running]) same)
    · exact h.running q (alive q hq) hz mem
  · rw [exits, reaps, born]
    rcases eq_or_ne q p with rfl | ne
    · rw [new.2.1, new.2.2]
      exact ⟨by simp, h.born_not_reaped open_⟩
    · rw [(old q ne).1] at hz
      rw [(old q ne).1, (old q ne).2]
      exact ⟨mem_cons_of_mem _ (h.zombie q hz).1, (h.zombie q hz).2⟩
  · rw [reaps] at hr
    obtain ⟨e, he, same⟩ := h.reaped r hr
    exact ⟨e, exits ▸ mem_cons_of_mem _ he, same⟩

lemma History.waitReap (hs : Step K s (.call (.waitReap p havekids pp copied)) t) : History t := by
  have dead : (s.proc pp).state = .zombie := hs.2.2.1.2.2
  obtain ⟨-, -, -, -, rfl⟩ := hs
  have old : ∀ q, q ≠ pp → ((callEffect K s (.waitReap p havekids pp copied)).proc q) = s.proc q ∧
    (callEffect K s (.waitReap p havekids pp copied)).data.xstate q = s.data.xstate q := by
    intro q ne
    simp [callEffect, innerEffect, innerAct, effect, stores, Family.setProg, ne]
  have new : ((callEffect K s (.waitReap p havekids pp copied)).proc pp).state = .unused := by
    simp [callEffect, innerEffect, innerAct, effect, freeproc]
  have count : (callEffect K s (.waitReap p havekids pp copied)).data.count = s.data.count := rfl
  have born : (callEffect K s (.waitReap p havekids pp copied)).data.born = s.data.born := rfl
  have exits : (callEffect K s (.waitReap p havekids pp copied)).data.exits = s.data.exits := rfl
  have reaps : (callEffect K s (.waitReap p havekids pp copied)).data.reaps =
    ⟨s.data.born pp, p, (s.proc pp).pid, if copied then some (s.data.xstate pp) else none⟩ :: s.data.reaps := rfl
  generalize callEffect K s (.waitReap p havekids pp copied) = t at *
  have kept : ∀ q, (t.proc q).state ≠ .unused → q ≠ pp := by
    rintro q hq rfl
    exact hq new
  obtain ⟨exited, unreaped⟩ := h.zombie pp dead
  refine ⟨fun q hq => ?_, fun q q' hq hq' => ?_, ?_, exits ▸ h.exits, fun q hq hz => ?_,
    fun q hz => ?_, ?_, fun r hr => ?_⟩
  · have ne := kept q hq
    rw [(old q ne).1] at hq
    rw [born, count]
    exact h.fresh q hq
  · have ne := kept q hq
    have ne' := kept q' hq'
    rw [(old q ne).1] at hq
    rw [(old q' ne').1] at hq'
    rw [born]
    exact h.distinct q q' hq hq'
  · rw [exits, count]
    exact h.past
  · have ne := kept q hq
    rw [(old q ne).1] at hq hz
    rw [exits, born]
    exact h.running q hq hz
  · have ne : q ≠ pp := kept q (by simp [hz])
    rw [(old q ne).1] at hz
    rw [exits, reaps, born, (old q ne).1, (old q ne).2]
    refine ⟨(h.zombie q hz).1, fun mem => ?_⟩
    rcases mem_cons.mp mem with same | mem
    · exact ne (h.distinct q pp (by simp [hz]) (by simp [dead]) same)
    · exact (h.zombie q hz).2 mem
  · rw [reaps]
    exact nodup_cons.mpr ⟨unreaped, h.reaps⟩
  · rw [reaps] at hr
    rw [exits]
    rcases mem_cons.mp hr with rfl | hr
    · refine ⟨_, exited, rfl, rfl, ?_⟩
      cases copied <;> simp
    · exact h.reaped r hr

lemma History.call (hs : Step K s (.call c) t) : History t := by
  cases c
  case forkAlloc p np => exact h.forkAlloc hs
  case exitZombie p status => exact h.exitZombie hs
  case waitReap p havekids pp copied => exact h.waitReap hs
  case forkFails p np =>
    obtain ⟨-, -, -, ⟨-, -, unused⟩, rfl⟩ := hs
    have dead : ∀ q, (s.proc q).state = .zombie → q ≠ np := by
      rintro q hz rfl
      simp [unused] at hz
    refine h.congr ⟨fun q => ?_, fun q => ?_, fun q hz => ?_, fun q hz => ?_, rfl, rfl, rfl, rfl⟩
    · rcases eq_or_ne q np with rfl | ne
      · simp [callEffect, innerEffect, innerAct, effect, freeproc, unused]
      · simp [callEffect, innerEffect, innerAct, effect, ne]
    · rcases eq_or_ne q np with rfl | ne
      · simp [callEffect, innerEffect, innerAct, effect, freeproc, unused]
      · simp [callEffect, innerEffect, innerAct, effect, ne]
    · simp [callEffect, innerEffect, innerAct, effect, dead q hz]
    · simp [callEffect, stores, Family.setProg, dead q hz]
  case forkReady p np =>
    obtain ⟨-, -, -, ⟨-, -, used⟩, rfl⟩ := hs
    refine h.congr ⟨fun q => ?_, fun q => ?_, fun q _ => ?_, fun q _ => rfl, rfl, rfl, rfl, rfl⟩ <;>
      rcases eq_or_ne q np with rfl | ne
    · simp [callEffect, innerEffect, innerAct, effect, used]
    · simp [callEffect, innerEffect, innerAct, effect, ne]
    · simp [callEffect, innerEffect, innerAct, effect, used]
    · simp [callEffect, innerEffect, innerAct, effect, ne]
    · simp [callEffect, innerEffect, innerAct, effect]
    · simp [callEffect, innerEffect, innerAct, effect, ne]
  all_goals
    obtain ⟨-, -, -, -, rfl⟩ := hs
    exact h.congr ⟨fun _ => Iff.rfl, fun _ => Iff.rfl, fun _ _ => rfl, fun _ _ => rfl, rfl, rfl, rfl, rfl⟩

lemma History.step (shape : Shape s) (hs : Step K s a t) : History t := by
  cases a with
  | other a => exact h.congr (sameHistory_other shape hs.1 hs.2)
  | call c => exact h.call hs

end

variable {as : List (Act n k L)}

structure Inv (K : Kernel n L) (s : FamilyMachine.State n k L) : Prop where
  shape : Shape s
  places : Places K s
  tree : Tree K s
  scan : Scan K s
  history : History s
  waiters : ∀ w, ∃ g, NoneLost (K.addr w) K.waitLock (zombieChild w) s g ∧ Paid K w s g

lemma Shape.call (h : Shape s) (hs : Step K s (.call c) t) : Shape t := by
  obtain ⟨u, store, rest⟩ := call_split K hs
  cases hi : innerAct K s c with
  | none =>
    rw [hi] at rest
    exact rest ▸ h.step store
  | some a =>
    rw [hi] at rest
    exact (h.step store).step rest

lemma Inv.boot (K) : Inv K (boot K : FamilyMachine.State n k L) where
  shape := SleepWake.shape_start _ _
  places := by
    refine ⟨fun p => ?_, fun p => ?_, fun p h => ?_⟩
    · simp [FamilyMachine.boot, start, Fits]
    · simp [FamilyMachine.boot, start, holding, locks]
    · simp [FamilyMachine.boot, start] at h
  tree := by
    refine ⟨?_, fun q ne unused => ?_, fun p np h => ?_, fun p p' np h => ?_, fun p np h => ?_,
      fun p h => ?_, fun p q h => ?_⟩
    · simp [FamilyMachine.boot, start, Live]
    · simp [FamilyMachine.boot, start, ne] at unused
    all_goals simp [FamilyMachine.boot, start, child, childSet, exiting, reparented] at h
  scan := by
    refine ⟨fun p q h => ?_, fun p c l h => ?_, fun p h => ?_⟩
    all_goals simp [FamilyMachine.boot, start, scanned] at h
  history := by
    refine ⟨fun q _ => by simp [FamilyMachine.boot, start], fun q q' hq hq' _ => ?_,
      by simp [FamilyMachine.boot, start],
      by simp [FamilyMachine.boot, start],
      by simp [FamilyMachine.boot, start], fun q hz => ?_,
      by simp [FamilyMachine.boot, start],
      by simp [FamilyMachine.boot, start]⟩
    · have only : ∀ r, ((FamilyMachine.boot K : FamilyMachine.State n k L).proc r).state ≠ .unused →
        r = K.initproc := by
        intro r hr
        by_contra ne
        simp [FamilyMachine.boot, start, ne] at hr
      rw [only q hq, only q' hq']
    · by_cases e : q = K.initproc <;> simp [FamilyMachine.boot, start, e] at hz
  waiters w := ⟨⟨false, false⟩, SleepWake.noneLost_start _ _ _, fun p h => by
    simp [FamilyMachine.boot, start] at h⟩

lemma Inv.step (h : Inv K s) (hs : Step K s a t) : Inv K t where
  shape := by
    cases a with
    | other a => exact h.shape.step hs.2
    | call c => exact Shape.call h.shape hs
  places := h.places.step h.shape hs
  tree := h.tree.step h.shape hs
  scan := h.scan.step h.shape h.places hs
  history := h.history.step h.shape hs
  waiters w := by
    obtain ⟨g, none_, paid⟩ := h.waiters w
    cases a with
    | other a =>
      exact ⟨_, none_.step h.shape hs.2 (protocol_other paid h.shape h.places hs.1 hs.2),
        paid.other h.shape h.places hs.1 hs.2⟩
    | call c =>
      exact ⟨_, noneLost_call none_ paid h.shape h.tree h.places h.scan hs, paid.call h.shape h.tree h.places hs⟩

/-- In every run: a process that has been forked has a living parent; while `wait_lock` is free, no
process asleep in `wait` has a zombie child; and at most one `wait` reaps an exit, with its pid
and status. -/
theorem no_exit_lost (run : Run (Step K) (boot K) as s) :
    (∀ q, q ≠ K.initproc → (s.proc q).state ≠ .unused → (s.proc q).state ≠ .used →
      ∃ w, s.data.parent q = some w ∧ Live s w) ∧
    (s.holder K.waitLock = none → ∀ p, s.data.prog p = .waitAsleep →
      (s.proc p).state = .sleeping → ∀ q, s.data.parent q = some p →
      (s.proc q).state ≠ .zombie) ∧
    (s.data.exits.map Exited.born).Nodup ∧ (s.data.reaps.map Reaped.born).Nodup ∧
    (∀ r ∈ s.data.reaps, ∃ e ∈ s.data.exits, e.born = r.born ∧ e.pid = r.pid ∧
      (r.status = none ∨ r.status = some e.status)) := by
  have inv : Inv K s := run.invariant (Inv K) (fun _ _ _ h hs => h.step hs) (Inv.boot K)
  refine ⟨fun q ne unused used => ?_, fun free p asleep sleeping q mine zombie => ?_,
    inv.history.exits, inv.history.reaps, inv.history.reaped⟩
  · have parent := inv.tree.parent q ne unused used
    unfold HasParent at parent
    split at parent
    · exact ⟨_, ‹_›, parent⟩
    · exact parent.elim
  · obtain ⟨g, none_, -⟩ := inv.waiters p
    have no := none_.idle free p (.inr ⟨sleeping, inv.scan.asleep p asleep sleeping⟩)
    rw [holds_iff.mpr ⟨q, mine, zombie⟩] at no
    cases no

def twoSlots : Kernel 2 1 where
  addr p := 1 + UInt64.ofNat p
  addr_inj := by decide
  waitLock := 0
  initproc := 0

/-- `initproc` forks a child and sleeps in `wait`; the child exits with status `7` and
is reaped. -/
def waitForChild : List (Act 2 0 1) :=
  [.other (.dispatch 0), .call (.forkAlloc 0 1), .call (.forkAcquire 0 1),
    .call (.forkSetParent 0 1), .call (.forkRelease 0 1), .call (.forkReady 0 1),
    .call (.waitAcquire 0), .call (.waitOther 0 false 0), .call (.waitChild 0 false 1),
    .call (.waitBlock 0), .call (.waitSleep 0), .other (.sleepRelease 0 1 0),
    .other (.sleepState 0 1 0), .other (.sched 0), .other (.dispatch 1),
    .call (.exitAcquire 1 7), .call (.reparentOther 1 7 0), .call (.reparentOther 1 7 1),
    .call (.exitWakeup 1 7), .other (.wakeupVisit (.thread 1) 1 0),
    .other (.wakeupVisit (.thread 1) 1 1), .other (.wakeupDone (.thread 1) 1),
    .call (.exitZombie 1 7), .other (.exitRelease 1 0), .other (.sched 1), .other (.dispatch 0),
    .other (.tidy 0 0), .other (.unlock 0 0), .other (.reacquire 0 0), .call (.waitAgain 0),
    .call (.waitOther 0 false 0), .call (.waitReap 0 false 1 true), .call (.waitRelease 0 2)]

theorem no_exit_lost_wait_for_child :
    ∃ s : FamilyMachine.State 2 0 1, Run (Step twoSlots) (boot twoSlots) waitForChild s ∧
      s.data.reaps.map (fun r => (r.pid, r.status)) = [(2, some 7)] ∧
      ∃ e ∈ s.data.exits, e.pid = 2 ∧ e.status = 7 := by
  have done : ((exec (next twoSlots) (boot twoSlots) waitForChild).map fun s =>
    s.data.reaps.map fun r => (r.pid, r.status)) = some [(2, some 7)] := by
    decide +kernel
  obtain ⟨s, hs, reaps⟩ := Option.map_eq_some_iff.mp done
  have run := (run_of_exec _ hs).mono fun _ _ _ => step_of_next twoSlots
  refine ⟨s, run, reaps, ?_⟩
  obtain ⟨r, hr, same⟩ := List.mem_map.mp (reaps ▸ List.mem_singleton_self (2, some 7))
  obtain ⟨pid, status⟩ := Prod.mk.inj same
  obtain ⟨e, he, -, samePid, given⟩ := (no_exit_lost run).2.2.2.2 r hr
  refine ⟨e, he, samePid.trans pid, ?_⟩
  rw [status] at given
  simpa [eq_comm] using given

end Xv6.FamilyRun
