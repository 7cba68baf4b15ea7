import Xv6.ProcOwner

/-! Pids. `allocpid` hands out the 32-bit counter `nextpid` and never compares
it with the pids in use; a failing `fork` consumes one too. -/

namespace Xv6.ProcPids

open Params ProcMachine ProcOwner Runs

variable {n k : Nat} {s t : State n k} {a : Act n k} {c : Fin k} {q : Fin n}

def Live (s : State n k) (q : Fin n) : Prop := (s.proc q).state ≠ .unused

structure Distinct (s : State n k) : Prop where
  positive : ∀ q, Live s q → 0 < (s.proc q).pid.toInt
  distinct : ∀ q r, Live s q → Live s r → (s.proc q).pid = (s.proc r).pid → q = r

def PidLeft (s : State n k) (a : Act n k) : Prop :=
  ∀ c q ok, a = .alloc c q ok → 0 < s.nextpid.toInt

/-- As long as the counter has not wrapped, it is above every pid in use. -/
structure Pids (s : State n k) : Prop extends Distinct s where
  below : ∀ q, Live s q → 0 < s.nextpid.toInt → (s.proc q).pid.toInt < s.nextpid.toInt

/-- A step that hands out no pid: a live process was live before, with its pid. -/
structure KeepsPids (s t : State n k) : Prop where
  nextpid : t.nextpid = s.nextpid
  live : ∀ q, Live t q → Live s q ∧ (t.proc q).pid = (s.proc q).pid

lemma KeepsPids.pids (kept : KeepsPids s t) (h : Pids s) : Pids t where
  positive q live := by
    obtain ⟨old, same⟩ := kept.live q live
    rw [same]
    exact h.positive q old
  distinct q r liveq liver eq := by
    obtain ⟨oldq, sameq⟩ := kept.live q liveq
    obtain ⟨oldr, samer⟩ := kept.live r liver
    rw [sameq, samer] at eq
    exact h.distinct q r oldq oldr eq
  below q live positive := by
    obtain ⟨old, same⟩ := kept.live q live
    rw [kept.nextpid] at positive ⊢
    rw [same]
    exact h.below q old positive

lemma pids_proc (nextpid : t.nextpid = s.nextpid) (proc : t.proc = s.proc) : KeepsPids s t := by
  refine ⟨nextpid, fun q live => ?_⟩
  unfold Live at live ⊢
  rw [proc] at live ⊢
  exact ⟨live, rfl⟩

lemma pids_setProc (nextpid : t.nextpid = s.nextpid) (proc : t.proc = Function.update s.proc q p)
    (ok : p.state ≠ .unused → Live s q ∧ p.pid = (s.proc q).pid) : KeepsPids s t := by
  refine ⟨nextpid, fun r live => ?_⟩
  unfold Live at live
  rw [proc] at live ⊢
  rcases eq_or_ne r q with rfl | ne
  · simpa using ok (by simpa using live)
  · simpa [ne, Live] using live

lemma keepsPids_reparent (s : State n k) (p) : KeepsPids s (reparent s p) := by
  refine ⟨rfl, fun q live => ?_⟩
  unfold Live at live ⊢
  simp only [reparent_state] at live
  refine ⟨live, ?_⟩
  simp only [reparent]
  split <;> rfl

lemma KeepsPids.trans (first : KeepsPids s t) (rest : KeepsPids t u) : KeepsPids s u := by
  refine ⟨rest.nextpid.trans first.nextpid, fun q live => ?_⟩
  obtain ⟨mid, same⟩ := rest.live q live
  obtain ⟨old, same'⟩ := first.live q mid
  exact ⟨old, same.trans same'⟩

lemma wake_live (p : Proc n) (live : (wake p).state ≠ .unused) : p.state ≠ .unused ∧ (wake p).pid = p.pid := by
  constructor
  · intro unused
    exact live (wake_unused unused)
  · unfold wake
    split <;> rfl

lemma keepsPids_call (ha : a.isCall = true) (noAlloc : ∀ c q ok, a ≠ .alloc c q ok)
    (hs : Step s a t) : KeepsPids s t := by
  cases a <;> try contradiction
  all_goals simp only [Step, step] at hs
  case wakeup c q chan =>
    obtain ⟨-, -, -, rfl | ⟨-, rfl⟩⟩ := wakeup_inv hs
    · exact pids_proc rfl rfl
    · exact pids_setProc rfl rfl (wake_live _)
  case kill c q pid =>
    obtain ⟨-, -, rfl | rfl⟩ := kill_inv hs
    · exact pids_proc rfl rfl
    · exact pids_setProc rfl rfl (wake_live (s.proc q))
  case alloc c q ok => exact absurd rfl (noAlloc c q ok)
  case setParent c q =>
    obtain ⟨p, -, -, rfl⟩ := setParent_inv hs
    exact pids_setProc rfl rfl fun live => ⟨live, rfl⟩
  case makeRunnable c q =>
    obtain ⟨-, -, used, rfl⟩ := makeRunnable_inv hs
    exact pids_setProc rfl rfl fun _ => ⟨by simp [Live, used], rfl⟩
  case reap c q =>
    obtain ⟨-, -, -, rfl⟩ := reap_inv hs
    exact pids_setProc rfl rfl fun live => absurd rfl live
  case setType c type pid =>
    obtain ⟨-, rfl | ⟨q, -, rfl⟩⟩ := sysSetType_inv hs
    · exact pids_proc rfl rfl
    · exact pids_setProc rfl rfl fun live => ⟨live, rfl⟩
  case tick c =>
    obtain ⟨-, rfl⟩ := clockintr_inv hs
    exact pids_proc rfl rfl

lemma keepsPids_leave (inv : Inv s)
    (hs : leave s c to_ f = some t) (same : ∀ p, (f p).pid = p.pid) : KeepsPids s t := by
  obtain ⟨p, t0, hctl, -, rfl⟩ := leave_inv hs
  have running : (s.proc p).state = .running := (inv.fits_at hctl).2.2
  exact pids_setProc rfl rfl fun _ => ⟨by simp [Live, running], same _⟩

lemma keepsPids_step (inv : Inv s) (noAlloc : ∀ c q ok, a ≠ .alloc c q ok) (hs : Step s a t) : KeepsPids s t := by
  by_cases ha : a.isCall = true
  · exact keepsPids_call ha noAlloc hs
  cases a <;> try contradiction
  all_goals simp only [Step, step] at hs
  case visit c =>
    obtain ⟨i, found, hi, -, -, rfl⟩ := visit_inv hs
    exact pids_proc rfl rfl
  case choose c =>
    obtain ⟨i, found, -, -, rfl⟩ := choose_inv hs
    exact pids_proc rfl rfl
  case wfi c =>
    obtain ⟨-, rfl⟩ := wfi_inv hs
    exact pids_proc rfl rfl
  case acquire c =>
    obtain ⟨r, -, -, rfl⟩ := acquire_inv hs
    exact pids_proc rfl rfl
  case dispatch c =>
    obtain ⟨r, -, ready, rfl⟩ := dispatch_inv hs
    exact pids_setProc rfl rfl fun _ => ⟨by simp [Live, ready], rfl⟩
  case release c =>
    obtain ⟨r, -, -, rfl⟩ := release_inv hs
    exact pids_proc rfl rfl
  case resumed c =>
    obtain ⟨p, from_, t0, -, rfl⟩ := resumed_eq hs
    refine pids_setProc rfl rfl fun live => ?_
    split at live <;> exact ⟨live, by split <;> rfl⟩
  case yield c => exact keepsPids_leave inv hs fun _ => rfl
  case sleep c chan => exact keepsPids_leave inv hs fun _ => rfl
  case exit c status =>
    obtain ⟨p, -, hl⟩ := exit_inv hs
    exact (keepsPids_reparent s p).trans (keepsPids_leave (inv.reparent p) hl fun _ => rfl)
  case swtch c =>
    obtain ⟨p, to_, t0, -, rfl⟩ := swtch_inv hs
    exact pids_proc rfl rfl
  case account c =>
    obtain ⟨p, t0, -, rfl⟩ := account_inv hs
    exact pids_setProc rfl rfl fun live => ⟨live, rfl⟩

lemma toInt_succ {x : Int32} (h : 0 < x.toInt) (h' : 0 < (x + 1).toInt) : (x + 1).toInt = x.toInt + 1 := by
  have range := x.toInt_lt
  rw [Int32.toInt_add] at h' ⊢
  have one : (1 : Int32).toInt = 1 := rfl
  rw [Int.bmod_def] at h' ⊢
  split_ifs at h' ⊢ <;> omega

lemma Pids.alloc {ok : Bool} (h : Pids s) (left : 0 < s.nextpid.toInt) (hs : alloc s c q ok = some t) : Pids t := by
  obtain ⟨-, -, -, rfl⟩ := alloc_inv hs
  have wrapped : 0 < (s.nextpid + 1).toInt → s.nextpid.toInt < (s.nextpid + 1).toInt := by
    intro positive
    rw [toInt_succ left positive]
    omega
  cases ok with
  | false =>
    have kept : ∀ r, Live ({ s with nextpid := s.nextpid + 1 }.setProc q
      (freeproc (allocproc (s.proc q) s.nextpid))) r → r ≠ q ∧ Live s r := by
      intro r live
      unfold Live at live ⊢
      rcases eq_or_ne r q with rfl | ne
      · simp [freeproc] at live
      · exact ⟨ne, by simpa [ne] using live⟩
    refine ⟨⟨fun r live => ?_, fun r r' live live' eq => ?_⟩, fun r live positive => ?_⟩
    · obtain ⟨ne, old⟩ := kept r live
      simpa [ne] using h.positive r old
    · obtain ⟨ne, old⟩ := kept r live
      obtain ⟨ne', old'⟩ := kept r' live'
      exact h.distinct r r' old old' (by simpa [ne, ne'] using eq)
    · obtain ⟨ne, old⟩ := kept r live
      have low := h.below r old left
      have up := wrapped positive
      simp only [Bool.false_eq_true, if_false, State.setProc_proc, Function.update_of_ne ne, State.setProc_nextpid]
      omega
  | true =>
    have other : ∀ r, r ≠ q → Live ({ s with nextpid := s.nextpid + 1 }.setProc q
      (allocproc (s.proc q) s.nextpid)) r → Live s r := by
      intro r ne live
      simpa [Live, ne] using live
    -- the pids before were all below the one handed out
    have fresh : ∀ r, Live s r → (s.proc r).pid ≠ s.nextpid := by
      intro r live eq
      have low := h.below r live left
      rw [eq] at low
      omega
    refine ⟨⟨fun r live => ?_, fun r r' live live' eq => ?_⟩, fun r live positive => ?_⟩
    · rcases eq_or_ne r q with rfl | ne
      · simpa [allocproc] using left
      · simpa [ne] using h.positive r (other r ne live)
    · by_cases hr : r = q <;> by_cases hr' : r' = q
      · exact hr.trans hr'.symm
      · exact absurd (by simpa [hr, hr', allocproc] using eq.symm) (fresh r' (other r' hr' live'))
      · exact absurd (by simpa [hr, hr', allocproc] using eq) (fresh r (other r hr live))
      · exact h.distinct r r' (other r hr live) (other r' hr' live') (by simpa [hr, hr'] using eq)
    · have up := wrapped positive
      rcases eq_or_ne r q with rfl | ne
      · simpa [allocproc] using up
      · have low := h.below r (other r ne live) left
        simp only [if_true, State.saveContext_proc, State.setProc_proc, Function.update_of_ne ne,
          State.saveContext_nextpid, State.setProc_nextpid]
        omega

lemma Pids.step (h : Pids s) (inv : Inv s) (left : PidLeft s a) (hs : Step s a t) : Pids t := by
  by_cases alloc : ∃ c q ok, a = .alloc c q ok
  · obtain ⟨c, q, ok, rfl⟩ := alloc
    exact h.alloc (left c q ok rfl) hs
  · refine (keepsPids_step inv ?_ hs).pids h
    rintro c q ok rfl
    exact alloc ⟨c, q, ok, rfl⟩

lemma Pids.boot (first) : Pids (boot first : State n k) := by
  have only : ∀ q, Live (ProcMachine.boot first : State n k) q →
    q = first ∧ ((ProcMachine.boot first : State n k).proc q).pid = 1 := by
    intro q live
    rcases eq_or_ne q first with rfl | ne
    · simp [ProcMachine.boot, allocproc]
    · simp [Live, ProcMachine.boot, ne, emptyProc] at live
  refine ⟨⟨fun q live => ?_, fun q r live live' _ => ?_⟩, fun q live _ => ?_⟩
  · rw [(only q live).2]
    decide
  · exact (only q live).1.trans (only r live').1.symm
  · rw [(only q live).2]
    exact (by decide : (1 : Int32).toInt < (2 : Int32).toInt)

/-- While no pid is handed out by a counter that has wrapped, the live processes have
distinct positive pids. -/
theorem pids_distinct {first : Fin n} {as : List (Act n k)}
    (run : Run (Meets Step PidLeft) (boot first) as s) : Distinct s := by
  have both : Inv s ∧ Pids s := by
    refine run.invariant (fun s => Inv s ∧ Pids s) (fun u b v h hs => ?_) ⟨.boot first, .boot first⟩
    exact ⟨h.1.step hs.1, h.2.step h.1 hs.2 hs.1⟩
  exact both.2.toDistinct

section
variable (on : (s.ctl c).running.isSome) (free : s.lock q = none) (unused : (s.proc q).state = .unused)
include on free unused

lemma failing_forks (m) :
    ∃ t, Run Step s (List.replicate m (.alloc c q false)) t ∧ t.nextpid = s.nextpid + Int32.ofNat m ∧
      t.ctl = s.ctl ∧ t.lock = s.lock ∧ (t.proc q).state = .unused ∧
      ∀ r, r ≠ q → t.proc r = s.proc r := by
  induction m generalizing s with
  | zero => exact ⟨s, .nil s, by simp, rfl, rfl, unused, fun _ _ => rfl⟩
  | succ m ih =>
    obtain ⟨u, hu⟩ : ∃ u, u = { s with nextpid := s.nextpid + 1 }.setProc q
      (freeproc (allocproc (s.proc q) s.nextpid)) := ⟨_, rfl⟩
    have first : Step s (.alloc c q false) u := by simp [Step, step, alloc, on, free, unused, hu]
    obtain ⟨t, run, pid, ctl, lock, state, others⟩ := ih (s := u) (by simpa [hu] using on)
      (by simpa [hu] using free) (by simp [hu, freeproc])
    refine ⟨t, .cons first run, ?_, ctl.trans (by rw [hu]; rfl), lock.trans (by rw [hu]; rfl), state, fun r ne => ?_⟩
    · have next : u.nextpid = s.nextpid + 1 := by
        rw [hu]
        rfl
      rw [pid, next, Int32.ofNat_add, Int32.add_assoc, Int32.add_comm 1]
      rfl
    · rw [others r ne, hu]
      simp [ne]

lemma pid_after (m) : ∃ t, Run Step s (List.replicate m (.alloc c q false) ++ [.alloc c q true]) t ∧ Live t q ∧
    (t.proc q).pid = s.nextpid + Int32.ofNat m ∧ ∀ r, r ≠ q → t.proc r = s.proc r := by
  obtain ⟨u, run, pid, ctl, lock, state, others⟩ := failing_forks on free unused m
  refine ⟨({ u with nextpid := u.nextpid + 1 }.setProc q
    (allocproc (u.proc q) u.nextpid)).saveContext q .forkret, run.snoc ?_, ?_, ?_, ?_⟩
  · simp [Step, step, alloc, ctl, lock, on, free, state]
  · simp [Live, allocproc]
  · simp [allocproc, pid]
  · intro r ne
    simpa [ne] using others r ne

end

lemma started_run : ∃ s, Run Step (boot 0) started s ∧ (s.ctl 0).running.isSome ∧ s.lock 1 = none ∧
    (s.proc 1).state = .unused ∧ s.nextpid = 2 ∧ Live s 0 ∧ (s.proc 0).pid = 1 := by
  have run : ((exec step (boot 0) started).map fun s => ((s.ctl 0).running.isSome, s.lock 1,
    (s.proc 1).state, s.nextpid, (s.proc 0).state, (s.proc 0).pid)) =
    some (true, none, .unused, 2, .running, 1) := by
    decide +kernel
  obtain ⟨s, hs, facts⟩ := Option.map_eq_some_iff.mp run
  simp only [Prod.mk.injEq] at facts
  obtain ⟨on, free, unused, next, state, pid⟩ := facts
  exact ⟨s, run_of_exec step hs, on, free, unused, next, by simp [Live, state], pid⟩

theorem pids_distinct_forked :
    ∃ s : State nproc 1, Run Step (boot 0) (started ++ [.alloc 0 1 true]) s ∧ Live s 1 ∧ Distinct s := by
  obtain ⟨s, run, on, free, unused, next, -, -⟩ := started_run
  obtain ⟨t, last, live, -, -⟩ := pid_after on free unused 0
  have run' : Run (Meets Step PidLeft) (boot 0) (started ++ [.alloc 0 1 true]) t := by
    refine Run.append (run.meets fun a ha s c q ok eq => ?_) ?_
    · subst eq
      simp [started] at ha
    · cases last with
      | cons h done =>
        cases done
        exact .single ⟨h, fun _ _ _ _ => by rw [next]; decide⟩
  exact ⟨t, run'.forget, live, pids_distinct run'⟩

/-- After `2 ^ 31 - 2` failing forks the next child has a negative pid, and after
`2 ^ 32 - 1` the pid of the first process. -/
theorem pids_wrap : (∃ as, ∃ s : State nproc 1, Run Step (boot 0) as s ∧ Live s 1 ∧ (s.proc 1).pid.toInt < 0) ∧
    (∃ as, ∃ s : State nproc 1, Run Step (boot 0) as s ∧ Live s 0 ∧ Live s 1 ∧ (s.proc 0).pid = (s.proc 1).pid) := by
  obtain ⟨s, run, on, free, unused, next, live, pid⟩ := started_run
  constructor
  · obtain ⟨t, last, live, pid, -⟩ := pid_after on free unused (2 ^ 31 - 2)
    refine ⟨_, t, run.append last, live, ?_⟩
    rw [pid, next]
    decide
  · obtain ⟨t, last, live', pid', others⟩ := pid_after on free unused (2 ^ 32 - 1)
    have same := others 0 (by decide)
    refine ⟨_, t, run.append last, ?_, live', ?_⟩
    · simpa [Live, same] using live
    · rw [pid', next, same, pid]
      decide

end Xv6.ProcPids
