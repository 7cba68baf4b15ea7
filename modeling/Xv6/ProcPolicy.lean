import Xv6.ProcScan

/-! Which process `scheduler` dispatches on one CPU. After `yield` the inner loop dispatches the same
process again without a scan, so it never gives way; the priorities of the scan hold at a dispatch
only while no process of a higher priority is runnable at a `yield`, or woken behind the scan. -/

namespace Xv6.ProcPolicy

open Params ProcMachine ProcOwner ProcScan Runs
open Function (update_of_ne update_self)

variable {n : Nat} {s t : State n 1} {p q : Fin n} {a : Act n 1}

/-- The process has been made runnable by `yield` and the CPU, its lock held,
is on the way round the inner loop. -/
def Returning (s : State n 1) (p : Fin n) : Prop :=
  (s.proc p).state = .runnable ∧
    ((∃ to_ t₀, s.ctl 0 = .leaving p to_ t₀) ∨ (∃ t₀, s.ctl 0 = .back p t₀) ∨ s.ctl 0 = .test p)

lemma offers_zero (hs : Step s a t) : Offers 0 (s.ctl 0) a := Subsingleton.elim a.cpu 0 ▸ offers_of_step hs

lemma returning_of_yield (on : (s.ctl 0).running = some p) (hs : Step s (.yield 0) t) : Returning t p := by
  obtain ⟨p', t0, hctl, -, rfl⟩ := yield_inv hs
  rw [hctl] at on
  obtain rfl := Option.some.inj on
  exact ⟨by simp, .inl ⟨.yield, t0, by simp⟩⟩

def SameTable (s t : State n 1) : Prop :=
  ∀ q, (t.proc q).state = (s.proc q).state ∧ (t.proc q).type = (s.proc q).type

/-- Until the next dispatch the CPU only goes round the inner loop. -/
lemma Returning.step (h : Returning s p) (hs : Step s a t) (wait : a ≠ .dispatch 0) :
    Returning t p ∧ SameTable s t := by
  obtain ⟨ready, place⟩ := h
  have offer := offers_zero hs
  rcases place with ⟨to_, t0, hctl⟩ | ⟨t0, hctl⟩ | hctl <;> rw [hctl] at offer
  · obtain rfl : a = .swtch 0 := offer
    obtain ⟨p', to', t', hctl', rfl⟩ := swtch_inv hs
    obtain ⟨rfl, rfl, rfl⟩ := Ctl.leaving.inj (hctl.symm.trans hctl')
    exact ⟨⟨ready, .inr (.inl ⟨t0, by simp⟩)⟩, fun _ => ⟨rfl, rfl⟩⟩
  · obtain rfl : a = .account 0 := offer
    obtain ⟨p', t', hctl', rfl⟩ := account_inv hs
    obtain ⟨rfl, rfl⟩ := Ctl.back.inj (hctl.symm.trans hctl')
    refine ⟨⟨by simpa using ready, .inr (.inr (by simp))⟩, fun q => ?_⟩
    rcases eq_or_ne q p with rfl | ne
    · simp
    · simp [ne]
  · obtain rfl : a = .release 0 := offer.resolve_left wait
    obtain ⟨r, hctl', stop, rfl⟩ := release_inv hs
    obtain rfl := Ctl.test.inj (hctl.symm.trans hctl')
    exact absurd ready stop

lemma Returning.dispatched (h : Returning s p) (hs : Step s (.dispatch 0) t) : t.current 0 = some p := by
  obtain ⟨r, hctl, -, rfl⟩ := dispatch_inv hs
  obtain ⟨-, ⟨to_, t0, e⟩ | ⟨t0, e⟩ | e⟩ := h <;> rw [hctl] at e
  · exact nomatch e
  · exact nomatch e
  · simp [Ctl.test.inj e]

structure Rival (s : State n 1) (p q : Fin n) : Prop where
  ne : q ≠ p
  ready : (s.proc q).state = .runnable
  type : (s.proc q).type = (s.proc p).type

def Waits (q : Fin n) (s : State n 1) (a : Act n 1) : Prop :=
  a ≠ .dispatch 0 ∧ (s.proc q).state = .runnable

section
variable (on : (s.ctl 0).running = some p) (hs : Step s (.yield 0) t)
include on hs

lemma yield_round (ne : q ≠ p) (ready : (s.proc q).state = .runnable) :
    ∃ bs u v, Run (Meets Step (Waits q)) t bs u ∧ Step u (.dispatch 0) v ∧
      (u.proc q).state = .runnable ∧ ∀ r, (u.proc r).type = (s.proc r).type := by
  have ret := returning_of_yield on hs
  obtain ⟨p', t0, hctl, -, ht⟩ := yield_inv hs
  rw [hctl] at on
  obtain rfl := Option.some.inj on
  have ready_t : (t.proc q).state = .runnable := by simpa [ht, ne] using ready
  have types : ∀ r, (t.proc r).type = (s.proc r).type := by
    intro r
    rcases eq_or_ne r p' with rfl | ne
    · simp [ht]
    · simp [ht, ne]
  have leaving : t.ctl 0 = .leaving p' .yield t0 := by simp [ht]
  obtain ⟨u, out, back⟩ : ∃ u, Step t (.swtch 0) u ∧ u.ctl 0 = .back p' t0 := by simp [Step, step, swtch, leaving]
  obtain ⟨ret, same⟩ := ret.step out (by simp)
  have ready_u := (same q).1.trans ready_t
  obtain ⟨v, counted, test⟩ : ∃ v, Step u (.account 0) v ∧ v.ctl 0 = .test p' := by
    simp [Step, step, account, back]
  obtain ⟨ret, same'⟩ := ret.step counted (by simp)
  obtain ⟨w, next⟩ : ∃ w, Step v (.dispatch 0) w := by simp [Step, step, dispatch, test, ret.1]
  exact ⟨[.swtch 0, .account 0], v, w, .cons ⟨out, by simp, ready_t⟩ (.single ⟨counted, by simp, ready_u⟩), next,
    (same' q).1.trans ready_u, fun r => (same' r).2.trans ((same r).2.trans (types r))⟩

lemma dispatch_after_yield (run : Run (Meets Step (Waits q)) t bs u) (next : Step u (.dispatch 0) v) :
    v.current 0 = some p :=
  (run.invariant (fun u => Returning u p) (fun _ _ _ ret ⟨hs, wait, _⟩ => (ret.step hs wait).1)
    (returning_of_yield on hs)).dispatched next

end

/-- When `p` yields while another process of its type is runnable, and stays so,
the CPU comes to a dispatch and it is always `p` that is dispatched. -/
theorem yield_redispatches (on : (s.ctl 0).running = some p) (hs : Step s (.yield 0) t) (rival : Rival s p q) :
    (∀ bs u v, Run (Meets Step (Waits q)) t bs u → (u.proc q).state = .runnable →
      Step u (.dispatch 0) v → v.current 0 = some p) ∧
    ∃ bs u v, Run (Meets Step (Waits q)) t bs u ∧ (u.proc q).state = .runnable ∧ Step u (.dispatch 0) v := by
  refine ⟨fun _ _ _ run _ next => dispatch_after_yield on hs run next, ?_⟩
  obtain ⟨bs, u, v, run, next, ready, -⟩ := yield_round on hs rival.ne rival.ready
  exact ⟨bs, u, v, run, ready, next⟩

def forked (type : Int32) : List (Act nproc 1) :=
  List.replicate nproc (.visit 0) ++
    [.choose 0, .acquire 0, .dispatch 0, .resumed 0, .alloc 0 1 true, .setParent 0 1,
      .makeRunnable 0 1, .setType 0 type 2]

lemma forked_run (type : Int32) (known : Recognised type) : ∃ s t,
    Run Step (boot 0) (forked type) s ∧ (s.ctl 0).running = some 0 ∧ Step s (.yield 0) t ∧
      (s.proc 0).type = defaultType ∧ (s.proc 1).state = .runnable ∧ (s.proc 1).type = type := by
  have run : ∀ type, Recognised type → ((exec step (boot 0) (forked type)).map fun s =>
    ((s.ctl 0).running, (yield s 0).isSome, (s.proc 0).type, (s.proc 1).state,
      (s.proc 1).type)) = some (some 0, true, defaultType, .runnable, type) := by
    rintro _ (rfl | rfl | rfl) <;> decide +kernel
  obtain ⟨s, hs, facts⟩ := Option.map_eq_some_iff.mp (run type known)
  obtain ⟨on, may, first, ready, child⟩ :
    (s.ctl 0).running = some 0 ∧ (yield s 0).isSome = true ∧ (s.proc 0).type = defaultType ∧
      (s.proc 1).state = .runnable ∧ (s.proc 1).type = type := by
    simpa using facts
  obtain ⟨t, ht⟩ := Option.isSome_iff_exists.mp may
  exact ⟨s, t, run_of_exec step hs, on, ht, first, ready, child⟩

theorem yield_redispatches_forked :
    ∃ s t : State nproc 1, (s.ctl 0).running = some 0 ∧ Step s (.yield 0) t ∧ Rival s 0 1 ∧
      ∀ bs u v, Run (Meets Step (Waits 1)) t bs u → (u.proc 1).state = .runnable →
        Step u (.dispatch 0) v → v.current 0 = some 0 := by
  obtain ⟨s, t, -, on, hs, first, ready, child⟩ := forked_run defaultType (.inl rfl)
  have rival : Rival s 0 1 := ⟨by decide, ready, child.trans first.symm⟩
  exact ⟨s, t, on, hs, rival, (yield_redispatches on hs rival).1⟩

theorem yield_does_not_give_way : ∃ (s t u v : State nproc 1) (bs : List (Act nproc 1)), Reachable s ∧
    (s.ctl 0).running = some 0 ∧ Step s (.yield 0) t ∧ Rival s 0 1 ∧
    Run (Meets Step (Waits 1)) t bs u ∧ (u.proc 1).state = .runnable ∧
    Step u (.dispatch 0) v ∧ v.current 0 = some 0 := by
  obtain ⟨s, t, run, on, hs, first, ready, child⟩ := forked_run defaultType (.inl rfl)
  have rival : Rival s 0 1 := ⟨by decide, ready, child.trans first.symm⟩
  obtain ⟨bs, u, v, wait, next, still, -⟩ := yield_round on hs rival.ne ready
  exact ⟨s, t, u, v, bs, ⟨0, _, run⟩, on, hs, rival, wait, still, next, dispatch_after_yield on hs wait next⟩

section

def Preferred (s : State n 1) (p : Fin n) : Prop :=
  ((∃ q, (s.proc q).state = .runnable ∧ (s.proc q).type = ioBound) →
    (s.proc p).type = ioBound) ∧
  ((¬ ∃ q, (s.proc q).state = .runnable ∧ (s.proc q).type = ioBound) →
    (∃ q, (s.proc q).state = .runnable ∧ (s.proc q).type = cpuBound) →
    (s.proc p).type = cpuBound)

def Outranks (q p : Proc n) : Prop :=
  q.type = ioBound ∧ p.type ≠ ioBound ∨
    q.type = cpuBound ∧ p.type ≠ ioBound ∧ p.type ≠ cpuBound

def Top (s : State n 1) (p : Fin n) : Prop :=
  ∀ q, (s.proc q).state = .runnable → ¬ Outranks (s.proc q) (s.proc p)

def Beyond (found : Found n) (q : Proc n) : Prop :=
  q.type = ioBound ∧ found.ioProc = none ∨
    q.type = cpuBound ∧ found.ioProc = none ∧ found.cpuProc = none

def Behind (s : State n 1) (q : Fin n) : Ctl n → Prop
  | .scan i found => q.val < i → ¬ Beyond found (s.proc q)
  | .chosen (some r) => ¬ Outranks (s.proc q) (s.proc r)
  | _ => True

/-- No runnable process outranks one that yields, and no process that outranks
the candidates is woken behind the scan. -/
def Timely (s : State n 1) : Act n 1 → Prop
  | .yield _ => ∀ p, (s.ctl 0).running = some p → Top s p
  | .wakeup _ q chan =>
    (s.proc q).state = .sleeping → (s.proc q).chan = chan → Behind s q (s.ctl 0)
  | _ => True

structure Genuine (s : State n 1) (found : Found n) : Prop where
  io : ∀ r, found.ioProc = some r → (s.proc r).state = .runnable ∧ (s.proc r).type = ioBound
  cpu : ∀ r, found.cpuProc = some r → (s.proc r).state = .runnable ∧ (s.proc r).type = cpuBound
  other : ∀ r, found.defaultProc = some r → (s.proc r).state = .runnable

def Ranked (s : State n 1) : Ctl n → Prop
  | .scan i found => Genuine s found ∧
      ∀ q, q.val < i → (s.proc q).state = .runnable → ¬ Beyond found (s.proc q)
  | .chosen (some r) => (s.proc r).state = .runnable ∧ Top s r
  | .test r => (s.proc r).state = .runnable → Top s r
  | .leaving p _ _ | .back p _ => (s.proc p).state = .runnable → Top s p
  | _ => True

lemma preferred_of_top (h : Top s p) (ready : (s.proc p).state = .runnable) : Preferred s p := by
  refine ⟨fun ⟨q, hq, io⟩ => ?_, fun none_ ⟨q, hq, cpu⟩ => ?_⟩
  · by_contra ne
    exact h q hq (.inl ⟨io, ne⟩)
  · by_contra ne
    exact h q hq (.inr ⟨cpu, fun io => none_ ⟨p, ready, io⟩, ne⟩)

lemma Top.of_same (same : SameTable s t) (h : Top s p) : Top t p := by
  intro q ready
  rw [(same q).1] at ready
  simpa only [Outranks, (same q).2, (same p).2] using h q ready

lemma not_outranks_self (p : Proc n) : ¬ Outranks p p := by
  rintro (⟨h, ne⟩ | ⟨h, -, ne⟩) <;> exact ne h

lemma Genuine.visit (h : Genuine s found) (q) : Genuine s (found.visit q (s.proc q)) := by
  unfold Found.visit
  split_ifs with ready cpu io dflt
  · exact ⟨h.io, fun r e => Option.some.inj e ▸ ⟨ready, cpu.1⟩, h.other⟩
  · exact ⟨fun r e => Option.some.inj e ▸ ⟨ready, io.1⟩, h.cpu, h.other⟩
  · exact ⟨h.io, h.cpu, fun r e => Option.some.inj e ▸ ready⟩
  · exact h
  · exact h

lemma beyond_of_visit (h : Beyond (found.visit q p1) p2) : Beyond found p2 := by
  unfold Found.visit at h
  split_ifs at h <;> simp_all [Beyond]

lemma not_beyond_visit {found : Found n} (ready : p1.state = .runnable) : ¬ Beyond (found.visit q p1) p1 := by
  unfold Found.visit Beyond
  split_ifs <;> simp_all [cpuBound, ioBound]

lemma top_of_runProc (genuine : Genuine s found)
    (passed : ∀ q, (s.proc q).state = .runnable → ¬ Beyond found (s.proc q))
    (h : found.runProc = some r) : (s.proc r).state = .runnable ∧ Top s r := by
  obtain ⟨cpu, io, dflt⟩ := found
  cases io with
  | some r' =>
    obtain rfl : r' = r := by simpa [Found.runProc] using h
    obtain ⟨ready, type⟩ := genuine.io r' rfl
    refine ⟨ready, fun q hq => ?_⟩
    simp [Outranks, type]
  | none =>
    cases cpu with
    | some r' =>
      obtain rfl : r' = r := by simpa [Found.runProc] using h
      obtain ⟨ready, type⟩ := genuine.cpu r' rfl
      refine ⟨ready, fun q hq out => passed q hq ?_⟩
      rcases out with ⟨e, -⟩ | ⟨e, -, ne⟩
      · exact .inl ⟨e, rfl⟩
      · exact absurd type ne
    | none =>
      refine ⟨genuine.other r (by simpa [Found.runProc] using h), fun q hq out => passed q hq ?_⟩
      rcases out with ⟨e, -⟩ | ⟨e, -, -⟩
      · exact .inl ⟨e, rfl⟩
      · exact .inr ⟨e, rfl, rfl⟩

lemma ranked_congr (same : t.proc = s.proc) (h : Ranked s ctl) : Ranked t ctl := by
  rcases ctl with ⟨i, found⟩ | (_ | r) | _ | _ | _ | _ | _
  · obtain ⟨⟨io, cpu, other⟩, passed⟩ := h
    exact ⟨⟨same ▸ io, same ▸ cpu, same ▸ other⟩, same ▸ passed⟩
  all_goals first | trivial | simpa only [Ranked, Top, same] using h

lemma ranked_setCtl (h : Ranked s ctl) : Ranked (s.setCtl 0 next) ctl := by
  have same : (s.setCtl 0 next).proc = s.proc := rfl
  exact ranked_congr same h

lemma ranked_start (s : State n 1) : Ranked s (.scan 0 {}) :=
  ⟨⟨nofun, nofun, nofun⟩, fun _ lt => absurd lt (Nat.not_lt_zero _)⟩

lemma ranked_visit {i : Nat} (hi : i < n) (h : Ranked s (.scan i found)) :
    Ranked s (.scan (i + 1) (found.visit ⟨i, hi⟩ (s.proc ⟨i, hi⟩))) := by
  refine ⟨h.1.visit _, fun q lt ready beyond => ?_⟩
  rcases Nat.lt_succ_iff_lt_or_eq.mp lt with lt | e
  · exact h.2 q lt ready (beyond_of_visit beyond)
  · obtain rfl : q = ⟨i, hi⟩ := Fin.ext e
    exact not_beyond_visit ready beyond

section
variable (asleep : (s.proc q).state = .sleeping)
include asleep

lemma woken_other (ready : (s.proc r).state = .runnable) :
    (s.setProc q { s.proc q with state := .runnable }).proc r = s.proc r := by
  have ne : r ≠ q := by
    rintro rfl
    simp [asleep] at ready
  simp [ne]

lemma Top.wakeup (ready : (s.proc r).state = .runnable) (h : Top s r) (below : ¬ Outranks (s.proc q) (s.proc r)) :
    Top (s.setProc q { s.proc q with state := .runnable }) r := by
  intro q' hq'
  rw [woken_other asleep ready]
  rcases eq_or_ne q' q with rfl | ne
  · simpa [Outranks] using below
  · simp only [State.setProc_proc, update_of_ne ne] at hq' ⊢
    exact h q' hq'

lemma Genuine.wakeup (h : Genuine s found) : Genuine (s.setProc q { s.proc q with state := .runnable }) found where
  io r e := woken_other asleep (h.io r e).1 ▸ h.io r e
  cpu r e := woken_other asleep (h.cpu r e).1 ▸ h.cpu r e
  other r e := woken_other asleep (h.other r e) ▸ h.other r e

lemma ranked_wakeup (h : Ranked s ctl) (late : Behind s q ctl) (open_ : ctl.interruptible = true) :
    Ranked (s.setProc q { s.proc q with state := .runnable }) ctl := by
  rcases ctl with ⟨i, found⟩ | (_ | r) | _ | _ | _ | _ | _ <;> try contradiction
  · refine ⟨h.1.wakeup asleep, fun q' lt ready => ?_⟩
    rcases eq_or_ne q' q with rfl | ne
    · simpa [Beyond] using late lt
    · simp only [State.setProc_proc, update_of_ne ne] at ready ⊢
      exact h.2 q' lt ready
  · trivial
  · obtain ⟨ready, top⟩ := h
    refine ⟨?_, top.wakeup asleep ready late⟩
    rw [woken_other asleep ready]
    exact ready
  · trivial

end

lemma ranked_call (h : Ranked s (s.ctl 0)) (timely : Timely s a) (ha : a.isCall = true)
    (hs : Step s a t) : Ranked t (t.ctl 0) := by
  have zero : a.cpu = 0 := Subsingleton.elim _ _
  rw [(quiet_of_isCall ha hs).ctl]
  have open_ := interruptible_of_isCall ha hs
  rw [zero] at open_
  cases on : (s.ctl 0).running with
  | some p =>
    obtain ⟨t0, hctl⟩ := running_eq_some.mp on
    rw [hctl]
    trivial
  | none =>
    rcases call_off_thread ha hs (zero ▸ on) with same | ⟨q, chan, e, asleep, hc, rfl⟩
    · exact ranked_congr same h
    · rw [e] at timely
      exact ranked_wakeup asleep h (timely asleep hc) open_

lemma ranked_yield (timely : Timely s (.yield 0)) (hs : Step s (.yield 0) t) : Ranked t (t.ctl 0) := by
  obtain ⟨p, t0, hctl, -, rfl⟩ := yield_inv hs
  have top := timely p (running_eq_some.mpr ⟨t0, hctl⟩)
  intro _ q ready
  rcases eq_or_ne q p with rfl | ne
  · exact not_outranks_self _
  · simp only [State.setCtl_proc, State.setLock_proc, State.setProc_proc, update_of_ne ne] at ready
    simpa [Outranks, ne] using top q ready

lemma ranked_leave (hs : leave s 0 to_ f = some t) (stop : ∀ p, (f p).state ≠ .runnable) : Ranked t (t.ctl 0) := by
  obtain ⟨p, t0, hctl, -, rfl⟩ := leave_inv hs
  intro ready
  exact absurd (by simpa using ready) (stop (s.proc p))

lemma ranked_step (h : Ranked s (s.ctl 0)) (timely : Timely s a) (hs : Step s a t) : Ranked t (t.ctl 0) := by
  by_cases ha : a.isCall = true
  · exact ranked_call h timely ha hs
  have offer := offers_zero hs
  rcases hctl : s.ctl 0 with ⟨i, found⟩ | (_ | r) | r | ⟨p, from_, t0⟩ | ⟨p, t0⟩ | ⟨p, to_, t0⟩ |
    ⟨p, t0⟩ <;> rw [hctl] at h offer <;> simp only [Offers, ha, Bool.false_eq_true, or_false] at offer
  · rcases offer with rfl | rfl
    · obtain ⟨i', found', hi, hctl', -, rfl⟩ := visit_inv hs
      obtain ⟨rfl, rfl⟩ := Ctl.scan.inj (hctl.symm.trans hctl')
      simp only [State.setCtl_ctl, update_self]
      exact ranked_setCtl (ranked_visit hi h)
    · obtain ⟨i', found', hn, hctl', rfl⟩ := choose_inv hs
      obtain ⟨rfl, rfl⟩ := Ctl.scan.inj (hctl.symm.trans hctl')
      simp only [State.setCtl_ctl, update_self]
      cases chosen : found.runProc with
      | none => trivial
      | some r =>
        have top : Ranked s (.chosen (some r)) := top_of_runProc h.1 (fun q => h.2 q (by omega)) chosen
        exact ranked_setCtl top
  · subst offer
    obtain ⟨-, rfl⟩ := wfi_inv hs
    simpa using ranked_start _
  · subst offer
    obtain ⟨r', hctl', -, rfl⟩ := acquire_inv hs
    obtain rfl : r = r' := by simpa using hctl.symm.trans hctl'
    simp only [State.setCtl_ctl, update_self]
    exact fun _ => h.2
  · rcases offer with rfl | rfl
    · obtain ⟨r', -, -, rfl⟩ := dispatch_inv hs
      simp [Ranked]
    · obtain ⟨r', -, -, rfl⟩ := release_inv hs
      simpa using ranked_start _
  · subst offer
    obtain ⟨p, from_, t0, -, proc, -, -, rfl⟩ := resumed_inv hs
    simp [Ranked]
  · rcases offer with rfl | ⟨chan, rfl⟩ | ⟨status, rfl⟩
    · exact ranked_yield timely hs
    · exact ranked_leave (f := fun p => { p with chan := chan, state := .sleeping }) hs (by simp)
    · obtain ⟨p, -, hl⟩ := exit_inv hs
      exact ranked_leave hl (by simp)
  · subst offer
    obtain ⟨p', to', t', hctl', rfl⟩ := swtch_inv hs
    obtain ⟨rfl, rfl, rfl⟩ := Ctl.leaving.inj (hctl.symm.trans hctl')
    exact h
  · subst offer
    obtain ⟨p', t', hctl', rfl⟩ := account_inv hs
    obtain ⟨rfl, rfl⟩ := Ctl.back.inj (hctl.symm.trans hctl')
    refine fun ready => Top.of_same (fun q => ?_) (h (by simpa using ready))
    rcases eq_or_ne q p with rfl | ne
    · simp
    · simp [ne]

/-- On one CPU: along a run whose `yield`s and `wakeup`s are timely, every
dispatch is of a process that the policy prefers. -/
theorem dispatch_preferred {first : Fin n} {as : List (Act n 1)}
    (run : Run (Meets Step Timely) (boot first) as s) (hs : Step s (.dispatch 0) t)
    (on : t.current 0 = some p) : Preferred s p := by
  have ranked : Ranked s (s.ctl 0) :=
    run.invariant (fun s => Ranked s (s.ctl 0)) (fun _ _ _ h ⟨hs, timely⟩ => ranked_step h timely hs) (ranked_start _)
  obtain ⟨r, hctl, ready, rfl⟩ := dispatch_inv hs
  obtain rfl : r = p := by simpa using on
  rw [hctl] at ranked
  exact preferred_of_top (ranked ready) ready

instance (s : State n 1) (a : Act n 1) : Decidable (Timely s a) := by
  unfold Timely Top Behind Beyond Outranks
  cases a with
  | wakeup c q chan =>
    cases s.ctl 0 with
    | chosen r => cases r <;> infer_instance
    | _ => infer_instance
  | _ => infer_instance

/-- The child of type `IO_BOUND` runs while its parent sleeps; it wakes the parent and yields. -/
def wakesParent : List (Act nproc 1) :=
  forked ioBound ++ [.sleep 0 5, .swtch 0, .account 0, .release 0] ++ List.replicate nproc (.visit 0) ++
    [.choose 0, .acquire 0, .dispatch 0, .resumed 0, .wakeup 0 0 5, .yield 0, .swtch 0, .account 0]

theorem dispatch_preferred_woken : ∃ s t : State nproc 1, Run (Meets Step Timely) (boot 0) wakesParent s ∧
    (s.proc 0).state = .runnable ∧ (s.proc 1).state = .runnable ∧ (s.proc 1).type = ioBound ∧
    Step s (.dispatch 0) t ∧ t.current 0 = some 1 ∧ Preferred s 1 := by
  let timed (s : State nproc 1) (a : Act nproc 1) : Option (State nproc 1) := if Timely s a then step s a else none
  have ends : (exec timed (boot 0) wakesParent).any (fun s => (s.proc 0).state = .runnable ∧
      (s.proc 1).state = .runnable ∧ (s.proc 1).type = ioBound ∧
      (dispatch s 0).any (fun t => t.current 0 = some 1)) = true := by decide +kernel
  obtain ⟨s, ran, facts⟩ := (Option.any_eq_true _ _).mp ends
  obtain ⟨parent, child, io, may⟩ := of_decide_eq_true facts
  obtain ⟨t, next, on⟩ := (Option.any_eq_true _ _).mp may
  have run : Run (Meets Step Timely) (boot 0) wakesParent s := by
    refine (run_of_exec timed ran).mono fun s a t went => ?_
    simp only [timed] at went
    split_ifs at went with timely
    exact ⟨went, timely⟩
  exact ⟨s, t, run, parent, child, io, next, of_decide_eq_true on,
    dispatch_preferred run next (of_decide_eq_true on)⟩

/-- A process of type `DEFAULT` yields and is dispatched again, past a runnable
process of type `IO_BOUND`. -/
theorem dispatch_not_preferred : ∃ (s t : State nproc 1) (as : List (Act nproc 1)), Run Step (boot 0) as s ∧
    Step s (.dispatch 0) t ∧ t.current 0 = some 0 ∧ ¬ Preferred s 0 := by
  obtain ⟨s, t, run, on, hs, first, ready, child⟩ := forked_run ioBound (.inr (.inr rfl))
  obtain ⟨bs, u, v, wait, next, still, types⟩ := yield_round (q := 1) on hs (by decide) ready
  refine ⟨u, v, _, run.append (.cons hs wait.forget), next, dispatch_after_yield on hs wait next, ?_⟩
  intro preferred
  have io := preferred.1 ⟨1, still, (types 1).trans child⟩
  rw [types, first] at io
  exact absurd io (by decide)

end

end Xv6.ProcPolicy
