import Xv6.ProcOwner

/-! The table scan of `scheduler` recognises three values of `p->type`. When
every process in use has one of them, a scan during which some process stays
runnable chooses a process; `set_type` with another value breaks this. -/

namespace Xv6.ProcScan

open Params ProcMachine ProcOwner Runs

variable {n k : Nat} {s t : State n k} {c : Fin k} {q r : Fin n} {found : Found n}

def Recognised (type : Int32) : Prop :=
  type = defaultType ∨ type = cpuBound ∨ type = ioBound

instance (type : Int32) : Decidable (Recognised type) :=
  inferInstanceAs (Decidable (_ ∨ _))

def Has (found : Found n) (r : Fin n) : Prop :=
  found.cpuProc = some r ∨ found.ioProc = some r ∨ found.defaultProc = some r

lemma runProc_eq_none : found.runProc = none ↔
    found.cpuProc = none ∧ found.ioProc = none ∧ found.defaultProc = none := by
  obtain ⟨cpu, io, dflt⟩ := found
  cases cpu <;> cases io <;> simp [Found.runProc]

lemma has_of_runProc (h : found.runProc = some r) : Has found r := by
  obtain ⟨cpu, io, dflt⟩ := found
  cases cpu <;> cases io <;> simp_all [Found.runProc, Has]

lemma visit_has (h : Has (found.visit q p) r) : Has found r ∨ r = q ∧ p.state = .runnable := by
  unfold Found.visit at h
  split_ifs at h with ready <;> simp_all only [Has, Option.some.injEq] <;> grind

lemma visit_runProc_ne_none (h : found.runProc ≠ none) : (found.visit q p).runProc ≠ none := by
  rw [Ne, runProc_eq_none] at h ⊢
  unfold Found.visit
  split_ifs <;> simp_all

lemma visit_ready_ne_none (ready : p.state = .runnable)
    (type : Recognised p.type) : (found.visit q p).runProc ≠ none := by
  rw [Ne, runProc_eq_none]
  unfold Found.visit
  rcases type with e | e | e <;> simp only [ready, e, if_true] <;> split_ifs <;>
    simp_all [defaultType, cpuBound, ioBound]

def Typed (s : State n k) : Prop :=
  ∀ q, (s.proc q).state ≠ .unused → Recognised (s.proc q).type

def Named (s : State n k) : Act n k → Prop
  | .setType _ type pid =>
    ∀ q, findPid s pid = some q → (s.proc q).state ≠ .unused → Recognised type
  | _ => True

lemma Typed.boot (first) : Typed (boot first : State n k) := by
  intro q used
  by_cases hq : q = first
  · subst hq
    simp [ProcMachine.boot, allocproc, Recognised]
  · simp [ProcMachine.boot, hq, emptyProc] at used

section
variable (h : Typed s)
include h

lemma Typed.setProc (new : p.state ≠ .unused → Recognised p.type) : Typed (s.setProc q p) := by
  intro r used
  rcases eq_or_ne r q with rfl | ne
  · simp only [State.setProc_proc, Function.update_self] at used ⊢
    exact new used
  · simp only [State.setProc_proc, Function.update_of_ne ne] at used ⊢
    exact h r used

lemma Typed.keep (type : p.type = (s.proc q).type) (used : (s.proc q).state ≠ .unused) : Typed (s.setProc q p) :=
  h.setProc fun _ => type ▸ h q used

lemma Typed.leave (inv : Inv s) (hs : leave s c to_ f = some t) (type : ∀ p, (f p).type = p.type) : Typed t := by
  obtain ⟨p, t0, hctl, -, rfl⟩ := leave_inv hs
  obtain ⟨-, -, run⟩ := inv.fits_at hctl
  exact h.keep (type _) (by simp [run])

lemma Typed.wake (type : p.type = (s.proc q).type)
    (state : p.state = (ProcMachine.wake (s.proc q)).state) : Typed (s.setProc q p) := by
  refine h.setProc fun used => type ▸ h q fun unused => used ?_
  rw [state, wake_unused unused]

lemma Typed.call (named : Named s a) (ha : a.isCall = true) (hs : Step s a t) : Typed t := by
  cases a <;> try contradiction
  all_goals simp only [Step, step] at hs
  case wakeup c q chan =>
    obtain ⟨-, -, -, rfl | ⟨-, rfl⟩⟩ := wakeup_inv hs
    · exact h
    · exact h.wake (wake_type _) rfl
  case kill c q pid =>
    obtain ⟨-, -, rfl | rfl⟩ := kill_inv hs
    · exact h
    · exact h.wake (wake_type _) rfl
  case alloc c q ok =>
    obtain ⟨-, -, -, rfl⟩ := alloc_inv hs
    cases ok
    · exact h.setProc (fun _ => .inl rfl)
    · exact h.setProc (fun _ => .inl rfl)
  case setParent c q =>
    obtain ⟨p, -, used, rfl⟩ := setParent_inv hs
    exact h.keep rfl (by simp [used])
  case makeRunnable c q =>
    obtain ⟨-, -, used, rfl⟩ := makeRunnable_inv hs
    exact h.keep rfl (by simp [used])
  case reap c q =>
    obtain ⟨-, -, zombie, rfl⟩ := reap_inv hs
    exact h.keep rfl (by simp [zombie])
  case setType c type pid =>
    obtain ⟨-, rfl | ⟨q, hq, rfl⟩⟩ := sysSetType_inv hs
    · exact h
    · exact h.setProc (named q hq)
  case tick c =>
    obtain ⟨-, rfl⟩ := clockintr_inv hs
    exact h

lemma Typed.step (inv : Inv s) (named : Named s a) (hs : Step s a t) : Typed t := by
  by_cases ha : a.isCall = true
  · exact h.call named ha hs
  cases a <;> try contradiction
  all_goals simp only [Step, ProcMachine.step] at hs
  case visit c =>
    obtain ⟨i, found, hi, -, -, rfl⟩ := visit_inv hs
    exact h
  case choose c =>
    obtain ⟨i, found, -, -, rfl⟩ := choose_inv hs
    exact h
  case wfi c =>
    obtain ⟨-, rfl⟩ := wfi_inv hs
    exact h
  case acquire c =>
    obtain ⟨r, -, -, rfl⟩ := acquire_inv hs
    exact h
  case dispatch c =>
    obtain ⟨r, -, ready, rfl⟩ := dispatch_inv hs
    exact h.keep rfl (by simp [ready])
  case release c =>
    obtain ⟨r, -, -, rfl⟩ := release_inv hs
    exact h
  case resumed c =>
    obtain ⟨p, from_, t0, hctl, proc, -, type, rfl⟩ := resumed_inv hs
    obtain ⟨-, -, run⟩ := inv.fits_at hctl
    exact h.keep type (by simp [run])
  case yield c => exact h.leave inv hs (fun _ => rfl)
  case sleep c chan => exact h.leave inv hs (fun _ => rfl)
  case exit c status =>
    obtain ⟨p, -, hl⟩ := exit_inv hs
    have kept : Typed (reparent s p) := by
      intro q used
      rw [reparent_state] at used
      rw [reparent_type]
      exact h q used
    exact kept.leave (inv.reparent p) hl (fun _ => rfl)
  case swtch c =>
    obtain ⟨p, to_, t0, -, rfl⟩ := swtch_inv hs
    exact h
  case account c =>
    obtain ⟨p, t0, hctl, rfl⟩ := account_inv hs
    exact h.setProc (h p)

end

def Watch (c : Fin k) (q : Fin n) (s : State n k) (a : Act n k) : Prop :=
  (s.proc q).state = .runnable ∧ a ≠ .choose c

/-- The scan of CPU `c` after the steps `as` from `s₀`: it has a candidate once
it has passed `q`, and it found each candidate runnable. -/
structure Scanning (s₀ : State n k) (c : Fin k) (q : Fin n) (as : List (Act n k))
    (i : Nat) (found : Found n) : Prop where
  passed : q.val < i → found.runProc ≠ none
  seen : ∀ r, Has found r → ∃ before after m, as = before ++ after ∧
    Run Step s₀ before m ∧ (m.proc r).state = .runnable

lemma Scanning.later (h : Scanning s0 c q as i found) (a) : Scanning s0 c q (as ++ [a]) i found where
  passed := h.passed
  seen r hr := by
    obtain ⟨before, after, m, rfl, run, ready⟩ := h.seen r hr
    exact ⟨before, after ++ [a], m, List.append_assoc .., run, ready⟩

lemma Scanning.visit (hi : i < n) (h : Scanning s0 c q as i found) (run : Run Step s0 as s)
    (ready : (s.proc q).state = .runnable) (type : Recognised (s.proc q).type) (a) :
    Scanning s0 c q (as ++ [a]) (i + 1) (found.visit ⟨i, hi⟩ (s.proc ⟨i, hi⟩)) where
  passed lt := by
    rcases Nat.lt_succ_iff_lt_or_eq.mp lt with lt | e
    · exact visit_runProc_ne_none (h.passed lt)
    · obtain rfl : q = ⟨i, hi⟩ := Fin.ext e
      exact visit_ready_ne_none ready type
  seen r hr := by
    rcases visit_has hr with old | ⟨rfl, ready⟩
    · exact (h.later a).seen r old
    · exact ⟨as, [a], s, rfl, run, ready⟩

lemma scanning_of_run {s0 : State n k} (inv : Inv s0) (typed : Typed s0) (start : s0.ctl c = .scan 0 {})
    (run : Run (Meets Step fun s a => Named s a ∧ Watch c q s a) s0 as s) :
    Inv s ∧ Typed s ∧ ∃ i found, s.ctl c = .scan i found ∧ Scanning s0 c q as i found := by
  refine run.history (fun as s => Inv s ∧ Typed s ∧ ∃ i found, s.ctl c = .scan i found ∧
    Scanning s0 c q as i found) ?_ ⟨inv, typed, 0, {}, start, ⟨nofun, ?_⟩⟩
  · rintro as s a t run ⟨inv, typed, i, found, hctl, scan⟩ ⟨hs, named, ready, go⟩
    refine ⟨inv.step hs, typed.step inv named hs, ?_⟩
    by_cases other : c = a.cpu
    · subst other
      have offer := offers_of_step hs
      rw [hctl] at offer
      rcases offer with e | e | call
      · rw [e] at hs
        obtain ⟨i', found', hi, hctl', -, rfl⟩ := visit_inv hs
        obtain ⟨rfl, rfl⟩ := Ctl.scan.inj (hctl.symm.trans hctl')
        exact ⟨_, _, by simp, scan.visit hi run.forget ready (typed q (by simp [ready])) a⟩
      · exact absurd e go
      · exact ⟨i, found, (quiet_of_isCall call hs).ctl ▸ hctl, scan.later a⟩
    · exact ⟨i, found, (ctl_other hs other).trans hctl, scan.later a⟩
  · rintro r (e | e | e) <;> exact nomatch e

/-- When `set_type` stores only recognised types, a scan during which `q` stays
runnable chooses a process that it has found runnable. -/
theorem scan_chooses {first : Fin n} {as bs : List (Act n k)} {s₀ : State n k}
    (before : Run (Meets Step Named) (boot first) as s₀) (start : s₀.ctl c = .scan 0 {})
    (scan : Run (Meets Step fun s a => Named s a ∧ Watch c q s a) s₀ bs s)
    (ends : Step s (.choose c) t) :
    ∃ r, t.ctl c = .chosen (some r) ∧ ∃ early late m, bs = early ++ late ∧
      Run Step s₀ early m ∧ (m.proc r).state = .runnable := by
  have start_inv : Inv s₀ ∧ Typed s₀ :=
    before.invariant (fun s => Inv s ∧ Typed s)
      (fun _ _ _ ⟨inv, typed⟩ ⟨hs, named⟩ => ⟨inv.step hs, typed.step inv named hs⟩)
      ⟨Inv.boot first, Typed.boot first⟩
  obtain ⟨-, -, i, found, hctl, scanning⟩ := scanning_of_run start_inv.1 start_inv.2 start scan
  obtain ⟨i', found', hn, hctl', rfl⟩ := choose_inv ends
  obtain ⟨rfl, rfl⟩ := Ctl.scan.inj (hctl.symm.trans hctl')
  obtain ⟨r, hr⟩ := Option.ne_none_iff_exists'.mp (scanning.passed (by omega))
  exact ⟨r, by simp [hr], scanning.seen r (has_of_runProc hr)⟩

def scanUpTo (proc : Fin n → Proc n) : Nat → Found n
  | 0 => {}
  | m + 1 =>
    if h : m < n then (scanUpTo proc m).visit ⟨m, h⟩ (proc ⟨m, h⟩) else scanUpTo proc m

lemma run_visits (free : ∀ q, s.lock q = none) (start : s.ctl c = .scan 0 {}) (hm : m ≤ n) :
    Run (Meets Step fun s' a => s'.proc = s.proc ∧ a = .visit c) s (List.replicate m (.visit c))
      (s.setCtl c (.scan m (scanUpTo s.proc m))) := by
  induction m with
  | zero =>
    have same : s.setCtl c (.scan 0 (scanUpTo s.proc 0)) = s := by simp [State.setCtl, scanUpTo, ← start]
    rw [same]
    exact .nil s
  | succ m ih =>
    rw [List.replicate_succ']
    refine (ih (by omega)).snoc ⟨?_, rfl, rfl⟩
    have hlt : m < n := by omega
    simp [Step, step, visit, scanUpTo, hlt, free, State.setCtl]

lemma choose_after_visits : Step (s.setCtl c (.scan n found)) (.choose c) (s.setCtl c (.chosen found.runProc)) := by
  simp [Step, step, choose, State.setCtl]

/-- The first process gives itself a type, sleeps and is woken; the scan begins. -/
def retyped (type : Int32) : List (Act nproc 1) :=
  List.replicate nproc (.visit 0) ++
    [.choose 0, .acquire 0, .dispatch 0, .resumed 0, .setType 0 type 1, .sleep 0 5, .swtch 0,
      .account 0, .release 0, .wakeup 0 0 5]

theorem scan_chooses_retyped : ∃ s₀ s t : State nproc 1, Run (Meets Step Named) (boot 0) (retyped ioBound) s₀ ∧
    (s₀.proc 0).type = ioBound ∧ Step s (.choose 0) t ∧ ∃ r, t.ctl 0 = .chosen (some r) ∧
    ∃ early late m, List.replicate nproc (.visit 0) = early ++ late ∧
      Run Step s₀ early m ∧ (m.proc r).state = .runnable := by
  have run : ((exec step (boot 0) (retyped ioBound)).map fun s =>
      (decide (∀ q, s.lock q = none), s.ctl 0, (s.proc 0).state, (s.proc 0).type)) =
      some (true, .scan 0 {}, .runnable, ioBound) := by
    decide +kernel
  obtain ⟨s₀, hs, facts⟩ := Option.map_eq_some_iff.mp run
  obtain ⟨free, start, ready, type⟩ :
      (∀ q, s₀.lock q = none) ∧ s₀.ctl 0 = .scan 0 {} ∧ (s₀.proc 0).state = .runnable ∧
      (s₀.proc 0).type = ioBound := by
    simpa using facts
  have before : Run (Meets Step Named) (boot 0) (retyped ioBound) s₀ := by
    refine (run_of_exec step hs).meets fun a mem s => ?_
    cases a with
    | setType c type pid =>
      obtain ⟨-, rfl, -⟩ : c = 0 ∧ type = ioBound ∧ pid = 1 := by simpa [retyped] using mem
      exact fun _ _ _ => .inr (.inr rfl)
    | _ => trivial
  refine ⟨s₀, _, _, before, type, choose_after_visits, scan_chooses (q := 0) before start
    ((run_visits free start le_rfl).mono fun s a t ⟨hs, same, e⟩ => ⟨hs, ?_, ?_, ?_⟩) choose_after_visits⟩
  · rw [e]
    trivial
  · rw [same]
    exact ready
  · simp [e]

theorem scan_misses_runnable : ∃ (s₀ s t : State nproc 1) (bs : List (Act nproc 1)), Reachable s₀ ∧
    s₀.ctl 0 = .scan 0 {} ∧ Run (Meets Step (Watch 0 0)) s₀ bs s ∧
    (s.proc 0).state = .runnable ∧ Step s (.choose 0) t ∧ t.ctl 0 = .chosen none := by
  have run : ((exec step (boot 0) (retyped 7)).map fun s =>
    (decide (∀ q, s.lock q = none), s.ctl 0, (s.proc 0).state,
      (scanUpTo s.proc nproc).runProc)) = some (true, .scan 0 {}, .runnable, none) := by
    decide +kernel
  obtain ⟨s₀, hs, facts⟩ := Option.map_eq_some_iff.mp run
  obtain ⟨free, start, ready, nothing⟩ :
    (∀ q, s₀.lock q = none) ∧ s₀.ctl 0 = .scan 0 {} ∧ (s₀.proc 0).state = .runnable ∧
      (scanUpTo s₀.proc nproc).runProc = none := by
    simpa using facts
  have scan := run_visits free start le_rfl
  refine ⟨s₀, s₀.setCtl 0 (.scan nproc (scanUpTo s₀.proc nproc)), _, List.replicate nproc (.visit 0),
    ⟨0, retyped 7, run_of_exec step hs⟩, start, ?_, ready, choose_after_visits, by simp [nothing]⟩
  exact scan.mono fun s a t ⟨hs, same, e⟩ => ⟨hs, by rw [same]; exact ready, by simp [e]⟩

end Xv6.ProcScan
