import Xv6.ProcSteps

/-! Which CPU owns a process. A CPU's place in the scheduler loop determines
`c->proc`, the lock it holds and whether that process is `RUNNING`; the lock is
handed from the scheduler to the thread and back across `swtch`. -/

namespace Xv6.ProcOwner

open Params ProcMachine Runs

variable {n k : Nat} {s t : State n k} {c d : Fin k} {q : Fin n}

/-- What the rest of the state says when CPU `c` is at the given place. At the
inner loop's test the process may be running on another CPU. -/
def Fits (s : State n k) (c : Fin k) : Ctl n → Prop
  | .scan _ _ | .chosen _ => s.current c = none
  | .test p => s.current c = none ∧ s.lock p = some c
  | .resume p _ _ => s.current c = some p ∧ s.lock p = some c ∧ (s.proc p).state = .running
  | .user p _ => s.current c = some p ∧ s.lock p ≠ some c ∧ (s.proc p).state = .running
  | .leaving p _ _ => s.current c = some p ∧ s.lock p = some c ∧ (s.proc p).state ≠ .running
  | .back p _ =>
    s.current c = some p ∧ s.lock p = some c ∧ (s.proc p).state ≠ .running ∧ s.saved p = true

def holds : Ctl n → Option (Fin n)
  | .test p | .resume p _ _ | .leaving p _ _ | .back p _ => some p
  | _ => none

structure Inv (s : State n k) : Prop where
  fits : ∀ c, Fits s c (s.ctl c)
  held : ∀ q c, s.lock q = some c → holds (s.ctl c) = some q
  ran : ∀ p, (s.proc p).state = .running → ∃ c, s.current c = some p
  once : ∀ c d p, s.current c = some p → s.current d = some p → c = d
  saved : ∀ p, (s.proc p).state = .unused ∨ s.saved p = true ∨ ∃ c, s.current c = some p

lemma Inv.boot (first) : Inv (boot first : State n k) where
  fits _ := rfl
  held _ _ h := by simp [ProcMachine.boot] at h
  ran p h := by
    by_cases hp : p = first <;> simp [ProcMachine.boot, hp, emptyProc] at h
  once _ _ _ h := by simp [ProcMachine.boot] at h
  saved p := by
    by_cases hp : p = first <;> simp [ProcMachine.boot, hp, emptyProc]

lemma Inv.running_of_current (h : Inv s) (hc : s.current c = some q)
    (free : s.lock q ≠ some c) : (s.proc q).state = .running := by
  have hf := h.fits c
  cases hctl : s.ctl c <;> simp_all [Fits]

lemma Inv.current_ne_of_test (h : Inv s) (hc : s.ctl c = .test q)
    (stop : (s.proc q).state ≠ .running) (d) : s.current d ≠ some q := by
  intro hd
  have fit := h.fits c
  rw [hc] at fit
  rcases eq_or_ne d c with rfl | ne
  · simp [fit.1] at hd
  · refine stop (h.running_of_current hd ?_)
    simp [fit.2, ne.symm]

/-- A CPU's place still fits after a step that leaves its own entries alone and
touches only a slot it has not locked. -/
lemma Fits.frame (h : Fits s d (s.ctl d)) (hctl : t.ctl d = s.ctl d) (hcur : t.current d = s.current d)
    (other : ∀ p, p ≠ q → (t.proc p).state = (s.proc p).state ∧ t.lock p = s.lock p ∧ t.saved p = s.saved p)
    (before : s.lock q ≠ some d) (after : t.lock q ≠ some d)
    (run : s.current d = some q → (t.proc q).state = (s.proc q).state) : Fits t d (t.ctl d) := by
  rw [hctl]
  cases hc : s.ctl d with
  | scan i f => simp_all [Fits]
  | chosen r => simp_all [Fits]
  | user p t0 =>
    rcases eq_or_ne p q with rfl | ne
    · simp_all [Fits]
    · have same := other p ne
      simp_all [Fits]
  | test p =>
    rw [hc] at h
    have same := other p (fun e => before (e ▸ h.2))
    simp_all [Fits]
  | _ p =>
    rw [hc] at h
    have same := other p (fun e => before (e ▸ h.2.1))
    simp_all [Fits]

lemma Inv.quiet (h : Inv s) (hq : Quiet s t) : Inv t where
  fits d := by
    have hf := h.fits d
    have run := fun p => (hq.moves p).running_iff
    rw [hq.ctl]
    cases hc : s.ctl d <;> simp_all [Fits, hq.current, hq.lock]
    exact (hq.saved _).elim (fun e => e.trans hf.2.2.2) id
  held q d := by
    rw [hq.lock, hq.ctl]
    exact h.held q d
  ran p hp := by
    rw [hq.current]
    exact h.ran p ((hq.moves p).running_iff.mp hp)
  once := by
    rw [hq.current]
    exact h.once
  saved p := by
    rw [hq.current]
    by_cases unused : (t.proc p).state = .unused
    · exact .inl unused
    · rcases h.saved p with e | e | e
      · exact .inr (.inl (hq.fresh p e unused))
      · exact .inr (.inl ((hq.saved p).elim (fun e' => e'.trans e) id))
      · exact .inr (.inr e)

@[simp] lemma fits_setCtl : Fits (s.setCtl c next) d ctl = Fits s d ctl := by
  cases ctl <;> rfl

lemma Inv.setCtl (h : Inv s) (idle : holds (s.ctl c) = none) (fit : Fits s c next) : Inv (s.setCtl c next) where
  __ := h
  fits d := by
    rcases eq_or_ne d c with rfl | ne
    · simpa using fit
    · simpa [ne] using h.fits d
  held q d hl := by
    have hh := h.held q d hl
    rcases eq_or_ne d c with rfl | ne
    · simp [idle] at hh
    · simpa [ne] using hh

structure Only (s t : State n k) (c : Fin k) (q : Fin n) : Prop where
  ctl : ∀ d, d ≠ c → t.ctl d = s.ctl d
  current : ∀ d, d ≠ c → t.current d = s.current d
  slot : ∀ p, p ≠ q → (t.proc p).state = (s.proc p).state ∧ t.lock p = s.lock p ∧
    t.saved p = s.saved p

/-- CPU `c` deals with slot `q`, before and after the step: it has no other
lock and no other process. -/
structure Deals (s : State n k) (c : Fin k) (q : Fin n) : Prop where
  lock : s.lock q = none ∨ s.lock q = some c ∧ holds (s.ctl c) = some q
  holds : holds (s.ctl c) = none ∨ holds (s.ctl c) = some q
  current : s.current c = none ∨ s.current c = some q

lemma Deals.lock_ne (h : Deals s c q) (ne : d ≠ c) : s.lock q ≠ some d := by
  rcases h.lock with e | ⟨e, -⟩ <;> simp [e, ne.symm]

section
variable (h : Inv s)
include h

/-- A step of CPU `c` on slot `q`; it changes nothing that another CPU, running
the process of that slot, relies on. -/
lemma Inv.only (only : Only s t c q) (before : Deals s c q) (after : Deals t c q)
    (others : ∀ d, d ≠ c → s.current d = some q → (t.proc q).state = (s.proc q).state ∧ t.current c ≠ some q)
    (fit : Fits t c (t.ctl c))
    (ran : (t.proc q).state = .running → ∃ d, t.current d = some q)
    (saved : (t.proc q).state = .unused ∨ t.saved q = true ∨ ∃ d, t.current d = some q) :
    Inv t where
  fits d := by
    rcases eq_or_ne d c with rfl | ne
    · exact fit
    · exact (h.fits d).frame (only.ctl d ne) (only.current d ne) only.slot (before.lock_ne ne)
        (after.lock_ne ne) (fun hd => (others d ne hd).1)
  held p d hl := by
    rcases eq_or_ne p q with rfl | np
    · rcases after.lock with e | ⟨e, hh⟩ <;> rw [e] at hl
      · exact nomatch hl
      · rwa [← Option.some.inj hl]
    · rw [(only.slot p np).2.1] at hl
      have hh := h.held p d hl
      rcases eq_or_ne d c with rfl | ne
      · rcases before.holds with e | e <;> rw [e] at hh
        · exact nomatch hh
        · exact absurd (Option.some.inj hh).symm np
      · rwa [only.ctl d ne]
  ran p hp := by
    rcases eq_or_ne p q with rfl | np
    · exact ran hp
    · rw [(only.slot p np).1] at hp
      obtain ⟨d, hd⟩ := h.ran p hp
      rcases eq_or_ne d c with rfl | ne
      · rcases before.current with e | e <;> rw [e] at hd
        · exact nomatch hd
        · exact absurd (Option.some.inj hd).symm np
      · exact ⟨d, (only.current d ne).trans hd⟩
  once d e p hd he := by
    have own : ∀ e, e ≠ c → t.current c = some p → t.current e = some p → False := by
      intro e ne hc he
      rcases after.current with e0 | e0 <;> rw [e0] at hc
      · exact nomatch hc
      · obtain rfl := Option.some.inj hc
        exact (others e ne (only.current e ne ▸ he)).2 e0
    rcases eq_or_ne d c with rfl | nd
    · by_contra ne
      exact own e (Ne.symm ne) hd he
    · rcases eq_or_ne e c with rfl | ne
      · exact (own d nd he hd).elim
      · rw [only.current d nd] at hd
        rw [only.current e ne] at he
        exact h.once d e p hd he
  saved p := by
    rcases eq_or_ne p q with rfl | np
    · exact saved
    · obtain ⟨st, -, sv⟩ := only.slot p np
      rw [st, sv]
      refine (h.saved p).imp_right (Or.imp_right ?_)
      rintro ⟨d, hd⟩
      rcases eq_or_ne d c with rfl | ne
      · rcases before.current with e | e <;> rw [e] at hd
        · exact nomatch hd
        · exact absurd (Option.some.inj hd).symm np
      · exact ⟨d, (only.current d ne).trans hd⟩

lemma Inv.fits_at (hctl : s.ctl c = place) : Fits s c place := hctl ▸ h.fits c

lemma Inv.acquire (hs : acquireRunProc s c = some t) : Inv t := by
  obtain ⟨r, hctl, free, rfl⟩ := acquire_inv hs
  have none_ : s.current c = none := h.fits_at hctl
  refine h.only ⟨?_, ?_, ?_⟩ ⟨.inl free, .inl ?_, .inl none_⟩
    ⟨.inr ?_, .inr ?_, .inl none_⟩ ?_ ?_ (h.ran r) (h.saved r)
  · intro d ne
    simp [ne]
  · exact fun d ne => rfl
  · intro p ne
    simp [ne]
  all_goals simp [hctl, holds, Fits, none_]

lemma Inv.dispatch (hs : dispatch s c = some t) : Inv t := by
  obtain ⟨r, hctl, ready, rfl⟩ := dispatch_inv hs
  have alone := h.current_ne_of_test hctl (by simp [ready])
  obtain ⟨none_, lock⟩ := h.fits_at hctl
  refine h.only ⟨?_, ?_, ?_⟩ ⟨.inr ?_, .inr ?_, .inl none_⟩ ⟨.inr ?_, .inr ?_, .inr ?_⟩
    (fun d ne hd => absurd hd (alone d)) ?_ (fun _ => ⟨c, ?_⟩) (.inr (.inr ⟨c, ?_⟩))
  · intro d ne
    simp [ne]
  · intro d ne
    simp [ne]
  · intro p ne
    simp [ne]
  all_goals simp [hctl, holds, Fits, lock]

lemma Inv.release (hs : releaseRunProc s c = some t) : Inv t := by
  obtain ⟨r, hctl, stop, rfl⟩ := release_inv hs
  obtain ⟨none_, lock⟩ := h.fits_at hctl
  refine h.only ⟨?_, ?_, ?_⟩ ⟨.inr ?_, .inr ?_, .inl none_⟩ ⟨.inl ?_, .inl ?_, .inl none_⟩ ?_ ?_ (h.ran r) (h.saved r)
  · intro d ne
    simp [ne]
  · exact fun d ne => rfl
  · intro p ne
    simp [ne]
  all_goals simp [hctl, holds, Fits, none_, lock]

lemma Inv.account (hs : account s c = some t) : Inv t := by
  obtain ⟨p, t0, hctl, rfl⟩ := account_inv hs
  obtain ⟨cur, lock, stop, saved⟩ := h.fits_at hctl
  refine h.only ⟨?_, ?_, ?_⟩ ⟨.inr ?_, .inr ?_, .inr cur⟩ ⟨.inr ?_, .inr ?_, .inl ?_⟩ ?_ ?_ ?_ (.inr (.inl saved))
  · intro d ne
    simp [ne]
  · intro d ne
    simp [ne]
  · intro p ne
    simp [ne]
  all_goals simp [hctl, holds, Fits, lock, stop]

lemma Inv.alone (cur : s.current c = some q) (d) (ne : d ≠ c) : s.current d ≠ some q :=
  fun hd => ne (h.once d c q hd cur)

lemma Inv.resumed (hs : resumed s c = some t) : Inv t := by
  obtain ⟨p, from_, t0, hctl, proc, state, -, rfl⟩ := resumed_inv hs
  obtain ⟨cur, lock, run⟩ := h.fits_at hctl
  refine h.only ⟨?_, ?_, ?_⟩ ⟨.inr ?_, .inr ?_, .inr cur⟩ ⟨.inl ?_, .inl ?_, .inr cur⟩
    (fun d ne hd => absurd hd (h.alone cur d ne)) ?_ (fun _ => ⟨c, cur⟩) (.inr (.inr ⟨c, cur⟩))
  · intro d ne
    simp [ne]
  · exact fun d ne => rfl
  · intro p ne
    simp [ne]
  all_goals simp [hctl, holds, Fits, lock, cur, state, run]

lemma Inv.leave (stop : ∀ p, (f p).state ≠ .running) (hs : leave s c to_ f = some t) : Inv t := by
  obtain ⟨p, t0, hctl, free, rfl⟩ := leave_inv hs
  obtain ⟨cur, -, run⟩ := h.fits_at hctl
  refine h.only ⟨?_, ?_, ?_⟩ ⟨.inl free, .inl ?_, .inr cur⟩ ⟨.inr ?_, .inr ?_, .inr cur⟩
    (fun d ne hd => absurd hd (h.alone cur d ne)) ?_ (fun _ => ⟨c, cur⟩) (.inr (.inr ⟨c, cur⟩))
  · intro d ne
    simp [ne]
  · exact fun d ne => rfl
  · intro p ne
    simp [ne]
  all_goals simp [hctl, holds, Fits, cur, stop]

lemma Inv.swtch (hs : swtch s c = some t) : Inv t := by
  obtain ⟨p, to_, t0, hctl, rfl⟩ := swtch_inv hs
  obtain ⟨cur, lock, stop⟩ := h.fits_at hctl
  refine h.only ⟨?_, ?_, ?_⟩ ⟨.inr ?_, .inr ?_, .inr cur⟩ ⟨.inr ?_, .inr ?_, .inr cur⟩
    (fun d ne hd => absurd hd (h.alone cur d ne)) ?_ (fun _ => ⟨c, cur⟩) (.inr (.inr ⟨c, cur⟩))
  · intro d ne
    simp [ne]
  · exact fun d ne => rfl
  · intro p ne
    simp [ne]
  all_goals simp [hctl, holds, Fits, lock, cur, stop]

lemma Inv.reparent (p) : Inv (reparent s p) :=
  h.quiet ⟨rfl, rfl, rfl, fun _ => .inl rfl, fun q => by simpa using .same _,
    fun q hq hq' => absurd hq (by simpa using hq')⟩

lemma Inv.step (hs : Step s a t) : Inv t := by
  by_cases ha : a.isCall = true
  · exact h.quiet (quiet_of_isCall ha hs)
  cases a <;> try contradiction
  all_goals simp only [Step, ProcMachine.step] at hs
  case visit c =>
    obtain ⟨i, found, hi, hctl, -, rfl⟩ := visit_inv hs
    have none_ := h.fits_at hctl
    exact h.setCtl (by simp [hctl, holds]) none_
  case choose c =>
    obtain ⟨i, found, -, hctl, rfl⟩ := choose_inv hs
    have none_ := h.fits_at hctl
    exact h.setCtl (by simp [hctl, holds]) none_
  case wfi c =>
    obtain ⟨hctl, rfl⟩ := wfi_inv hs
    have none_ := h.fits_at hctl
    exact h.setCtl (by simp [hctl, holds]) none_
  case acquire c => exact h.acquire hs
  case dispatch c => exact h.dispatch hs
  case release c => exact h.release hs
  case resumed c => exact h.resumed hs
  case yield c => exact h.leave (by simp) hs
  case sleep c chan => exact h.leave (by simp) hs
  case exit c status =>
    obtain ⟨p, -, hl⟩ := exit_inv hs
    exact (h.reparent p).leave (by simp) hl
  case swtch c => exact h.swtch hs
  case account c => exact h.account hs

end

def Reachable (s : State n k) : Prop := ∃ first as, Run Step (boot first) as s

lemma Reachable.inv (h : Reachable s) : Inv s := by
  obtain ⟨first, as, run⟩ := h
  exact run.invariant Inv (fun _ _ _ h hs => h.step hs) (Inv.boot first)

/-- While `p->lock` is free, `p` is `RUNNING` exactly when one CPU has it as
`c->proc`; no two CPUs have the same process; and a dispatch switches to a
complete context. -/
theorem one_cpu_per_proc (h : Reachable s) :
    (∀ p, s.lock p = none → ((s.proc p).state = .running ↔ ∃! c, s.current c = some p)) ∧
    (∀ c d p, s.current c = some p → s.current d = some p → c = d) ∧
    (∀ c t, Step s (.dispatch c) t → ∃ p, t.current c = some p ∧ s.saved p = true) := by
  have inv := h.inv
  refine ⟨fun p free => ⟨fun run => ?_, fun ⟨c, cur, _⟩ => ?_⟩, inv.once, fun c t hs => ?_⟩
  · obtain ⟨c, cur⟩ := inv.ran p run
    exact ⟨c, cur, fun d hd => inv.once d c p hd cur⟩
  · exact inv.running_of_current cur (by simp [free])
  · obtain ⟨r, hctl, ready, rfl⟩ := dispatch_inv hs
    have alone := inv.current_ne_of_test hctl (by simp [ready])
    refine ⟨r, by simp, ?_⟩
    rcases inv.saved r with unused | saved | ⟨d, hd⟩
    · simp [ready] at unused
    · exact saved
    · exact absurd hd (alone d)

def staleChoice : List (Act nproc 2) :=
  List.replicate nproc (.visit 0) ++ List.replicate nproc (.visit 1) ++
    [.choose 0, .choose 1, .acquire 0, .dispatch 0, .resumed 0]

theorem one_cpu_per_proc_stale_choice :
    ∃ s : State nproc 2, Reachable s ∧ s.lock 0 = none ∧ (s.proc 0).state = .running ∧ ∃! c, s.current c = some 0 := by
  have run : ((exec step (boot 0) staleChoice).map fun s => (s.lock 0, (s.proc 0).state)) = some (none, .running) := by
    decide +kernel
  obtain ⟨s, hs, facts⟩ := Option.map_eq_some_iff.mp run
  obtain ⟨free, running⟩ := Prod.mk.inj facts
  have reach : Reachable s := ⟨0, staleChoice, run_of_exec step hs⟩
  exact ⟨s, reach, free, running, ((one_cpu_per_proc reach).1 0 free).mp running⟩

/-- The first process runs. -/
def started : List (Act nproc 1) :=
  List.replicate nproc (.visit 0) ++ [.choose 0, .acquire 0, .dispatch 0, .resumed 0]

end Xv6.ProcOwner
