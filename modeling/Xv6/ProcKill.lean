import Xv6.ProcOwner

/-! What an `UNUSED` slot holds, and whom `kill` reaches. `freeproc` clears the
fields that `allocproc` does not set, among them the pid, which it sets to `0`;
`kill` compares the pids of all slots. -/

namespace Xv6.ProcKill

open Params ProcMachine Runs
open ProcOwner (started)

variable {n k : Nat} {s t : State n k} {a : Act n k} {c : Fin k} {q : Fin n} {pid : Int32}

def Cleared (p : Proc n) : Prop :=
  p.killed = false ∧ p.chan = 0 ∧ p.parent = none ∧ p.pid = 0

def UnusedCleared (s : State n k) : Prop := ∀ q, (s.proc q).state = .unused → Cleared (s.proc q)

def NoKillZero (_ : State n k) (a : Act n k) : Prop := ∀ c q, a ≠ .kill c q 0

lemma unusedCleared_boot (first) : UnusedCleared (boot first : State n k) := by
  intro q unused
  by_cases hq : q = first <;> simp_all [boot, emptyProc, allocproc, Cleared]

lemma cleared_freeproc (p : Proc n) : Cleared (freeproc p) := ⟨rfl, rfl, rfl, rfl⟩

lemma UnusedCleared.setProc (h : UnusedCleared s)
    (ok : p.state = .unused → Cleared p) : UnusedCleared (s.setProc q p) := by
  intro r unused
  rcases eq_or_ne r q with rfl | ne
  · simpa using ok (by simpa using unused)
  · simpa [ne] using h r (by simpa [ne] using unused)

lemma UnusedCleared.congr (h : UnusedCleared s) (same : t.proc = s.proc) : UnusedCleared t := by
  intro q unused
  rw [same] at unused ⊢
  exact h q unused

lemma unused_of_wake (h : (wake p).state = .unused) : p.state = .unused := by
  unfold wake at h
  split at h
  · cases h
  · exact h

lemma UnusedCleared.reparent (h : UnusedCleared s) (p) : UnusedCleared (reparent s p) := by
  intro q unused
  have clear := h q (by simpa using unused)
  simpa [ProcMachine.reparent, clear.2.2.1] using clear

lemma kill_match (hs : kill s c q pid = some t) (found : (s.proc q).pid = pid) :
    t = s.setProc q { wake (s.proc q) with killed := true } := by
  unfold kill at hs
  split at hs <;> try contradiction
  exact (Option.some.inj hs).symm

lemma kill_miss (hs : kill s c q pid = some t) (other : (s.proc q).pid ≠ pid) : t = s := by
  unfold kill at hs
  split at hs <;> try contradiction
  exact (Option.some.inj hs).symm

section
variable (h : UnusedCleared s)
include h

lemma UnusedCleared.kill_target (ne : pid ≠ 0) (found : (s.proc q).pid = pid) : (s.proc q).state ≠ .unused := by
  intro unused
  exact ne (found.symm.trans (h q unused).2.2.2)

lemma UnusedCleared.kill (ne : pid ≠ 0) (hs : kill s c q pid = some t) : UnusedCleared t := by
  by_cases found : (s.proc q).pid = pid
  · rw [kill_match hs found]
    refine h.setProc fun unused => ?_
    exact absurd (unused_of_wake unused) (h.kill_target ne found)
  · rw [kill_miss hs found]
    exact h

lemma UnusedCleared.leave (used : ∀ p, (f p).state ≠ .unused) (hs : leave s c to_ f = some t) : UnusedCleared t := by
  obtain ⟨p, t0, -, -, rfl⟩ := leave_inv hs
  exact (h.setProc fun unused => absurd unused (used _)).congr rfl

lemma UnusedCleared.call (ha : a.isCall = true) (cond : NoKillZero s a) (hs : Step s a t) : UnusedCleared t := by
  cases a <;> try contradiction
  all_goals simp only [Step, step] at hs
  case wakeup c q chan =>
    obtain ⟨-, -, -, rfl | ⟨-, rfl⟩⟩ := wakeup_inv hs
    · exact h
    · refine h.setProc fun unused => ?_
      have old := unused_of_wake unused
      simpa [wake, old] using h q old
  case kill c q pid =>
    have ne : pid ≠ 0 := by
      rintro rfl
      exact cond c q rfl
    exact h.kill ne hs
  case alloc c q ok =>
    obtain ⟨-, -, -, rfl⟩ := alloc_inv hs
    cases ok with
    | false => exact (h.setProc fun _ => cleared_freeproc _).congr rfl
    | true => exact (h.setProc (by rintro ⟨⟩)).congr rfl
  case setParent c q =>
    obtain ⟨p, -, used, rfl⟩ := setParent_inv hs
    exact h.setProc fun unused => by simp [used] at unused
  case makeRunnable c q =>
    obtain ⟨-, -, -, rfl⟩ := makeRunnable_inv hs
    exact h.setProc (by rintro ⟨⟩)
  case reap c q =>
    obtain ⟨-, -, -, rfl⟩ := reap_inv hs
    exact h.setProc fun _ => cleared_freeproc _
  case setType c type pid =>
    obtain ⟨-, rfl | ⟨q, -, rfl⟩⟩ := sysSetType_inv hs
    · exact h
    · exact h.setProc fun unused => h q unused
  case tick c =>
    obtain ⟨-, rfl⟩ := clockintr_inv hs
    exact h.congr rfl

lemma UnusedCleared.step (cond : NoKillZero s a) (hs : Step s a t) : UnusedCleared t := by
  by_cases ha : a.isCall = true
  · exact h.call ha cond hs
  cases a <;> try contradiction
  all_goals simp only [Step, step] at hs
  case visit c =>
    obtain ⟨i, found, hi, -, -, rfl⟩ := visit_inv hs
    exact h.congr rfl
  case choose c =>
    obtain ⟨i, found, -, -, rfl⟩ := choose_inv hs
    exact h.congr rfl
  case wfi c =>
    obtain ⟨-, rfl⟩ := wfi_inv hs
    exact h.congr rfl
  case acquire c =>
    obtain ⟨r, -, -, rfl⟩ := acquire_inv hs
    exact h.congr rfl
  case dispatch c =>
    obtain ⟨r, -, -, rfl⟩ := dispatch_inv hs
    exact (h.setProc (by rintro ⟨⟩)).congr rfl
  case release c =>
    obtain ⟨r, -, -, rfl⟩ := release_inv hs
    exact h.congr rfl
  case resumed c =>
    obtain ⟨p, from_, t0, -, rfl⟩ := resumed_eq hs
    refine (h.setProc fun unused => ?_).congr rfl
    split at unused <;> split
    all_goals first | contradiction | exact h p unused | skip
    exact ⟨(h p unused).1, rfl, (h p unused).2.2⟩
  case yield c => exact h.leave (by simp) hs
  case sleep c chan => exact h.leave (by simp) hs
  case exit c status =>
    obtain ⟨p, -, hl⟩ := exit_inv hs
    exact (h.reparent p).leave (by simp) hl
  case swtch c =>
    obtain ⟨p, to_, t0, -, rfl⟩ := swtch_inv hs
    exact h.congr rfl
  case account c =>
    obtain ⟨p, t0, -, rfl⟩ := account_inv hs
    refine (h.setProc (fun unused => ?_)).congr rfl
    exact h p unused

end

lemma unusedCleared_of_run (run : Run (Meets Step NoKillZero) (boot first) as s) : UnusedCleared s :=
  run.invariant UnusedCleared (fun _ _ _ h hs => h.step hs.2 hs.1) (unusedCleared_boot first)

def killFrom (s : State n k) (c : Fin k) (pid : Int32) : List (Fin n) → Option (State n k × Int32)
  | [] => some (s, -1)
  | q :: rest => (kill s c q pid).bind fun t =>
    if (s.proc q).pid = pid then some (t, 0) else killFrom t c pid rest

def killCall (s : State n k) (c : Fin k) (pid : Int32) : Option (State n k × Int32) :=
  killFrom s c pid (List.finRange n)

lemma killFrom_inv (hs : killFrom s c pid slots = some (t, r)) : (r = -1 ∧ t = s ∧ ∀ q ∈ slots, (s.proc q).pid ≠ pid) ∨
    (r = 0 ∧ ∃ q ∈ slots, (s.proc q).pid = pid ∧ t = s.setProc q { wake (s.proc q) with killed := true }) := by
  induction slots with
  | nil =>
    cases hs
    exact .inl ⟨rfl, rfl, by simp⟩
  | cons q rest ih =>
    obtain ⟨u, first, next⟩ := Option.bind_eq_some_iff.mp hs
    by_cases found : (s.proc q).pid = pid
    · rw [if_pos found] at next
      cases next
      exact .inr ⟨rfl, q, by simp, found, kill_match first found⟩
    · rw [if_neg found, kill_miss first found] at next
      rcases ih next with ⟨hr, ht, none_⟩ | ⟨hr, p, hp, facts⟩
      · exact .inl ⟨hr, ht, by simpa [found] using none_⟩
      · exact .inr ⟨hr, p, by simp [hp], facts⟩

/-- In every run in which no `kill` is called with pid `0`: an `UNUSED` slot has nothing left in it, a
process starts with `killed = 0`, and `kill` changes only a process in use under its pid and
returns `-1` when there is none. -/
theorem never_born_killed {first : Fin n} {as : List (Act n k)} (run : Run (Meets Step NoKillZero) (boot first) as s) :
    (∀ q, (s.proc q).state = .unused → (s.proc q).killed = false ∧ (s.proc q).chan = 0 ∧ (s.proc q).parent = none) ∧
    (∀ c q t, Step s (.alloc c q true) t → (t.proc q).killed = false) ∧
    (∀ c q pid t, pid ≠ 0 → Step s (.kill c q pid) t → t = s ∨ (s.proc q).state ≠ .unused ∧ (s.proc q).pid = pid ∧
        t = s.setProc q { wake (s.proc q) with killed := true }) ∧
    (∀ c pid t r, pid ≠ 0 → killCall s c pid = some (t, r) →
      (r = -1 ∧ t = s ∧ ∀ q, (s.proc q).state ≠ .unused → (s.proc q).pid ≠ pid) ∨
      (r = 0 ∧ ∃ q, (s.proc q).state ≠ .unused ∧ (s.proc q).pid = pid ∧
        t = s.setProc q { wake (s.proc q) with killed := true })) := by
  have clear := unusedCleared_of_run run
  refine ⟨fun q unused => ?_, fun c q t hs => ?_, fun c q pid t ne hs => ?_, fun c pid t r ne hs => ?_⟩
  · have h := clear q unused
    exact ⟨h.1, h.2.1, h.2.2.1⟩
  · obtain ⟨-, -, unused, rfl⟩ := alloc_inv hs
    simpa [allocproc] using (clear q unused).1
  · by_cases found : (s.proc q).pid = pid
    · exact .inr ⟨clear.kill_target ne found, found, kill_match hs found⟩
    · exact .inl (kill_miss hs found)
  · rcases killFrom_inv hs with ⟨hr, ht, none_⟩ | ⟨hr, q, -, found, ht⟩
    · exact .inl ⟨hr, ht, fun q _ => none_ q (List.mem_finRange q)⟩
    · exact .inr ⟨hr, q, clear.kill_target ne found, found, ht⟩

theorem never_born_killed_after_kill :
    ∃ s : State nproc 1, Run (Meets Step NoKillZero) (boot 0) (started ++ [.kill 0 0 1]) s ∧
      ∀ t, Step s (.alloc 0 1 true) t → (t.proc 1).killed = false := by
  have done : (exec step (boot 0) (started ++ [.kill 0 0 1])).isSome := by decide +kernel
  obtain ⟨s, hs⟩ := Option.isSome_iff_exists.mp done
  have run : Run (Meets Step NoKillZero) (boot 0) (started ++ [.kill 0 0 1]) s := by
    refine (run_of_exec step hs).meets fun a ha s c q => ?_
    rintro rfl
    simp [started] at ha
  exact ⟨s, run, (never_born_killed run).2.1 0 1⟩

/-- `kill(0)` marks the first `UNUSED` slot and returns `0`, and the next process is
born killed there. -/
theorem born_killed_after_kill_zero :
    ∃ s t u : State nproc 1, Run Step (boot 0) started s ∧ killCall s 0 0 = some (t, 0) ∧
      (s.proc 1).state = .unused ∧ (t.proc 1).state = .unused ∧ (t.proc 1).killed = true ∧
      Step t (.alloc 0 1 true) u ∧ (u.proc 1).state = .used ∧ (u.proc 1).killed = true := by
  have facts : ((exec step (boot 0) started).bind fun s => (killCall s 0 0).bind fun x =>
    (step x.1 (.alloc 0 1 true)).map fun u => ((s.proc 1).state, x.2, (x.1.proc 1).state,
      (x.1.proc 1).killed, (u.proc 1).state, (u.proc 1).killed)) =
    some (.unused, 0, .unused, true, .used, true) := by
    decide +kernel
  obtain ⟨s, run, facts⟩ := Option.bind_eq_some_iff.mp facts
  obtain ⟨⟨t, r⟩, call, facts⟩ := Option.bind_eq_some_iff.mp facts
  obtain ⟨u, alloc_, facts⟩ := Option.map_eq_some_iff.mp facts
  obtain ⟨h₁, rfl, h₂, h₃, h₄, h₅⟩ : (s.proc 1).state = .unused ∧ r = 0 ∧
    (t.proc 1).state = .unused ∧ (t.proc 1).killed = true ∧ (u.proc 1).state = .used ∧
    (u.proc 1).killed = true := by
    simpa only [Prod.mk.injEq] using facts
  exact ⟨s, t, u, run_of_exec step run, call, h₁, h₂, h₃, alloc_, h₄, h₅⟩

end Xv6.ProcKill
