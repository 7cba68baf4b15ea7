import Xv6.ProcOwner

/-! The CPU time that the scheduler charges to a process. A book kept beside the machine
lists, for each slot and since its `allocproc`, the spells it has had on a CPU: the tick
at switch-in and, once the scheduler is back, the tick at switch-out. -/

namespace Xv6.ProcTime

open Params ProcMachine ProcOwner Runs

variable {n k : Nat}

abbrev Spell := Nat × Option Nat

/-- `now` counts the ticks without wrapping around; the latest spell comes first. -/
structure Book (n : Nat) where
  now : Nat
  born : Fin n → Nat
  spells : Fin n → List Spell

def Book.start : Book n := ⟨0, fun _ => 0, fun _ => []⟩

def close (now : Nat) : List Spell → List Spell
  | [] => []
  | (i, _) :: rest => (i, some now) :: rest

def Book.record (b : Book n) (s : State n k) : Act n k → Book n
  | .tick _ => { b with now := b.now + 1 }
  | .alloc _ q _ => { b with
      born := Function.update b.born q b.now
      spells := Function.update b.spells q [] }
  | .dispatch c =>
    match s.ctl c with
    | .test r => { b with spells := Function.update b.spells r ((b.now, none) :: b.spells r) }
    | _ => b
  | .account c =>
    match s.ctl c with
    | .back p _ => { b with spells := Function.update b.spells p (close b.now (b.spells p)) }
    | _ => b
  | _ => b

def Logged (x : State n k × Book n) (a : Act n k) (y : State n k × Book n) : Prop :=
  Step x.1 a y.1 ∧ y.2 = x.2.record x.1 a

def spent : List Spell → Nat
  | [] => 0
  | (i, some o) :: rest => (o - i) + spent rest
  | (_, none) :: rest => spent rest

def Within (born : Nat) : Nat → List Spell → Prop
  | now, [] => born ≤ now
  | now, (i, o) :: rest => i ≤ o.getD now ∧ o.getD now ≤ now ∧ Within born i rest

def Closed (l : List Spell) : Prop := ∀ x ∈ l, x.2 ≠ none

lemma Within.later (h : Within born now l) (le : now ≤ now') : Within born now' l := by
  cases l with
  | nil => exact le_trans h le
  | cons x rest =>
    obtain ⟨i, o⟩ := x
    cases o with
    | none => exact ⟨le_trans h.1 le, le_rfl, h.2.2⟩
    | some o => exact ⟨h.1, le_trans h.2.1 le, h.2.2⟩

lemma Within.spent_le (h : Within born now l) : born + spent l ≤ now := by
  induction l generalizing now with
  | nil => simpa [spent, Within] using h
  | cons x rest ih =>
    obtain ⟨i, o⟩ := x
    have rest_le := ih h.2.2
    have lo := h.1
    have hi := h.2.1
    cases o with
    | none =>
      simp only [spent, Option.getD_none] at *
      omega
    | some o =>
      simp only [spent, Option.getD_some] at *
      omega

variable {s t : State n k} {a : Act n k} {c : Fin k} {q p : Fin n}

/-- The process that is on the CPU, and the start of its spell as the scheduler
remembers it. -/
def onCpu : Ctl n → Option (Fin n × UInt32)
  | .resume p _ t₀ | .user p t₀ | .leaving p _ t₀ | .back p t₀ => some (p, t₀)
  | _ => none

lemma current_of_onCpu (h : Inv s) (on : onCpu (s.ctl c) = some (p, t0)) : s.current c = some p := by
  have fit := h.fits c
  cases hctl : s.ctl c <;> simp_all [onCpu, Fits]

lemma onCpu_of_current (h : Inv s) (cur : s.current c = some p) : ∃ t0, onCpu (s.ctl c) = some (p, t0) := by
  have fit := h.fits c
  cases hctl : s.ctl c <;> simp_all [onCpu, Fits]

lemma not_onCpu_of_unused (h : Inv s) (free : s.lock q = none) (unused : (s.proc q).state = .unused) (c t0) :
    onCpu (s.ctl c) ≠ some (q, t0) := by
  intro on
  have running := h.running_of_current (current_of_onCpu h on) (by simp [free])
  rw [unused] at running
  cases running

lemma onCpu_step (hs : Step s a t) (noDispatch : ∀ c, a ≠ .dispatch c)
    (noAccount : ∀ c, a ≠ .account c) (c) : onCpu (t.ctl c) = onCpu (s.ctl c) := by
  by_cases hc : c = a.cpu
  · by_cases ha : a.isCall = true
    · rw [(quiet_of_isCall ha hs).ctl]
    cases a <;> try contradiction
    all_goals simp only [Step, step] at hs
    all_goals
      subst hc
    case visit =>
      obtain ⟨i, found, hi, hctl, -, rfl⟩ := visit_inv hs
      simp [hctl, onCpu]
    case choose =>
      obtain ⟨i, found, -, hctl, rfl⟩ := choose_inv hs
      simp [hctl, onCpu]
    case wfi =>
      obtain ⟨hctl, rfl⟩ := wfi_inv hs
      simp [hctl, onCpu]
    case acquire =>
      obtain ⟨r, hctl, -, rfl⟩ := acquire_inv hs
      simp [hctl, onCpu]
    case dispatch => exact absurd rfl (noDispatch _)
    case release =>
      obtain ⟨r, hctl, -, rfl⟩ := release_inv hs
      simp [hctl, onCpu]
    case resumed =>
      obtain ⟨p, from_, t0, hctl, proc, -, -, rfl⟩ := resumed_inv hs
      simp [hctl, onCpu]
    case yield =>
      obtain ⟨p, t0, hctl, -, rfl⟩ := yield_inv hs
      simp [hctl, onCpu]
    case sleep =>
      obtain ⟨p, t0, hctl, -, rfl⟩ := leave_inv hs
      simp [hctl, onCpu]
    case exit =>
      obtain ⟨p, -, hl⟩ := exit_inv hs
      obtain ⟨p', t0, hctl, -, rfl⟩ := leave_inv hl
      have hctl' : s.ctl c = .user p' t0 := hctl
      simp [hctl', onCpu]
    case swtch =>
      obtain ⟨p, to_, t0, hctl, rfl⟩ := swtch_inv hs
      simp [hctl, onCpu]
    case account => exact absurd rfl (noAccount _)
  · rw [ctl_other hs hc]

lemma tempoTotal_step (hs : Step s a t) (noAlloc : ∀ c ok, a ≠ .alloc c q ok)
    (noAccount : ∀ c, a = .account c → ∀ t0, s.ctl c ≠ .back q t0) :
    (t.proc q).tempoTotal = (s.proc q).tempoTotal := by
  have at_slot : ∀ r p, (r = q → p.tempoTotal = (s.proc q).tempoTotal) →
    (Function.update s.proc r p q).tempoTotal = (s.proc q).tempoTotal := by
    intro r p same
    rcases eq_or_ne q r with rfl | ne
    · simpa using same rfl
    · simp [ne]
  cases a <;> simp only [Step, step] at hs
  case visit =>
    obtain ⟨i, found, hi, -, -, rfl⟩ := visit_inv hs
    rfl
  case choose =>
    obtain ⟨i, found, -, -, rfl⟩ := choose_inv hs
    rfl
  case wfi =>
    obtain ⟨-, rfl⟩ := wfi_inv hs
    rfl
  case acquire =>
    obtain ⟨r, -, -, rfl⟩ := acquire_inv hs
    rfl
  case dispatch =>
    obtain ⟨r, -, -, rfl⟩ := dispatch_inv hs
    exact at_slot r _ (by rintro rfl; rfl)
  case release =>
    obtain ⟨r, -, -, rfl⟩ := release_inv hs
    rfl
  case resumed =>
    obtain ⟨p, from_, t0, -, rfl⟩ := resumed_eq hs
    exact at_slot p _ (by rintro rfl; split <;> rfl)
  case yield =>
    obtain ⟨p, t0, -, -, rfl⟩ := yield_inv hs
    exact at_slot p _ (by rintro rfl; rfl)
  case sleep =>
    obtain ⟨p, t0, -, -, rfl⟩ := leave_inv hs
    exact at_slot p _ (by rintro rfl; rfl)
  case exit =>
    obtain ⟨p, -, hl⟩ := exit_inv hs
    obtain ⟨p', t0, -, -, rfl⟩ := leave_inv hl
    have given : ((reparent s p).proc q).tempoTotal = (s.proc q).tempoTotal := by
      simp only [reparent]
      split <;> rfl
    rcases eq_or_ne q p' with rfl | ne
    · simpa using given
    · simpa [ne] using given
  case swtch =>
    obtain ⟨p, to_, t0, -, rfl⟩ := swtch_inv hs
    rfl
  case account =>
    obtain ⟨p, t0, hctl, rfl⟩ := account_inv hs
    exact at_slot p _ (fun e => absurd (e ▸ hctl) (noAccount _ rfl t0))
  case wakeup =>
    obtain ⟨-, -, -, rfl | ⟨-, rfl⟩⟩ := wakeup_inv hs
    · rfl
    · exact at_slot _ _ (by rintro rfl; unfold wake; split <;> rfl)
  case kill =>
    obtain ⟨-, -, rfl | rfl⟩ := kill_inv hs
    · rfl
    · exact at_slot _ _ (by rintro rfl; unfold wake; split <;> rfl)
  case alloc c r ok =>
    obtain ⟨-, -, -, rfl⟩ := alloc_inv hs
    have ne : q ≠ r := by
      rintro rfl
      exact noAlloc c ok rfl
    cases ok <;> simp [ne]
  case setParent =>
    obtain ⟨p, -, -, rfl⟩ := setParent_inv hs
    exact at_slot _ _ (by rintro rfl; rfl)
  case makeRunnable =>
    obtain ⟨-, -, -, rfl⟩ := makeRunnable_inv hs
    exact at_slot _ _ (by rintro rfl; rfl)
  case reap =>
    obtain ⟨-, -, -, rfl⟩ := reap_inv hs
    exact at_slot _ _ (by rintro rfl; rfl)
  case setType =>
    obtain ⟨-, rfl | ⟨r, -, rfl⟩⟩ := sysSetType_inv hs
    · rfl
    · exact at_slot r _ (by rintro rfl; rfl)
  case tick =>
    obtain ⟨-, rfl⟩ := clockintr_inv hs
    rfl

lemma ticks_step (hs : Step s a t) (noTick : ∀ c, a ≠ .tick c) : t.ticks = s.ticks := by
  cases a
  case tick c => exact absurd rfl (noTick c)
  all_goals
    simp only [Step, step, visit, choose, wfi, acquireRunProc, dispatch, releaseRunProc, account,
      resumed, yield, sleep, exit, leave, reparent, swtch, wakeup, kill, alloc, setParent,
      makeRunnable, reap, sysSetType] at hs
    repeat' split at hs
    all_goals first | contradiction | (cases hs; rfl)

variable {b : Book n}

/-- The table agrees with the book, and the open spells are those on a CPU. -/
structure Charged (s : State n k) (b : Book n) : Prop where
  ticks : s.ticks = UInt32.ofNat b.now
  total : ∀ q, (s.proc q).tempoTotal = UInt32.ofNat (spent (b.spells q))
  within : ∀ q, Within (b.born q) b.now (b.spells q)
  opened : ∀ c p t₀, onCpu (s.ctl c) = some (p, t₀) →
    ∃ i rest, b.spells p = (i, none) :: rest ∧ t₀ = UInt32.ofNat i ∧ Closed rest
  closed : ∀ p, (∀ c t₀, onCpu (s.ctl c) ≠ some (p, t₀)) → Closed (b.spells p)

lemma Charged.boot (first) : Charged (boot first : State n k) .start where
  ticks := rfl
  total q := by
    by_cases hq : q = first <;> simp [ProcMachine.boot, Book.start, spent, hq, emptyProc, allocproc]
  within _ := Nat.le_refl 0
  opened c p t0 on := by simp [ProcMachine.boot, onCpu] at on
  closed p _ := by simp [Book.start, Closed]

section
variable (h : Charged s b)
include h

lemma Charged.tick (hs : clockintr s c = some t) : Charged t (b.record s (.tick c)) := by
  obtain ⟨-, rfl⟩ := clockintr_inv hs
  refine ⟨?_, h.total, fun q => (h.within q).later (Nat.le_succ _), h.opened, h.closed⟩
  simp [Book.record, h.ticks, UInt32.ofNat_add]

lemma Charged.alloc (inv : Inv s) (hs : alloc s c q ok = some t) : Charged t (b.record s (.alloc c q ok)) := by
  obtain ⟨-, free, unused, rfl⟩ := alloc_inv hs
  have idle := not_onCpu_of_unused inv free unused
  refine ⟨?_, fun r => ?_, fun r => ?_, fun d p t0 on => ?_, fun p off => ?_⟩
  · cases ok <;> exact h.ticks
  · rcases eq_or_ne r q with rfl | ne
    · cases ok <;> simp [Book.record, spent, allocproc, freeproc]
    · cases ok <;> simpa [Book.record, ne] using h.total r
  · rcases eq_or_ne r q with rfl | ne
    · simp [Book.record, Within]
    · simpa [Book.record, ne] using h.within r
  · have on' : onCpu (s.ctl d) = some (p, t0) := by cases ok <;> exact on
    have ne : p ≠ q := fun e => idle d t0 (e ▸ on')
    simpa [Book.record, ne] using h.opened d p t0 on'
  · rcases eq_or_ne p q with rfl | ne
    · simp [Book.record, Closed]
    · have off' : ∀ d t0, onCpu (s.ctl d) ≠ some (p, t0) := by cases ok <;> exact off
      simpa [Book.record, ne] using h.closed p off'

lemma Charged.dispatch (inv : Inv s) (hs : dispatch s c = some t) : Charged t (b.record s (.dispatch c)) := by
  obtain ⟨r, hctl, ready, rfl⟩ := dispatch_inv hs
  have alone := inv.current_ne_of_test hctl (by simp [ready])
  have over_ : Closed (b.spells r) := h.closed r fun d t0 on => alone d (current_of_onCpu inv on)
  refine ⟨by simpa [Book.record, hctl] using h.ticks, fun q => ?_, fun q => ?_, fun d p t0 on => ?_, fun p off => ?_⟩
  · rcases eq_or_ne q r with rfl | ne
    · simpa [Book.record, hctl, spent] using h.total q
    · simpa [Book.record, hctl, ne] using h.total q
  · rcases eq_or_ne q r with rfl | ne
    · simpa [Book.record, hctl, Within] using h.within q
    · simpa [Book.record, hctl, ne] using h.within q
  · rcases eq_or_ne d c with rfl | other
    · obtain ⟨rfl, rfl⟩ : r = p ∧ s.ticks = t0 := by simpa [onCpu] using on
      exact ⟨b.now, b.spells r, by simp [Book.record, hctl], h.ticks, over_⟩
    · have on' : onCpu (s.ctl d) = some (p, t0) := by simpa [other] using on
      have ne : p ≠ r := fun e => alone d (e ▸ current_of_onCpu inv on')
      simpa [Book.record, hctl, ne] using h.opened d p t0 on'
  · have ne : p ≠ r := fun e => off c s.ticks (by simp [onCpu, e])
    have off' : ∀ d t0, onCpu (s.ctl d) ≠ some (p, t0) := by
      intro d t0 on
      rcases eq_or_ne d c with rfl | other
      · simp [hctl, onCpu] at on
      · exact off d t0 (by simpa [other] using on)
    simpa [Book.record, hctl, ne] using h.closed p off'

lemma Charged.account (inv : Inv s) (hs : account s c = some t) : Charged t (b.record s (.account c)) := by
  obtain ⟨r, t0, hctl, rfl⟩ := account_inv hs
  have on_r : onCpu (s.ctl c) = some (r, t0) := by simp [hctl, onCpu]
  have cur := current_of_onCpu inv on_r
  obtain ⟨i, rest, spells, rfl, over_⟩ := h.opened c r t0 on_r
  have upto : i ≤ b.now ∧ Within (b.born r) i rest := by
    have w := h.within r
    rw [spells] at w
    exact ⟨w.1, w.2.2⟩
  have closing : (b.record s (.account c)).spells r = (i, some b.now) :: rest := by
    simp [Book.record, hctl, spells, close]
  have others : ∀ q, q ≠ r → (b.record s (.account c)).spells q = b.spells q := by
    intro q ne
    simp [Book.record, hctl, ne]
  have same : (b.record s (.account c)).now = b.now ∧ (b.record s (.account c)).born = b.born := by
    simp [Book.record, hctl]
  refine ⟨?_, fun q => ?_, fun q => ?_, fun d p t0 on => ?_, fun p off => ?_⟩
  · rw [same.1]
    exact h.ticks
  · rcases eq_or_ne q r with rfl | ne
    · have before := h.total q
      rw [spells] at before
      rw [closing]
      simp [spent, before, h.ticks, UInt32.ofNat_add, UInt32.ofNat_sub upto.1, UInt32.add_comm]
    · rw [others q ne]
      simpa [ne] using h.total q
  · rw [same.1, same.2]
    rcases eq_or_ne q r with rfl | ne
    · rw [closing]
      exact ⟨upto.1, le_rfl, upto.2⟩
    · rw [others q ne]
      exact h.within q
  · rcases eq_or_ne d c with rfl | other
    · simp [onCpu] at on
    · have on' : onCpu (s.ctl d) = some (p, t0) := by simpa [other] using on
      have ne : p ≠ r := by
        rintro rfl
        exact other (inv.once d c p (current_of_onCpu inv on') cur)
      rw [others p ne]
      exact h.opened d p t0 on'
  · rcases eq_or_ne p r with rfl | ne
    · rw [closing]
      intro x hx
      rcases List.mem_cons.mp hx with rfl | hx
      · simp
      · exact over_ x hx
    · rw [others p ne]
      refine h.closed p fun d t0 on => ?_
      rcases eq_or_ne d c with rfl | other
      · exact ne (Option.some.inj ((current_of_onCpu inv on).symm.trans cur))
      · exact off d t0 (by simpa [other] using on)

lemma Charged.step (inv : Inv s) (hs : Step s a t) : Charged t (b.record s a) := by
  cases a with
  | tick c => exact h.tick hs
  | alloc c q ok => exact h.alloc inv hs
  | dispatch c => exact h.dispatch inv hs
  | account c => exact h.account inv hs
  | _ =>
    have cpus := onCpu_step hs (by simp) (by simp)
    refine ⟨?_, fun q => ?_, h.within, fun c p t0 on => ?_, fun p off => ?_⟩
    · exact (ticks_step hs (by simp)).trans h.ticks
    · exact (tempoTotal_step hs (by simp) (by simp)).trans (h.total q)
    · exact h.opened c p t0 (cpus c ▸ on)
    · exact h.closed p fun c t0 on => off c t0 ((cpus c).trans on)

end

lemma logged_of_run (run : Run Step (boot first) as s) :
    ∃ b, Run Logged (boot first, .start) as (s, b) ∧ Charged s b := by
  refine run.history (fun as s => ∃ b, Run Logged (ProcMachine.boot first, .start) as (s, b) ∧
    Charged s b) ?_ ⟨.start, .nil _, Charged.boot first⟩
  rintro as s a t upto ⟨b, logged, charged⟩ hs
  exact ⟨b.record s a, logged.snoc ⟨hs, rfl⟩, charged.step (Reachable.inv ⟨first, as, upto⟩) hs⟩

/-- In every run `tempo_total` is the sum of the completed spells of the present incarnation, modulo
`2 ^ 32`; the spells follow one another, and only the latest can be open, while some CPU has the
process. So the charge of a process younger than `2 ^ 31` ticks is that sum and at most its age. -/
theorem tempoTotal_exact {first : Fin n} {as : List (Act n k)} (run : Run Step (boot first) as s) :
    ∃ b, Run Logged (boot first, .start) as (s, b) ∧ s.ticks = UInt32.ofNat b.now ∧ ∀ q,
      (s.proc q).tempoTotal = UInt32.ofNat (spent (b.spells q)) ∧
      Within (b.born q) b.now (b.spells q) ∧
      ((∃ c, s.current c = some q) → ∃ i rest, b.spells q = (i, none) :: rest ∧ Closed rest) ∧
      ((∀ c, s.current c ≠ some q) → Closed (b.spells q)) ∧
      (b.now - b.born q < 2 ^ 31 → (s.proc q).tempoTotal.toInt32.toInt = spent (b.spells q) ∧
        (s.proc q).tempoTotal.toInt32.toInt ≤ (b.now - b.born q : Nat)) := by
  obtain ⟨b, logged, charged⟩ := logged_of_run run
  have inv : Inv s := Reachable.inv ⟨first, as, run⟩
  refine ⟨b, logged, charged.ticks, fun q => ⟨charged.total q, charged.within q, ?_, ?_, ?_⟩⟩
  · rintro ⟨c, cur⟩
    obtain ⟨t₀, on⟩ := onCpu_of_current inv cur
    obtain ⟨i, rest, spells, -, over_⟩ := charged.opened c q t₀ on
    exact ⟨i, rest, spells, over_⟩
  · intro off
    exact charged.closed q fun c t₀ on => off c (current_of_onCpu inv on)
  · intro young
    have le := (charged.within q).spent_le
    have exact_ : (s.proc q).tempoTotal.toInt32.toInt = spent (b.spells q) := by
      rw [charged.total q]
      exact Int32.toInt_ofNat_of_lt (by omega)
    exact ⟨exact_, by omega⟩

def twoTicks : List (Act nproc 1) :=
  List.replicate nproc (.visit 0) ++
    [.choose 0, .acquire 0, .dispatch 0, .resumed 0, .tick 0, .tick 0, .yield 0, .swtch 0, .account 0]

theorem tempoTotal_exact_two_ticks : ∃ s : State nproc 1, Run Step (boot 0) twoTicks s ∧ (s.proc 0).tempoTotal = 2 ∧
    ∃ b, Run Logged (boot 0, .start) twoTicks (s, b) ∧ b.born 0 ≤ b.now := by
  have run : ((exec step (boot 0) twoTicks).map fun s => (s.proc 0).tempoTotal) = some 2 := by decide +kernel
  obtain ⟨s, hs, charge⟩ := Option.map_eq_some_iff.mp run
  have run := run_of_exec step hs
  obtain ⟨b, logged, -, slots⟩ := tempoTotal_exact run
  exact ⟨s, run, charge, b, logged, Nat.le_of_add_right_le (slots 0).2.1.spent_le⟩

end Xv6.ProcTime
