import Xv6.Runs
import Mathlib.Logic.Function.Basic
import Mathlib.Tactic.Common

/-! The nesting of `push_off` and `pop_off` of `kernel/spinlock.c`, through `acquire` and `release` and the
switches of `kernel/proc.c` between a process and the scheduler of a CPU. There are CPUs `C`, processes `P`
and, besides the `p->lock`s, locks `L`. Each step is a complete call on one CPU. -/

namespace Xv6.Intr

open Runs List
open Function (update update_self update_of_ne)

inductive Lock (P L : Type)
  | proc (p : P)
  | other (l : L)
  deriving DecidableEq

structure Cpu (P : Type) where
  noff : Int
  intena : Bool
  /-- Whether interrupts are on. -/
  intr : Bool
  proc : Option P

structure State (C P L : Type) where
  cpu : C → Cpu P
  /-- The CPU of a lock that is taken. -/
  lock : Lock P L → Option C
  /-- Whether a process is on a CPU. -/
  running : P → Bool
  /-- Whether its `p->state` is `RUNNING`. -/
  state : P → Bool
  /-- The variable `intena` of a process that is in `sched`; a new process starts in `forkret`, with `none`. -/
  intena : P → Option Bool

inductive Act (C P L : Type)
  | pushOff (c : C)
  | popOff (c : C)
  | acquire (c : C) (l : Lock P L)
  | release (c : C) (l : Lock P L)
  /-- `intr_on` and `intr_off`, and the changes at a trap and at the return from it. -/
  | intr (c : C) (on : Bool)
  /-- The process on a CPU sets its `p->state`, to `RUNNING` or not. -/
  | setState (c : C) (running : Bool)
  | sched (c : C)
  /-- `swtch` in `scheduler`, up to the return of `sched` or to `forkret`. -/
  | dispatch (c : C) (p : P)
  | alloc (p : P)

variable {C P L : Type} {s t : State C P L} {c : C} {p : P}

def thread (s : State C P L) (c : C) : C ⊕ P := ((s.cpu c).proc.map .inr).getD (.inl c)

lemma thread_inr_iff : thread s c = .inr p ↔ (s.cpu c).proc = some p := by
  cases h : (s.cpu c).proc <;> simp [thread, h]

lemma thread_inl (h : thread s c = .inl c') : c = c' := by
  cases p : (s.cpu c).proc <;> simp_all [thread]

def Cpu.pushOff (c : Cpu P) : Cpu P :=
  { c with intr := false, intena := if c.noff = 0 then c.intr else c.intena, noff := c.noff + 1 }

def Cpu.popOff (c : Cpu P) : Except String (Cpu P) :=
  if c.intr then .error "pop_off - interruptible"
  else if c.noff < 1 then .error "pop_off"
  else .ok { c with noff := c.noff - 1, intr := c.noff - 1 = 0 && c.intena }

/-- What a CPU keeps of the `push_off`s in force. -/
structure Keeps (cpu : Cpu P) (force : List (Option (Lock P L))) (outer : Bool) : Prop where
  count : cpu.noff = force.length
  off : force ≠ [] → cpu.intr = false
  flag : force ≠ [] → cpu.intena = outer

variable {cpu : Cpu P} {force : List (Option (Lock P L))} {outer : Bool}

lemma Keeps.push (h : Keeps cpu force outer) (l) :
    Keeps cpu.pushOff (l :: force) (if force = [] then cpu.intr else outer) where
  count := by simp [Cpu.pushOff, h.count]
  off _ := rfl
  flag _ := by
    by_cases first : force = []
    · simp [Cpu.pushOff, h.count, first]
    · simp [Cpu.pushOff, h.count, first, h.flag first]

variable [DecidableEq C] [DecidableEq P] [DecidableEq L]

def State.setCpu (s : State C P L) (c : C) (cpu : Cpu P) : State C P L := { s with cpu := update s.cpu c cpu }

/-- A step that is not possible now is `none`, such as to go on with a lock that another CPU holds. -/
def next (s : State C P L) : Act C P L → Option (Except String (State C P L))
  | .pushOff c => some (.ok (s.setCpu c (s.cpu c).pushOff))
  | .popOff c => some ((s.cpu c).popOff.map (s.setCpu c))
  | .acquire c l =>
    match s.lock l with
    | none => some (.ok { s.setCpu c (s.cpu c).pushOff with lock := update s.lock l (some c) })
    | some c' => if c' = c then some (.error "acquire") else none
  | .release c l =>
    if s.lock l = some c then
      some ((s.cpu c).popOff.map fun cpu => { s.setCpu c cpu with lock := update s.lock l none })
    else some (.error "release")
  | .intr c on => some (.ok (s.setCpu c { s.cpu c with intr := on }))
  | .setState c running => (s.cpu c).proc.map fun p => .ok { s with state := update s.state p running }
  | .sched c =>
    match (s.cpu c).proc with
    | none => none
    | some p =>
      if s.lock (.proc p) ≠ some c then some (.error "sched p->lock")
      else if (s.cpu c).noff ≠ 1 then some (.error "sched locks")
      else if s.state p then some (.error "sched running")
      else if (s.cpu c).intr then some (.error "sched interruptible")
      else some (.ok { s.setCpu c { s.cpu c with proc := none } with
        running := update s.running p false
        intena := update s.intena p (some (s.cpu c).intena) })
  | .dispatch c p =>
    if (s.cpu c).proc = none ∧ s.running p = false then
      some (.ok { s.setCpu c { s.cpu c with proc := some p, intena := (s.intena p).getD (s.cpu c).intena } with
        running := update s.running p true
        state := update s.state p true })
    else none
  | .alloc p => if s.running p then none else some (.ok { s with intena := update s.intena p none })

/-- What has been called, apart from what the kernel keeps of it. -/
structure Calls (C P L : Type) where
  /-- The unmatched `push_off`s of the thread on a CPU, with the lock of an `acquire`; at a switch they go to
  the other thread. -/
  force : C → List (Option (Lock P L))
  /-- Whether interrupts were on at the outermost `push_off` of a thread, scheduler or process. A new process
  has that of the `acquire` in the scheduler. -/
  outer : C ⊕ P → Bool

def Calls.push (g : Calls C P L) (s : State C P L) (c : C) (l : Option (Lock P L)) : Calls C P L where
  force := update g.force c (l :: g.force c)
  outer := if g.force c = [] then update g.outer (thread s c) (s.cpu c).intr else g.outer

def note (s : State C P L) (g : Calls C P L) : Act C P L → Calls C P L
  | .pushOff c => g.push s c none
  | .acquire c l => g.push s c (some l)
  | .popOff c => { g with force := update g.force c ((g.force c).erase none) }
  | .release c l => { g with force := update g.force c ((g.force c).erase (some l)) }
  | .sched c => { g with outer := update g.outer (.inl c) (g.outer (thread s c)) }
  | .dispatch c p =>
    { g with outer := if s.intena p = none then update g.outer (.inr p) (g.outer (.inl c)) else g.outer }
  | _ => g

/-- Releases match acquires, interrupts are otherwise switched only outside of them, and the scheduler switches
to a process with its lock alone. -/
def matched (g : Calls C P L) : Act C P L → Bool
  | .popOff c => decide (none ∈ g.force c)
  | .release c l => decide (some l ∈ g.force c)
  | .intr c _ => decide (g.force c = [])
  | .dispatch c p => decide (g.force c = [some (.proc p)])
  | _ => true

def step (x : State C P L × Calls C P L) (a : Act C P L) : Option (State C P L × Calls C P L) :=
  match next x.1 a with
  | some (.ok t) => if matched x.2 a then some (t, note x.1 x.2 a) else none
  | _ => none

def start : State C P L × Calls C P L :=
  (⟨fun _ => ⟨0, false, false, none⟩, fun _ => none, fun _ => false, fun _ => false, fun _ => none⟩,
    ⟨fun _ => [], fun _ => false⟩)

/-- The flag of a CPU is that of the thread on it, and a process in `sched` has its own. -/
structure Inv (s : State C P L) (g : Calls C P L) : Prop where
  cpu : ∀ c, Keeps (s.cpu c) (g.force c) (g.outer (thread s c))
  held : ∀ c l, (g.force c).count (some l) = if s.lock l = some c then 1 else 0
  running : ∀ c p, (s.cpu c).proc = some p → s.running p = true
  alone : ∀ c c', thread s c = thread s c' → c = c'
  saved : ∀ p b, s.running p = false → s.intena p = some b → b = g.outer (.inr p)

variable {g : Calls C P L}

/-- Matched, `pop_off` finds interrupts off and a count to take from. -/
lemma Keeps.pop (h : Keeps cpu force outer) (mem : e ∈ force) :
    ∃ cpu', cpu.popOff = .ok cpu' ∧ cpu'.proc = cpu.proc ∧ Keeps cpu' (force.erase e) outer ∧
      (cpu'.noff = 0 → cpu'.intr = outer) := by
  have some_ := ne_nil_of_mem mem
  have pos := length_pos_of_mem mem
  have count : cpu.noff - 1 = (force.erase e).length := by
    rw [h.count, length_erase_of_mem mem]
    omega
  refine ⟨{ cpu with noff := cpu.noff - 1, intr := cpu.noff - 1 = 0 && cpu.intena }, ?_, rfl,
    ⟨count, fun more => ?_, fun _ => h.flag some_⟩, fun zero => ?_⟩
  · rw [Cpu.popOff, h.off some_, if_neg (by decide), if_neg (by rw [h.count]; omega)]
  · have : cpu.noff - 1 ≠ 0 := by
      rw [count]
      exact Int.ofNat_ne_zero.mpr (Nat.ne_of_gt (length_pos_iff.mpr more))
    simp [this]
  · have : cpu.noff - 1 = 0 := zero
    simp [this, h.flag some_]

section
variable (inv : Inv s g)
include inv

/-- A step on CPU `c` alone, after which the thread `y` is there. -/
lemma Inv.change (y) (cpus : t.cpu = update s.cpu c cpu) (now : thread t c = y)
    (new : ∀ c' ≠ c, thread s c' ≠ y) (keeps : Keeps cpu force (outer' y)) (others : ∀ x ≠ y, outer' x = g.outer x)
    (held : ∀ c' l, (update g.force c force c').count (some l) = if t.lock l = some c' then 1 else 0)
    (running : ∀ c p, (t.cpu c).proc = some p → t.running p = true)
    (saved : ∀ p b, t.running p = false → t.intena p = some b → b = outer' (.inr p)) :
    Inv t ⟨update g.force c force, outer'⟩ := by
  have stays : ∀ c' ≠ c, thread t c' = thread s c' := by
    intro c' ne
    rw [thread, cpus, update_of_ne ne, thread]
  refine ⟨fun c' => ?_, held, running, fun c1 c2 eq => ?_, saved⟩
  · dsimp only
    rcases eq_or_ne c' c with rfl | ne
    · rwa [now, cpus, update_self, update_self]
    · rw [cpus, update_of_ne ne, update_of_ne ne, stays c' ne, others _ (new c' ne)]
      exact inv.cpu c'
  · have := inv.alone c1 c2
    by_cases first : c1 = c <;> by_cases second : c2 = c <;> grind

/-- The thread stays. -/
lemma Inv.onCpu (same : cpu.proc = (s.cpu c).proc) (keeps : Keeps cpu force (outer' (thread s c)))
    (others : ∀ x ≠ thread s c, outer' x = g.outer x)
    (held : ∀ c' l, (update g.force c force c').count (some l) = if lock l = some c' then 1 else 0) :
    Inv { s.setCpu c cpu with lock := lock } ⟨update g.force c force, outer'⟩ := by
  refine inv.change (thread s c) rfl ?_ (fun c' ne eq => ne (inv.alone _ _ eq)) keeps others held
    (fun c' p here => ?_) fun p b idle here => ?_
  · simp [thread, State.setCpu, same]
  · rcases eq_or_ne c' c with rfl | ne
    · exact inv.running c' p (by simpa [State.setCpu, same] using here)
    · exact inv.running c' p (by simpa [State.setCpu, ne] using here)
  · refine (inv.saved p b idle here).trans (others _ fun eq => ?_).symm
    have := inv.running c p (thread_inr_iff.mp eq.symm)
    exact absurd (this.symm.trans idle) (by decide)

lemma Inv.push (l)
    (held : ∀ c' m, (update g.force c (l :: g.force c) c').count (some m) = if lock m = some c' then 1 else 0) :
    Inv { s.setCpu c (s.cpu c).pushOff with lock := lock } (g.push s c l) := by
  refine inv.onCpu rfl ?_ (fun x ne => ?_) held
  · have keeps := (inv.cpu c).push l
    split_ifs at keeps ⊢
    · rwa [update_self]
    · exact keeps
  · split_ifs
    · exact update_of_ne ne ..
    · rfl

lemma Inv.acquire (free : s.lock l = none) :
    Inv { s.setCpu c (s.cpu c).pushOff with lock := update s.lock l (some c) } (g.push s c (some l)) := by
  refine inv.push (some l) fun c' m => ?_
  have old := inv.held c' m
  rcases eq_or_ne m l with rfl | ne <;> rcases eq_or_ne c' c with rfl | other <;> grind

lemma Inv.holding (mem : some l ∈ g.force c) : s.lock l = some c := by
  have pos := count_pos_iff.mpr mem
  rw [inv.held] at pos
  by_contra free
  simp [free] at pos

lemma Inv.pop (mem : e ∈ g.force c) (ran : (s.cpu c).popOff = .ok cpu)
    (held : ∀ c' m, (update g.force c ((g.force c).erase e) c').count (some m) = if lock m = some c' then 1 else 0) :
    Inv { s.setCpu c cpu with lock := lock } { g with force := update g.force c ((g.force c).erase e) } := by
  obtain ⟨cpu', eq, same, keeps, -⟩ := (inv.cpu c).pop mem
  obtain rfl := Except.ok.inj (eq.symm.trans ran)
  exact inv.onCpu same keeps (fun _ _ => rfl) held

lemma Inv.release (mem : some l ∈ g.force c) (ran : (s.cpu c).popOff = .ok cpu) :
    Inv { s.setCpu c cpu with lock := update s.lock l none }
      { g with force := update g.force c ((g.force c).erase (some l)) } := by
  refine inv.pop mem ran fun c' m => ?_
  have old := inv.held c' m
  have lock := inv.holding mem
  rcases eq_or_ne m l with rfl | ne <;> rcases eq_or_ne c' c with rfl | other <;> grind

/-- The thread `y` finds the `push_off`s of the thread before it. -/
lemma Inv.switch (y) (cpus : t.cpu = update s.cpu c cpu) (lock : t.lock = s.lock)
    (now : thread t c = y) (new : ∀ c' ≠ c, thread s c' ≠ y) (keeps : Keeps cpu (g.force c) (outer' y))
    (others : ∀ x ≠ y, outer' x = g.outer x) (running : ∀ c p, (t.cpu c).proc = some p → t.running p = true)
    (saved : ∀ p b, t.running p = false → t.intena p = some b → b = outer' (.inr p)) : Inv t ⟨g.force, outer'⟩ := by
  have changed := inv.change y cpus now new keeps others (by simpa [lock] using inv.held) running saved
  rwa [Function.update_eq_self] at changed

/-- The lock goes to the scheduler, and the flag of the process into its own variable. -/
lemma Inv.sched (here : (s.cpu c).proc = some p) (one : (s.cpu c).noff = 1) :
    Inv { s.setCpu c { s.cpu c with proc := none } with
      running := update s.running p false
      intena := update s.intena p (some (s.cpu c).intena) }
      { g with outer := update g.outer (.inl c) (g.outer (thread s c)) } := by
  have mine : thread s c = .inr p := thread_inr_iff.mpr here
  obtain ⟨count, off, flag⟩ := inv.cpu c
  have some_ : g.force c ≠ [] := by
    rw [← length_pos_iff]
    omega
  refine inv.switch (.inl c) rfl rfl (by simp [thread, State.setCpu]) (fun c' ne eq => ne (thread_inl eq))
    ⟨count, off, fun _ => ?_⟩ (fun x ne => update_of_ne ne ..) (fun c' q there => ?_) fun q b idle there => ?_
  · rw [update_self]
    exact flag some_
  · rcases eq_or_ne c' c with rfl | ne
    · simp [State.setCpu] at there
    · have old : (s.cpu c').proc = some q := by simpa [State.setCpu, ne] using there
      have other : q ≠ p := by
        rintro rfl
        exact ne (inv.alone _ _ ((thread_inr_iff.mpr old).trans mine.symm))
      simpa [other] using inv.running c' q old
  · rcases eq_or_ne q p with rfl | ne
    · rw [update_of_ne (by simp), ← mine, ← flag some_]
      simpa using there.symm
    · exact inv.saved q b (by simpa [ne] using idle) (by simpa [ne] using there)

/-- The process brings its own flag along; a new one takes that of the scheduler over. -/
lemma Inv.dispatch (idle : (s.cpu c).proc = none) (stopped : s.running p = false) (force : g.force c ≠ []) :
    Inv { s.setCpu c { s.cpu c with proc := some p, intena := (s.intena p).getD (s.cpu c).intena } with
      running := update s.running p true
      state := update s.state p true }
      { g with outer := if s.intena p = none then update g.outer (.inr p) (g.outer (.inl c)) else g.outer } := by
  obtain ⟨count, off, flag⟩ := inv.cpu c
  have mine : thread s c = .inl c := by simp [thread, idle]
  refine inv.switch (.inr p) rfl rfl (by simp [thread, State.setCpu]) (fun c' _ eq => ?_) ⟨count, off, fun _ => ?_⟩
    (fun x ne => ?_) (fun c' q there => ?_) fun q b resting there => ?_
  · have := inv.running c' p (thread_inr_iff.mp eq)
    exact absurd (this.symm.trans stopped) (by decide)
  · cases own : s.intena p with
    | none => simpa [mine] using flag force
    | some b => simpa using inv.saved p b stopped own
  · split_ifs
    · exact update_of_ne ne ..
    · rfl
  · rcases eq_or_ne q p with rfl | ne
    · simp
    · rcases eq_or_ne c' c with rfl | other
      · simp [State.setCpu, Ne.symm ne] at there
      · simpa [ne] using inv.running c' q (by simpa [State.setCpu, other] using there)
  · have ne : q ≠ p := by
      rintro rfl
      simp at resting
    rw [inv.saved q b (by simpa [ne] using resting) there]
    split_ifs
    · rw [update_of_ne (by simpa using ne)]
    · rfl

lemma Inv.step {a : Act C P L} {y : State C P L × Calls C P L} (ran : step (s, g) a = some y) : Inv y.1 y.2 := by
  unfold Intr.step at ran
  split at ran
  swap
  · cases ran
  rename_i t went
  split_ifs at ran with ok
  cases ran
  cases a with
  | pushOff c =>
    cases went
    refine inv.push none fun c' m => ?_
    rcases eq_or_ne c' c with rfl | ne
    · simpa using inv.held c' m
    · simpa [ne] using inv.held c' m
  | popOff c =>
    obtain ⟨cpu, ran, -⟩ := (inv.cpu c).pop (of_decide_eq_true ok)
    simp only [next, ran, Except.map] at went
    cases went
    refine inv.pop (of_decide_eq_true ok) ran fun c' m => ?_
    rcases eq_or_ne c' c with rfl | ne
    · simpa [count_erase_of_ne] using inv.held c' m
    · simpa [ne] using inv.held c' m
  | acquire c l =>
    simp only [next] at went
    split at went
    · cases went
      exact inv.acquire ‹_›
    · split_ifs at went
      cases went
  | release c l =>
    have mem := of_decide_eq_true ok
    obtain ⟨cpu, ran, -⟩ := (inv.cpu c).pop mem
    simp only [next, ran, Except.map, if_pos (inv.holding mem)] at went
    cases went
    exact inv.release mem ran
  | intr c on =>
    have empty := of_decide_eq_true ok
    cases went
    have count := (inv.cpu c).count
    have held : ∀ c' l, (update g.force c [] c').count (some l) = if s.lock l = some c' then 1 else 0 := by
      rw [← empty, Function.update_eq_self]
      exact inv.held
    have kept := inv.onCpu (show { s.cpu c with intr := on }.proc = _ from rfl)
      ⟨empty ▸ count, fun some_ => absurd rfl some_, fun some_ => absurd rfl some_⟩ (fun _ _ => rfl) held
    rwa [← empty, Function.update_eq_self] at kept
  | setState c running =>
    cases here : (s.cpu c).proc <;> simp only [next, here] at went <;> cases went
    exact { inv with }
  | sched c =>
    simp only [next] at went
    split at went
    · cases went
    · split_ifs at went with lock one <;> cases went
      exact inv.sched ‹_› (not_not.mp one)
  | dispatch c p =>
    simp only [next] at went
    split_ifs at went with idle
    cases went
    exact inv.dispatch idle.1 idle.2 (by rw [of_decide_eq_true ok]; simp)
  | alloc p =>
    simp only [next] at went
    split_ifs at went
    cases went
    refine { inv with saved := fun q b idle there => ?_ }
    rcases eq_or_ne q p with rfl | ne
    · simp at there
    · exact inv.saved q b idle (by simpa [ne] using there)

end

lemma inv_start : Inv (start (C := C) (P := P) (L := L)).1 start.2 where
  cpu _ := ⟨rfl, fun some_ => absurd rfl some_, fun some_ => absurd rfl some_⟩
  held _ _ := rfl
  running _ _ := nofun
  alone _ _ eq := Sum.inl.inj eq
  saved _ _ _ := nofun

/-- In every run in which releases match acquires, `noff` counts the `push_off`s in force, interrupts are off
under them, `release` and `pop_off` do not panic, and a process that takes back its last one has interrupts
as they were at its first. -/
theorem interrupts_nest {C P L : Type} [DecidableEq C] [DecidableEq P] [DecidableEq L] {as : List (Act C P L)}
    {s : State C P L} {g : Calls C P L} (run : Run (fun x a y => step x a = some y) start as (s, g)) :
    (∀ c, (s.cpu c).noff = (g.force c).length ∧ (0 < (s.cpu c).noff → (s.cpu c).intr = false)) ∧
      ∀ c a, (a = .popOff c ∨ ∃ l, a = .release c l) → matched g a = true → ∃ t, next s a = some (.ok t) ∧
        ∀ p, (s.cpu c).proc = some p → (t.cpu c).noff = 0 → (t.cpu c).intr = g.outer (.inr p) := by
  have inv : Inv s g := run.invariant (fun x : State C P L × Calls C P L => Inv x.1 x.2)
    (fun _ _ _ inv ran => inv.step ran) inv_start
  refine ⟨fun c => ⟨(inv.cpu c).count, fun pos => (inv.cpu c).off ?_⟩, ?_⟩
  · rw [(inv.cpu c).count] at pos
    exact length_pos_iff.mp (Int.natCast_pos.mp pos)
  · rintro c a (rfl | ⟨l, rfl⟩) ok <;> have mem := of_decide_eq_true ok <;>
      obtain ⟨cpu, ran, -, -, back⟩ := (inv.cpu c).pop mem
    · refine ⟨s.setCpu c cpu, by simp [next, ran, Except.map], fun p here => ?_⟩
      simpa [State.setCpu, thread_inr_iff.mpr here] using back
    · refine ⟨{ s.setCpu c cpu with lock := update s.lock l none },
        by simp [next, ran, Except.map, inv.holding mem], fun p here => ?_⟩
      simpa [State.setCpu, thread_inr_iff.mpr here] using back

/-- A process that yields on one CPU and goes on on another. -/
def moved : List (Act Bool Unit Unit) :=
  [.alloc (), .intr false true, .acquire false (.proc ()), .dispatch false (), .release false (.proc ()),
    .acquire false (.proc ()), .setState false false, .sched false, .release false (.proc ()),
    .acquire true (.proc ()), .dispatch true ()]

theorem interrupts_nest_moved : ∃ s g, Run (fun x a y => step x a = some y) start moved (s, g) ∧
    ∃ t, next s (.release true (.proc ())) = some (.ok t) ∧
      ((t.cpu true).noff = 0 → (t.cpu true).intr = g.outer (.inr ())) := by
  have done : (exec step start moved).any (fun x => (x.1.cpu true).proc = some () ∧
    matched x.2 (.release true (.proc ()))) = true := by decide
  obtain ⟨⟨s, g⟩, ran, facts⟩ := (Option.any_eq_true _ _).mp done
  obtain ⟨here, ok⟩ := of_decide_eq_true facts
  have run := run_of_exec step ran
  obtain ⟨t, went, back⟩ := (interrupts_nest run).2 true _ (.inr ⟨_, rfl⟩) ok
  exact ⟨s, g, run, t, went, back () here⟩

/-- In every such run a CPU that holds a lock has interrupts off, so that no handler on it can wait for the lock;
and `sched` finds the process in order just if its own lock is all that it has taken and it has left the state
`RUNNING`. -/
theorem sched_with_own_lock {C P L : Type} [DecidableEq C] [DecidableEq P] [DecidableEq L] {as : List (Act C P L)}
    {s : State C P L} {g : Calls C P L} (run : Run (fun x a y => step x a = some y) start as (s, g)) :
    (∀ c l, s.lock l = some c → (s.cpu c).intr = false) ∧
      ∀ c p, (s.cpu c).proc = some p → ((∃ t, next s (.sched c) = some (.ok t)) ↔
        g.force c = [some (.proc p)] ∧ s.state p = false) := by
  have inv : Inv s g := run.invariant (fun x : State C P L × Calls C P L => Inv x.1 x.2)
    (fun _ _ _ inv ran => inv.step ran) inv_start
  have mem : ∀ c l, s.lock l = some c → some l ∈ g.force c := by
    intro c l held
    rw [← count_pos_iff, inv.held, if_pos held]
    decide
  refine ⟨fun c l held => (inv.cpu c).off (ne_nil_of_mem (mem c l held)), fun c p here => ?_⟩
  simp only [next, here]
  constructor
  · rintro ⟨t, went⟩
    split_ifs at went with lock one running intr <;> cases went
    obtain ⟨x, only⟩ := length_eq_one_iff.mp (Int.ofNat_inj.mp ((inv.cpu c).count.symm.trans (not_not.mp one)))
    have own := mem c _ (not_not.mp lock)
    rw [only, mem_singleton] at own
    exact ⟨by rw [only, own], by simpa using running⟩
  · rintro ⟨only, left⟩
    have own : s.lock (.proc p) = some c := inv.holding (by simp [only])
    simp [own, left, (inv.cpu c).count, (inv.cpu c).off, only]

theorem sched_with_own_lock_moved : ∃ s g,
    Run (fun x a y => step x a = some y) start (moved ++ [.setState true false]) (s, g) ∧
    ∃ t, next s (.sched true) = some (.ok t) := by
  have done : (exec step start (moved ++ [.setState true false])).any (fun x => (x.1.cpu true).proc = some () ∧
      x.2.force true = [some (.proc ())] ∧ x.1.state () = false) = true := by decide
  obtain ⟨⟨s, g⟩, ran, facts⟩ := (Option.any_eq_true _ _).mp done
  obtain ⟨here, only⟩ := of_decide_eq_true facts
  exact ⟨s, g, run_of_exec step ran, ((sched_with_own_lock (run_of_exec step ran)).2 true () here).mpr only⟩

end Xv6.Intr
