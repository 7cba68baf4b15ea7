import Xv6.FamilyMachine
import Xv6.SleepWake

/-! Every process has a living parent. `wait_lock` is held wherever a parent is
changed or a process becomes a zombie, and an exiting process has handed on all its
children by then. -/

namespace Xv6.FamilyTree

open FamilyMachine
open SleepMachine.State (setProc setPc setLocked setHolder setIntr)
open SleepMachine (Agent Pc Free Awake Enabled effect)
open SleepMachine (freeproc)

variable {n k L : Nat} {K : Kernel n L} {s t : FamilyMachine.State n k L}

@[grind]
def Live (s : FamilyMachine.State n k L) (p : Fin n) : Prop :=
  (s.proc p).state = .sleeping ∨ (s.proc p).state = .runnable ∨ (s.proc p).state = .running

@[grind]
def wakes : Prog n → Bool
  | .idle | .exitReparented .. | .exitWakeup _ => true
  | _ => false

/-- Which places of `fork`, `exit` and `wait` go with a place in the machine below. -/
@[grind]
def Fits (K : Kernel n L) (prog : Prog n) : Pc L → Prop
  | .out => prog ≠ .exited
  | .sleepLocked _ l | .sleepReleased _ l | .sleeping l | .sleepTidied l | .sleepReacquire l =>
    prog = if l = K.waitLock then .waitAsleep else .idle
  | .exitLocked l => l = K.waitLock ∧ prog = .exited
  | .exitReleased => prog = .exited
  | .wakeup .. => wakes prog = true
  | .kill .. => prog = .idle

@[grind]
def locks : Prog n → Bool
  | .idle | .forkChild _ | .forkReady _ | .exited => false
  | _ => true

@[grind]
def holding (K : Kernel n L) (prog : Prog n) : Pc L → Bool
  | .out | .wakeup .. => locks prog
  | .sleepLocked _ l | .exitLocked l => l = K.waitLock
  | _ => false

structure Places (K : Kernel n L) (s : FamilyMachine.State n k L) : Prop where
  fits : ∀ p, Fits K (s.data.prog p) (s.pc (.thread p))
  held : ∀ p, holding K (s.data.prog p) (s.pc (.thread p)) = true ↔
    s.holder K.waitLock = some (.thread p)
  live : ∀ p, s.data.prog p ≠ .idle → s.data.prog p ≠ .exited → Live s p

lemma Places.other (h : Places K s) (ok : Allowed K s a) (hs : SleepMachine.Step s a t) : Places K t := by
  obtain ⟨en, rfl⟩ := hs
  constructor
  case' fits => intro p; have before := h.fits p
  case' held => intro p; have before := h.held; have fits := h.fits
  case' live => intro p; have before := h.live p
  all_goals
    cases a <;> simp only [Enabled, effect, Allowed, Outside] at en ok ⊢
    all_goals try split
    all_goals
      try simp only [setProc, setPc, setLocked, setHolder, setIntr, Function.update_apply, Agent.thread.injEq]
    all_goals grind

lemma Places.holder_ne_of_unused (h : Places K s) (shape : SleepWake.Shape s) (p)
    (free : s.locked p = false) (unused : (s.proc p).state = .unused) :
    s.holder K.waitLock ≠ some (.thread p) := by
  intro held
  have holds := (h.held p).mpr held
  have locked := shape.locked p
  have busy : locks (s.data.prog p) = true → Live s p := by
    intro at_
    refine h.live p ?_ ?_ <;> (intro e; simp [e, locks] at at_)
  cases hpc : s.pc (.thread p) <;> rw [hpc] at holds locked <;> grind

lemma Places.call (h : Places K s) (shape : SleepWake.Shape s) (hs : Step K s (.call c) t) : Places K t := by
  obtain ⟨free, at_, pass, en, rfl⟩ := hs
  have live := h.live
  constructor
  case' fits => intro p; have before := h.fits
  case' held =>
    intro p
    have before := h.held
    have fits := h.fits
    have unheld := h.holder_ne_of_unused shape p
  case' live => intro p; have fits := h.fits
  all_goals
    cases c <;> simp only [Call.caller, Call.place, Passes, innerAct, InnerEnabled, innerEffect,
      callEffect, stores, Call.goal, Family.setProg, Enabled, effect] at free at_ pass en ⊢
    all_goals
      simp only [setProc, setPc, setLocked, setHolder, Function.update_apply, Agent.thread.injEq]
    all_goals grind

lemma Places.step (h : Places K s) (shape : SleepWake.Shape s) (hs : Step K s a t) : Places K t := by
  cases a with
  | other a => exact h.other hs.1 hs.2
  | call c => exact h.call shape hs

section

@[grind]
def child : Prog n → Option (Fin n)
  | .forkChild np | .forkLocked np | .forkParent np | .forkReady np => some np
  | _ => none

@[grind]
def childSet : Prog n → Option (Fin n)
  | .forkParent np | .forkReady np => some np
  | _ => none

@[grind]
def exiting : Prog n → Bool
  | .exitReparent .. | .exitReparented .. | .exitWakeup .. => true
  | _ => false

@[grind]
def reparented : Prog n → Nat
  | .exitReparent _ i => i
  | .exitReparented _ i => i + 1
  | .exitWakeup _ => n
  | _ => 0

@[grind]
def HasParent (s : FamilyMachine.State n k L) (q : Fin n) : Prop :=
  match s.data.parent q with
  | some w => Live s w
  | none => False

structure Tree (K : Kernel n L) (s : FamilyMachine.State n k L) : Prop where
  init : Live s K.initproc
  parent : ∀ q, q ≠ K.initproc → (s.proc q).state ≠ .unused → (s.proc q).state ≠ .used →
    HasParent s q
  child : ∀ p np, child (s.data.prog p) = some np → (s.proc np).state = .used
  once : ∀ p p' np, FamilyTree.child (s.data.prog p) = some np →
    FamilyTree.child (s.data.prog p') = some np → p = p'
  childSet : ∀ p np, childSet (s.data.prog p) = some np → s.data.parent np = some p
  exiting : ∀ p, exiting (s.data.prog p) = true → p ≠ K.initproc
  reparented : ∀ p q, q.val < reparented (s.data.prog p) → s.data.parent q ≠ some p

lemma data_other (ok : Allowed K s a) (hs : SleepMachine.Step s a t) : t.data = s.data := by
  obtain ⟨-, rfl⟩ := hs
  cases a <;> first | contradiction | rfl | (simp only [effect]; split <;> rfl)

structure SameKind (s t : FamilyMachine.State n k L) (q : Fin n) : Prop where
  live : Live t q ↔ Live s q
  unused : (t.proc q).state = .unused ↔ (s.proc q).state = .unused
  used : (t.proc q).state = .used ↔ (s.proc q).state = .used
  zombie : (t.proc q).state = .zombie ↔ (s.proc q).state = .zombie

lemma sameKind_other (shape : SleepWake.Shape s)
    (ok : Allowed K s a) (hs : SleepMachine.Step s a t) (q) : SameKind s t q := by
  have alive : (s.pc (.thread q)).inSleep.isSome = true → Live s q := by
    intro inside
    obtain ⟨lk, inside⟩ := Option.isSome_iff_exists.mp inside
    exact shape.alive q lk inside
  obtain ⟨en, rfl⟩ := hs
  constructor
  all_goals
    cases a <;> simp only [Enabled, effect, Allowed] at en ok ⊢
    all_goals try split
    all_goals
      try simp only [Live, setProc, setPc, setLocked, setHolder, setIntr, Function.update_apply]
    all_goals grind

lemma prog_call (hs : Step K s (.call c) t) (p) : (p = c.caller ∧ s.data.prog p = c.place ∧ t.data.prog p = c.goal s) ∨
    (∃ q, c = .forkAlloc q p ∧ t.data.prog p = .idle) ∨
    (p ≠ c.caller ∧ t.data.prog p = s.data.prog p) := by
  obtain ⟨free, at_, -, -, rfl⟩ := hs
  rcases eq_or_ne p c.caller with rfl | ne
  · exact .inl ⟨rfl, at_, by simp [callEffect, Family.setProg]⟩
  · cases c
    case forkAlloc q np =>
      rcases eq_or_ne p np with rfl | ne'
      · exact .inr (.inl ⟨q, rfl, by simp [callEffect, Family.setProg, stores, ne]⟩)
      · exact .inr (.inr ⟨ne, by simp [callEffect, Family.setProg, stores, ne, ne']⟩)
    all_goals exact .inr (.inr ⟨ne, by simp [callEffect, Family.setProg, stores, ne]⟩)

lemma state_call (hs : Step K s (.call c) t) (q) : (t.proc q).state = (s.proc q).state ∨
    (∃ p, c = .forkAlloc p q ∧ (s.proc q).state = .unused ∧ (t.proc q).state = .used) ∨
    (∃ p, c = .forkReady p q ∧ (s.proc q).state = .used ∧ (t.proc q).state = .runnable) ∨
    (∃ status, c = .exitZombie q status ∧ (s.proc q).state = .running ∧ (t.proc q).state = .zombie) ∨
    (∃ p havekids copied, c = .waitReap p havekids q copied ∧ (s.proc q).state = .zombie ∧
      (t.proc q).state = .unused) := by
  obtain ⟨free, -, pass, en, rfl⟩ := hs
  cases c
  case forkAlloc p np =>
    rcases eq_or_ne q np with rfl | ne
    · exact .inr (.inl ⟨p, rfl, en.2.2, by simp [callEffect, innerEffect, innerAct, effect]⟩)
    · exact .inl (by simp [callEffect, innerEffect, innerAct, effect, ne])
  case forkFails p np =>
    rcases eq_or_ne q np with rfl | ne
    · have unused := en.2.2
      exact .inl (by simp [callEffect, innerEffect, innerAct, effect, freeproc, unused])
    · exact .inl (by simp [callEffect, innerEffect, innerAct, effect, ne])
  case forkReady p np =>
    rcases eq_or_ne q np with rfl | ne
    · exact .inr (.inr (.inl ⟨p, rfl, en.2.2, by simp [callEffect, innerEffect, innerAct, effect]⟩))
    · exact .inl (by simp [callEffect, innerEffect, innerAct, effect, ne])
  case exitZombie p status =>
    rcases eq_or_ne q p with rfl | ne
    · exact .inr (.inr (.inr (.inl ⟨status, rfl, free.1.1, by simp [callEffect, innerEffect, innerAct, effect]⟩)))
    · exact .inl (by simp [callEffect, innerEffect, innerAct, effect, ne])
  case waitReap p havekids pp copied =>
    rcases eq_or_ne q pp with rfl | ne
    · exact .inr (.inr (.inr (.inr ⟨p, havekids, copied, rfl, en.2.2,
        by simp [callEffect, innerEffect, innerAct, effect, freeproc]⟩)))
    · exact .inl (by simp [callEffect, innerEffect, innerAct, effect, ne])
  all_goals exact .inl rfl

lemma parent_call (hs : Step K s (.call c) t) (q) : t.data.parent q = s.data.parent q ∨
    ((t.proc q).state = .unused ∧ t.data.parent q = none) ∨
    (∃ p, c = .forkSetParent p q ∧ t.data.parent q = some p) ∨
    (∃ p status, c = .reparentChild p status q ∧ s.data.parent q = some p ∧ t.data.parent q = some K.initproc) := by
  obtain ⟨-, -, pass, en, rfl⟩ := hs
  cases c
  case forkFails p np =>
    rcases eq_or_ne q np with rfl | ne
    · exact .inr (.inl ⟨by simp [callEffect, innerEffect, innerAct, effect, freeproc],
        by simp [callEffect, stores, Family.setProg]⟩)
    · exact .inl (by simp [callEffect, stores, Family.setProg, ne])
  case forkSetParent p np =>
    rcases eq_or_ne q np with rfl | ne
    · exact .inr (.inr (.inl ⟨p, rfl, by simp [callEffect, stores, Family.setProg]⟩))
    · exact .inl (by simp [callEffect, stores, Family.setProg, ne])
  case reparentChild p status pp =>
    rcases eq_or_ne q pp with rfl | ne
    · exact .inr (.inr (.inr ⟨p, status, rfl, pass, by simp [callEffect, stores, Family.setProg]⟩))
    · exact .inl (by simp [callEffect, stores, Family.setProg, ne])
  case waitReap p havekids pp copied =>
    rcases eq_or_ne q pp with rfl | ne
    · exact .inr (.inl ⟨by simp [callEffect, innerEffect, innerAct, effect, freeproc],
        by simp [callEffect, stores, Family.setProg]⟩)
    · exact .inl (by simp [callEffect, stores, Family.setProg, ne])
  all_goals exact .inl rfl

lemma Tree.other (h : Tree K s) (shape : SleepWake.Shape s) (ok : Allowed K s a) (hs : SleepMachine.Step s a t) :
    Tree K t := by
  have kind := sameKind_other shape ok hs
  have data := data_other ok hs
  constructor
  case init => exact (kind _).live.mpr h.init
  case parent =>
    intro q ne unused used
    have before := h.parent q ne (mt (kind q).unused.mpr unused) (mt (kind q).used.mpr used)
    unfold HasParent at before ⊢
    rw [data]
    cases hw : s.data.parent q with
    | none => simp [hw] at before
    | some w =>
      simp only [hw] at before
      exact (kind w).live.mpr before
  case child =>
    rw [data]
    exact fun p np hp => (kind np).used.mpr (h.child p np hp)
  all_goals rw [data]
  case once => exact h.once
  case childSet => exact h.childSet
  case exiting => exact h.exiting
  case reparented => exact h.reparented

lemma live_call (hs : Step K s (.call c) t) (live : Live s w) : Live t w ∨ ∃ status, c = .exitZombie w status := by
  unfold Live at live ⊢
  rcases state_call hs w with e | ⟨p, -, e, -⟩ | ⟨p, -, e, -⟩ | ⟨status, e, -⟩ | ⟨p, -, -, -, e, -⟩
  · rw [e]
    exact .inl live
  · simp [e] at live
  · simp [e] at live
  · exact .inr ⟨status, e⟩
  · simp [e] at live

lemma made_call (hs : Step K s (.call c) t) (unused : (t.proc q).state ≠ .unused) (used : (t.proc q).state ≠ .used) :
    (s.proc q).state ≠ .unused ∧ (s.proc q).state ≠ .used ∨ ∃ p, c = .forkReady p q := by
  rcases state_call hs q with e | ⟨p, -, -, e⟩ | ⟨p, e, -⟩ | ⟨status, -, e, -⟩ | ⟨p, -, -, -, -, e⟩
  · rw [e] at unused used
    exact .inl ⟨unused, used⟩
  · exact absurd e used
  · exact .inr ⟨p, e⟩
  · simp [e]
  · exact absurd e unused

lemma child_call (hs : Step K s (.call c) t) (mine : child (t.data.prog p) = some np) :
    child (s.data.prog p) = some np ∨ c = .forkAlloc p np := by
  rcases prog_call hs p with ⟨rfl, at_, e⟩ | ⟨q, -, e⟩ | ⟨-, e⟩
  · rw [e] at mine
    rw [at_]
    cases c <;> simp_all [child, Call.goal, Call.place, Call.caller]
  · simp [e, child] at mine
  · exact .inl (e ▸ mine)

section
variable {c : Call n} (h : Tree K s) (hs : Step K s (.call c) t)
include h hs

lemma Tree.init_call : Live t K.initproc := by
  rcases live_call hs h.init with live | ⟨status, rfl⟩
  · exact live
  · exact absurd rfl (h.exiting _ (congrArg FamilyTree.exiting hs.2.1))

lemma Tree.child_kept (p np) (mine : FamilyTree.child (t.data.prog p) = some np) : (t.proc np).state = .used := by
  rcases child_call hs mine with was | rfl
  · have used := h.child p np was
    rcases state_call hs np with e | ⟨_, _, e, _⟩ | ⟨q, rfl, _⟩ | ⟨_, _, e, _⟩ | ⟨_, _, _, _, e, _⟩
    · rw [e, used]
    · simp [used] at e
    · -- the child is made runnable by the caller itself, which then has none
      obtain rfl : q = p := h.once q p np (congrArg FamilyTree.child hs.2.1) was
      obtain ⟨-, -, -, -, rfl⟩ := hs
      simp [callEffect, Family.setProg, Call.caller, Call.goal, FamilyTree.child] at mine
    · simp [used] at e
    · simp [used] at e
  · obtain ⟨-, -, -, -, rfl⟩ := hs
    simp [callEffect, innerEffect, innerAct, effect]

lemma Tree.once_kept (p p' np) (mine : FamilyTree.child (t.data.prog p) = some np)
    (mine' : FamilyTree.child (t.data.prog p') = some np) : p = p' := by
  have fresh : ∀ q r, c = .forkAlloc q np → FamilyTree.child (s.data.prog r) ≠ some np := by
    rintro q r rfl was
    have unused := hs.2.2.2.1.2.2
    simp [h.child r np was] at unused
  rcases child_call hs mine with was | rfl
  · rcases child_call hs mine' with was' | rfl
    · exact h.once p p' np was was'
    · exact absurd was (fresh p' p rfl)
  · rcases child_call hs mine' with was' | e
    · exact absurd was' (fresh p p' rfl)
    · injection e

lemma Tree.childSet_kept (p np) (mine : FamilyTree.childSet (t.data.prog p) = some np) : t.data.parent np = some p := by
  have used :=
    h.child_kept hs p np (by revert mine; cases t.data.prog p <;> simp [FamilyTree.childSet, FamilyTree.child])
  rcases prog_call hs p with ⟨rfl, at_, e⟩ | ⟨q, -, e⟩ | ⟨other, e⟩
  · rw [e] at mine
    have was := h.childSet c.caller np
    obtain ⟨-, -, -, -, rfl⟩ := hs
    cases c <;> simp_all [FamilyTree.childSet, Call.goal, Call.place, Call.caller, callEffect, stores, Family.setProg]
  · simp [e, FamilyTree.childSet] at mine
  · rw [e] at mine
    have was := h.childSet p np mine
    rcases parent_call hs np with same | ⟨gone, -⟩ | ⟨q, rfl, -⟩ | ⟨q, status, rfl, old, -⟩
    · rw [same, was]
    · simp [used] at gone
    · refine absurd (h.once p q np ?_ (congrArg FamilyTree.child hs.2.1)) other
      revert mine
      cases s.data.prog p <;> simp [FamilyTree.childSet, FamilyTree.child]
    · obtain rfl : p = q := Option.some.inj (was.symm.trans old)
      exact absurd rfl other

lemma Tree.exiting_kept (p) (out : FamilyTree.exiting (t.data.prog p) = true) : p ≠ K.initproc := by
  rcases prog_call hs p with ⟨rfl, at_, e⟩ | ⟨q, -, e⟩ | ⟨-, e⟩
  · rw [e] at out
    have was := h.exiting c.caller
    have pass := hs.2.2.1
    cases c <;> simp_all [FamilyTree.exiting, Call.goal, Call.place, Call.caller, Passes]
  · simp [e, FamilyTree.exiting] at out
  · exact h.exiting p (e ▸ out)

lemma Tree.reparented_kept (p q)
    (passed : q.val < FamilyTree.reparented (t.data.prog p)) : t.data.parent q ≠ some p := by
  have exits : p ≠ K.initproc := by
    refine h.exiting_kept hs p ?_
    revert passed
    cases t.data.prog p <;> simp [FamilyTree.reparented, FamilyTree.exiting]
  rcases prog_call hs p with ⟨rfl, at_, e⟩ | ⟨r, -, e⟩ | ⟨other, e⟩
  · have was := h.reparented c.caller q
    rw [e] at passed
    rw [at_] at was
    obtain ⟨-, -, pass, -, rfl⟩ := hs
    cases c
    case reparentOther p status pp =>
      rcases Nat.lt_succ_iff_lt_or_eq.mp passed with lt | eq
      · exact was lt
      · exact Fin.ext eq ▸ pass
    case reparentChild p status pp =>
      rcases Nat.lt_succ_iff_lt_or_eq.mp passed with lt | eq
      · have ne : q ≠ pp := Fin.ne_of_lt lt
        simpa [callEffect, stores, Family.setProg, ne] using was lt
      · obtain rfl := Fin.ext eq
        simpa [callEffect, stores, Family.setProg] using exits.symm
    case reparentWoken p status i => exact was passed
    case exitWakeup p status => exact was passed
    all_goals exact absurd passed (Nat.not_lt_zero _)
  · simp [e, FamilyTree.reparented] at passed
  · have was := h.reparented p q (e ▸ passed)
    rcases parent_call hs q with same | ⟨-, none_⟩ | ⟨r, rfl, new⟩ | ⟨r, status, rfl, -, new⟩
    · rwa [same]
    · simp [none_]
    · rw [new]
      exact fun e => other (Option.some.inj e).symm
    · rw [new]
      exact fun e => exits (Option.some.inj e).symm

lemma Tree.parent_kept (q)
    (ne : q ≠ K.initproc) (unused : (t.proc q).state ≠ .unused) (used : (t.proc q).state ≠ .used) :
    HasParent t q := by
  unfold HasParent
  rcases made_call hs unused used with ⟨unused', used'⟩ | ⟨p, rfl⟩
  · have before := h.parent q ne unused' used'
    unfold HasParent at before
    cases hw : s.data.parent q with
    | none => simp [hw] at before
    | some w =>
      simp only [hw] at before
      rcases parent_call hs q with same | ⟨gone, -⟩ | ⟨p, rfl, -⟩ | ⟨p, status, rfl, -, new⟩
      · rw [same, hw]
        rcases live_call hs before with live | ⟨status, rfl⟩
        · exact live
        · -- the parent exits, and has handed on all its children
          have at_ : s.data.prog w = .exitWakeup status := hs.2.1
          exact absurd hw (h.reparented w q (by simp [at_, FamilyTree.reparented]))
      · exact absurd gone unused
      · exact absurd (h.child p q (congrArg FamilyTree.child hs.2.1)) used'
      · rw [new]
        exact h.init_call hs
  · have mine : s.data.parent q = some p := h.childSet p q (congrArg FamilyTree.childSet hs.2.1)
    have running : (s.proc p).state = .running := hs.1.1.1
    obtain ⟨-, -, -, en, rfl⟩ := hs
    have was := en.2.2
    have other : p ≠ q := by
      rintro rfl
      simp [was] at running
    simp [callEffect, stores, Family.setProg, mine, Live, innerEffect, innerAct, effect, other, running]

lemma Tree.call : Tree K t where
  init := h.init_call hs
  parent := h.parent_kept hs
  child := h.child_kept hs
  once := h.once_kept hs
  childSet := h.childSet_kept hs
  exiting := h.exiting_kept hs
  reparented := h.reparented_kept hs

end

lemma Tree.step (h : Tree K s) (shape : SleepWake.Shape s) (hs : Step K s a t) : Tree K t := by
  cases a with
  | other a => exact h.other shape hs.1 hs.2
  | call c => exact h.call hs

end

end Xv6.FamilyTree
