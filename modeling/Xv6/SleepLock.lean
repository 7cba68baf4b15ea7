import Xv6.Runs

/-! A sleep lock of `kernel/sleeplock.c` and the processes `P` that use it. A step is a critical section of
`lk->lk`. `releasesleep` does not test who calls it; here it is the holder. -/

namespace Xv6.SleepLock

open Runs Function

inductive Place
  | out
  | asleep
  | woken
  | inside
  deriving DecidableEq

structure State (P : Type) where
  locked : Bool
  pid : Int32
  place : P → Place

def initsleeplock (P : Type) : State P := ⟨false, 0, fun _ => .out⟩

def wake (x : Place) : Place := if x = .asleep then .woken else x

inductive Act (P : Type)
  | acquiresleep (p : P)
  | releasesleep (p : P)
  | kill (p : P)

variable {P : Type} (pid : P → Int32) (s : State P)

def holdingsleep (p : P) : Bool := s.locked && s.pid == pid p

def next [DecidableEq P] : Act P → Option (State P)
  | .acquiresleep p =>
    if s.place p = .out ∨ s.place p = .woken then
      if s.locked then some { s with place := update s.place p .asleep }
      else some ⟨true, pid p, update s.place p .inside⟩
    else none
  | .releasesleep p =>
    if s.place p = .inside then some ⟨false, 0, fun q => wake (update s.place p .out q)⟩ else none
  | .kill p => some { s with place := update s.place p (wake (s.place p)) }

structure Inv : Prop where
  inside : ∀ p, s.place p = .inside ↔ holdingsleep pid s p
  asleep : ∀ p, s.place p = .asleep → s.locked

lemma Inv.step [DecidableEq P] (inj : Injective pid) (inv : Inv pid s) (hs : next pid s a = some t) : Inv pid t := by
  have only : ∀ p q, pid p = pid q → p = q := inj
  obtain ⟨inside, asleep⟩ := inv
  cases a with
  | acquiresleep p =>
    simp only [next] at hs
    split_ifs at hs <;> cases hs
    -- where the lock is free, nobody is inside
    all_goals constructor <;> grind [holdingsleep]
  | releasesleep p =>
    simp only [next] at hs
    split_ifs at hs
    cases hs
    constructor <;> grind [holdingsleep, wake]
  | kill p =>
    cases hs
    constructor <;> grind [holdingsleep, wake]

/-- Among processes with distinct pids: one at a time is inside, `holdingsleep` tells which, and nobody sleeps
on a free lock. -/
theorem sleeplock_excludes {P : Type} [DecidableEq P] {pid : P → Int32} (inj : Injective pid) {as : List (Act P)}
    {t : State P} (run : Run (fun s a t => next pid s a = some t) (initsleeplock P) as t) :
    Inv pid t ∧ ∀ p q, t.place p = .inside → t.place q = .inside → p = q := by
  have inv : Inv pid t := by
    refine run.invariant (Inv pid) (fun s _ _ inv => inv.step pid s inj) ⟨?_, nofun⟩
    simp [initsleeplock, holdingsleep]
  refine ⟨inv, fun p q hp hq => inj ?_⟩
  simp_all [inv.inside, holdingsleep]

theorem sleeplock_excludes_handed : ∃ t, holdingsleep id t 2 ∧ t.place 1 = .out := by
  have run : ∃ t, Run (fun s a t => next id s a = some t) (initsleeplock _)
      [.acquiresleep 1, .acquiresleep 2, .releasesleep 1, .acquiresleep 2] t ∧ t.place 2 = .inside ∧ t.place 1 = .out :=
    ⟨_, .cons rfl (.cons rfl (.cons rfl (.cons rfl (.nil _)))), rfl, rfl⟩
  obtain ⟨t, run, here, out⟩ := run
  exact ⟨t, ((sleeplock_excludes injective_id run).1.inside 2).mp here, out⟩

end Xv6.SleepLock
