import Mathlib.Data.List.FinRange
import Mathlib.Tactic.Linarith
import Xv6.Params
import Xv6.Runs

/-! The metric tables of `kernel/proc.c` and the six system calls on them. The kernel's data is a
memory of 32-bit words with the three tables and the process table in it; `overheads[index]` is
the word `index` places after the first of its table, for any `int`. Every access to a table is
noted with its index. -/

namespace Xv6.Metrics

open Params Runs Function

inductive Table
  | overheads | eficiencias | justicas
  deriving DecidableEq, Repr

/-- `int overheads[20]`, and so on. -/
def tableSize : Nat := 20

/-- `MODE_OVERHEAD` and `MODE_EFICIENCIA` of `kernel/fcntl.h`. -/
def modeOverhead : Int32 := 8
def modeEficiencia : Int32 := 10

/-- Where the linker puts the tables and the fields `pid` and `tempo_total` of
the process table: the words of one table are words of nothing else. -/
structure Layout where
  base : Table → Int
  pid : Fin nproc → Int
  tempoTotal : Fin nproc → Int
  apart : ∀ t u, ∀ i j : Int, 0 ≤ i → i < tableSize → 0 ≤ j → j < tableSize →
    base t + i = base u + j → t = u
  pid_outside : ∀ t, ∀ i : Int, ∀ p, 0 ≤ i → i < tableSize → base t + i ≠ pid p
  tempoTotal_outside : ∀ t, ∀ i : Int, ∀ p, 0 ≤ i → i < tableSize → base t + i ≠ tempoTotal p

structure State where
  mem : Int → Int32
  accesses : List (Table × Int)

abbrev M := StateM State

/-- `argint`: the low 32 bits of the register, as an `int`. -/
def argint (a : UInt64) : Int32 := a.toUInt32.toInt32

section
variable (l : Layout)

def load (t : Table) (index : Int32) : M Int32 := fun s =>
  (s.mem (l.base t + index.toInt), { s with accesses := s.accesses ++ [(t, index.toInt)] })

def store (t : Table) (index : Int32) (v : Int32) : M Unit := fun s =>
  ((), { mem := Function.update s.mem (l.base t + index.toInt) v
         accesses := s.accesses ++ [(t, index.toInt)] })

def sysGetOverhead (a0 : UInt64) : M Int32 := load l .overheads (argint a0)

def sysGetEficiencia (a0 : UInt64) : M Int32 := load l .eficiencias (argint a0)

def sysGetJustica (a0 : UInt64) : M Int32 := load l .justicas (argint a0)

def sysIncrementMetric (a0 a1 a2 : UInt64) : M Int32 := do
  let index := argint a0
  let amount := argint a1
  let mode := argint a2
  if mode = modeOverhead then
    store l .overheads index ((← load l .overheads index) + amount)
    return 0
  else if mode = modeEficiencia then
    store l .eficiencias index ((← load l .eficiencias index) + amount)
    return 0
  else return -1

def clearFrom (k : Nat) : Nat → M Unit
  | 0 => pure ()
  | m + 1 => do
    store l .overheads (Int32.ofNat k) 0
    store l .eficiencias (Int32.ofNat k) 0
    store l .justicas (Int32.ofNat k) 0
    clearFrom (k + 1) m

def sysInitializeMetrics : M Int32 := do
  clearFrom l 0 tableSize
  return 0

def findPid (mem : Int → Int32) (pid : Int32) : Option (Fin nproc) :=
  (List.finRange nproc).find? fun p => mem (l.pid p) = pid

def sysSetJustica (a0 a1 : UInt64) : M Int32 := do
  let index := argint a0
  let pid := argint a1
  match findPid l (← get).mem pid with
  | some p =>
    store l .justicas index ((← get).mem (l.tempoTotal p))
    return 0
  | none => return -1

end

inductive Call
  | getOverhead (a0 : UInt64)
  | getEficiencia (a0 : UInt64)
  | getJustica (a0 : UInt64)
  | incrementMetric (a0 a1 a2 : UInt64)
  | initializeMetrics
  | setJustica (a0 a1 : UInt64)

def perform (l : Layout) : Call → M Int32
  | .getOverhead a0 => sysGetOverhead l a0
  | .getEficiencia a0 => sysGetEficiencia l a0
  | .getJustica a0 => sysGetJustica l a0
  | .incrementMetric a0 a1 a2 => sysIncrementMetric l a0 a1 a2
  | .initializeMetrics => sysInitializeMetrics l
  | .setJustica a0 a1 => sysSetJustica l a0 a1

def Step (l : Layout) (s : State) (c : Call × Int32) (t : State) : Prop := perform l c.1 s = (c.2, t)

section

def Inside (index : Int32) : Prop := 0 ≤ index.toInt ∧ index.toInt < tableSize

instance (index : Int32) : Decidable (Inside index) := inferInstanceAs (Decidable (_ ∧ _))

/-- The index that a call takes from its register, if it takes one, is that of
an entry. -/
def InRange (_ : State) (c : Call × Int32) : Prop :=
  match c.1 with
  | .getOverhead a0 | .getEficiencia a0 | .getJustica a0 | .incrementMetric a0 _ _
  | .setJustica a0 _ => Inside (argint a0)
  | .initializeMetrics => True

variable (l : Layout)

def entry (t : Table) (index : Int32) : Option Int :=
  if Inside index then some (l.base t + index.toInt) else none

def modeTable (mode : Int32) : Option Table :=
  if mode = modeOverhead then some .overheads
  else if mode = modeEficiencia then some .eficiencias
  else none

/-- What the calls are for: they read or change an entry of a table, and no
other word of the kernel. -/
def Effect (s : State) (c : Call × Int32) (t : State) : Prop :=
  match c.1 with
  | .getOverhead a0 =>
    t.mem = s.mem ∧ ∃ w, entry l .overheads (argint a0) = some w ∧ c.2 = s.mem w
  | .getEficiencia a0 =>
    t.mem = s.mem ∧ ∃ w, entry l .eficiencias (argint a0) = some w ∧ c.2 = s.mem w
  | .getJustica a0 =>
    t.mem = s.mem ∧ ∃ w, entry l .justicas (argint a0) = some w ∧ c.2 = s.mem w
  | .incrementMetric a0 a1 a2 =>
    match modeTable (argint a2) with
    | some table => ∃ w, entry l table (argint a0) = some w ∧
        t.mem = Function.update s.mem w (s.mem w + argint a1) ∧ c.2 = 0
    | none => t.mem = s.mem ∧ c.2 = -1
  | .initializeMetrics =>
    (∀ table index w, entry l table index = some w → t.mem w = 0) ∧
    (∀ w, (∀ table index, entry l table index ≠ some w) → t.mem w = s.mem w) ∧ c.2 = 0
  | .setJustica a0 a1 =>
    match findPid l s.mem (argint a1) with
    | some p => ∃ w, entry l .justicas (argint a0) = some w ∧
        t.mem = Function.update s.mem w (s.mem (l.tempoTotal p)) ∧ c.2 = 0
    | none => t.mem = s.mem ∧ c.2 = -1

def target : Call → Option (Table × Int32)
  | .incrementMetric a0 _ a2 => (modeTable (argint a2)).map fun table => (table, argint a0)
  | .setJustica a0 _ => some (.justicas, argint a0)
  | _ => none

/-- The process table is as before, and unless the call was to clear the tables, so
is every entry but its own. -/
def Frame (s : State) (c : Call × Int32) (t : State) : Prop :=
  (∀ p, t.mem (l.pid p) = s.mem (l.pid p) ∧ t.mem (l.tempoTotal p) = s.mem (l.tempoTotal p)) ∧
  (c.1 ≠ .initializeMetrics → ∀ table index w, entry l table index = some w →
    target c.1 ≠ some (table, index) → t.mem w = s.mem w)

def AllInside (s : State) : Prop := ∀ a ∈ s.accesses, 0 ≤ a.2 ∧ a.2 < tableSize

end

variable {l : Layout} {s t : State}

lemma entry_of_inside (h : Inside index) : entry l table index = some (l.base table + index.toInt) := if_pos h

lemma entry_inv (h : entry l table index = some w) : Inside index ∧ w = l.base table + index.toInt := by
  unfold entry at h
  split at h <;> try contradiction
  exact ⟨‹_›, (Option.some.inj h).symm⟩

lemma AllInside.snoc (h : AllInside s) (inside : Inside index) (table : Table)
    (mem) : AllInside ⟨mem, s.accesses ++ [(table, index.toInt)]⟩ := by
  intro a ha
  rcases List.mem_append.mp ha with old | new
  · exact h a old
  · obtain rfl := List.mem_singleton.mp new
    exact inside

lemma inside_ofNat (hk : k < tableSize) : (Int32.ofNat k).toInt = k := by
  unfold tableSize at hk
  exact Int32.toInt_ofNat_of_lt (by omega)

def Cleared (l : Layout) (k m : Nat) (w : Int) : Prop :=
  ∃ table, ∃ i : Nat, k ≤ i ∧ i < k + m ∧ w = l.base table + i

lemma clearFrom_mem (inside : k + m ≤ tableSize) (all : AllInside s) :
    (∀ w, Cleared l k m w → (clearFrom l k m s).2.mem w = 0) ∧
    (∀ w, ¬ Cleared l k m w → (clearFrom l k m s).2.mem w = s.mem w) ∧
    AllInside (clearFrom l k m s).2 := by
  induction m generalizing k s with
  | zero =>
    refine ⟨?_, fun _ _ => rfl, all⟩
    rintro w ⟨_, i, low, high, _⟩
    omega
  | succ m ih =>
    have index : (Int32.ofNat k).toInt = k := inside_ofNat (by omega)
    have small : Inside (Int32.ofNat k) := by
      rw [Inside, index]
      omega
    -- the state after the three stores of round `k`
    obtain ⟨u, hu⟩ : ∃ u, u = (store l .justicas (Int32.ofNat k) 0 (store l .eficiencias (Int32.ofNat k) 0
      (store l .overheads (Int32.ofNat k) 0 s).2).2).2 := ⟨_, rfl⟩
    have first : clearFrom l k (m + 1) s = clearFrom l (k + 1) m u := by
      rw [hu]
      rfl
    have allu : AllInside u := by
      rw [hu]
      exact ((all.snoc small _ _).snoc small _ _).snoc small _ _
    have cleared : ∀ table, u.mem (l.base table + (k : Int)) = 0 := by
      intro table
      cases table <;> simp [hu, store, index, update_apply]
    have others : ∀ w, (∀ table, w ≠ l.base table + (k : Int)) → u.mem w = s.mem w := by
      intro w other
      simp [hu, store, index, other]
    obtain ⟨zero, same, inside'⟩ := ih (k := k + 1) (by omega) allu
    rw [first]
    refine ⟨?_, ?_, inside'⟩
    · rintro w ⟨table, i, low, high, rfl⟩
      by_cases later : Cleared l (k + 1) m (l.base table + i)
      · exact zero _ later
      · rw [same _ later]
        rcases Nat.eq_or_lt_of_le low with rfl | more
        · exact cleared table
        · exact absurd ⟨table, i, more, by omega, rfl⟩ later
    · intro w out
      have late : ¬ Cleared l (k + 1) m w := fun ⟨table, i, low, high, e⟩ => out ⟨table, i, by omega, by omega, e⟩
      rw [same w late]
      exact others w fun table e => out ⟨table, k, le_rfl, by omega, e⟩

lemma cleared_iff : Cleared l 0 tableSize w ↔ ∃ table index, entry l table index = some w := by
  constructor
  · rintro ⟨table, i, -, high, rfl⟩
    have index : (Int32.ofNat i).toInt = i := inside_ofNat (by omega)
    refine ⟨table, Int32.ofNat i, ?_⟩
    rw [entry_of_inside (by rw [Inside, index]; omega), index]
  · rintro ⟨table, index, h⟩
    obtain ⟨⟨low, high⟩, rfl⟩ := entry_inv h
    exact ⟨table, index.toInt.toNat, by omega, by omega, by omega⟩

lemma clearFrom_return (m) : (do clearFrom l 0 m; return 0 : M Int32) s = (0, (clearFrom l 0 m s).2) := rfl

lemma initializeMetrics_effect (all : AllInside s) (h : sysInitializeMetrics l s = (r, t)) :
    Effect l s (.initializeMetrics, r) t ∧ AllInside t := by
  rw [sysInitializeMetrics, clearFrom_return] at h
  cases h
  obtain ⟨zero, same, inside⟩ := clearFrom_mem (k := 0) (m := tableSize) (by omega) all
  refine ⟨⟨fun table index w he => ?_, fun w out => ?_, rfl⟩, inside⟩
  · exact zero w (cleared_iff.mpr ⟨table, index, he⟩)
  · refine same w fun cleared => ?_
    obtain ⟨table, index, he⟩ := cleared_iff.mp cleared
    exact out table index he

lemma incrementMetric_effect (inside : Inside (argint a0)) (all : AllInside s)
    (h : sysIncrementMetric l a0 a1 a2 s = (r, t)) :
    Effect l s (.incrementMetric a0 a1 a2, r) t ∧ AllInside t := by
  have added (table : Table) (mem : Int → Int32) :
    AllInside ⟨mem, s.accesses ++ [(table, (argint a0).toInt)] ++ [(table, (argint a0).toInt)]⟩ :=
    (all.snoc inside table s.mem).snoc inside table mem
  unfold sysIncrementMetric at h
  unfold Effect modeTable
  dsimp only at h ⊢
  split_ifs at h ⊢ with overhead eficiencia
  · cases h
    exact ⟨⟨_, entry_of_inside inside, rfl, rfl⟩, added _ _⟩
  · cases h
    exact ⟨⟨_, entry_of_inside inside, rfl, rfl⟩, added _ _⟩
  · cases h
    exact ⟨⟨rfl, rfl⟩, all⟩

lemma setJustica_eq (l : Layout) (a0 a1 s) : sysSetJustica l a0 a1 s = match findPid l s.mem (argint a1) with
    | some p => (0, (store l .justicas (argint a0) (s.mem (l.tempoTotal p)) s).2)
    | none => (-1, s) := by
  unfold sysSetJustica
  dsimp only [bind, StateT.bind, get, getThe, MonadStateOf.get, StateT.get, pure]
  cases findPid l s.mem (argint a1) <;> rfl

lemma setJustica_effect (inside : Inside (argint a0)) (all : AllInside s) (h : sysSetJustica l a0 a1 s = (r, t)) :
    Effect l s (.setJustica a0 a1, r) t ∧ AllInside t := by
  rw [setJustica_eq] at h
  unfold Effect
  dsimp only
  cases found : findPid l s.mem (argint a1) with
  | none =>
    rw [found] at h
    cases h
    exact ⟨⟨rfl, rfl⟩, all⟩
  | some p =>
    rw [found] at h
    cases h
    exact ⟨⟨_, entry_of_inside inside, rfl, rfl⟩, all.snoc inside _ _⟩

lemma load_effect (inside : Inside index) (all : AllInside s) (h : load l table index s = (r, t)) :
    (t.mem = s.mem ∧ ∃ w, entry l table index = some w ∧ r = s.mem w) ∧ AllInside t := by
  cases h
  exact ⟨⟨rfl, _, entry_of_inside inside, rfl⟩, all.snoc inside _ _⟩

lemma step_effect (all : AllInside s) (hs : Step l s c t) (range : InRange s c) : Effect l s c t ∧ AllInside t := by
  obtain ⟨call, r⟩ := c
  cases call with
  | getOverhead a0 => exact load_effect range all hs
  | getEficiencia a0 => exact load_effect range all hs
  | getJustica a0 => exact load_effect range all hs
  | incrementMetric a0 a1 a2 => exact incrementMetric_effect range all hs
  | initializeMetrics => exact initializeMetrics_effect all hs
  | setJustica a0 a1 => exact setJustica_effect range all hs

section
variable (h : entry l table index = some w)
include h

lemma entry_injective (h' : entry l table' index' = some w) : table = table' ∧ index = index' := by
  obtain ⟨⟨low, high⟩, rfl⟩ := entry_inv h
  obtain ⟨⟨low', high'⟩, same⟩ := entry_inv h'
  obtain rfl := l.apart _ _ _ _ low high low' high' same
  exact ⟨rfl, Int32.toInt_inj.mp (by omega)⟩

lemma entry_ne_pid (p) : l.pid p ≠ w := by
  obtain ⟨⟨low, high⟩, rfl⟩ := entry_inv h
  exact (l.pid_outside _ _ p low high).symm

lemma entry_ne_tempoTotal (p) : l.tempoTotal p ≠ w := by
  obtain ⟨⟨low, high⟩, rfl⟩ := entry_inv h
  exact (l.tempoTotal_outside _ _ p low high).symm

end

lemma frame_of_same (same : t.mem = s.mem) : Frame l s c t := by
  refine ⟨fun p => ?_, fun _ table index w _ _ => ?_⟩ <;> simp only [same, and_self]

lemma frame_of_update (he : entry l table index = some w) (hc : target c.1 = some (table, index))
    (ht : t.mem = update s.mem w v) : Frame l s c t := by
  refine ⟨fun p => ?_, fun _ table' index' w' he' other => ?_⟩
  · rw [ht, update_of_ne (entry_ne_pid he p), update_of_ne (entry_ne_tempoTotal he p)]
    exact ⟨rfl, rfl⟩
  · rw [ht, update_of_ne]
    rintro rfl
    obtain ⟨rfl, rfl⟩ := entry_injective he he'
    exact other hc

lemma frame_of_effect (h : Effect l s c t) : Frame l s c t := by
  obtain ⟨call, r⟩ := c
  cases call with
  | getOverhead a0 => exact frame_of_same h.1
  | getEficiencia a0 => exact frame_of_same h.1
  | getJustica a0 => exact frame_of_same h.1
  | incrementMetric a0 a1 a2 =>
    unfold Effect at h
    dsimp only at h
    split at h
    · rename_i table found
      obtain ⟨w, he, ht, -⟩ := h
      exact frame_of_update he (by simp only [target, found, Option.map_some]) ht
    · exact frame_of_same h.1
  | initializeMetrics =>
    refine ⟨fun p => ⟨?_, ?_⟩, fun other => absurd rfl other⟩
    · exact h.2.1 _ fun table index he => entry_ne_pid he p rfl
    · exact h.2.1 _ fun table index he => entry_ne_tempoTotal he p rfl
  | setJustica a0 a1 =>
    unfold Effect at h
    dsimp only at h
    split at h
    · obtain ⟨w, he, ht, -⟩ := h
      exact frame_of_update he rfl ht
    · exact frame_of_same h.1

/-- While the indices in the registers are those of entries, every access is to an
entry, and every call has its effect and no other. -/
theorem metrics_stay_inside (l : Layout) {mem : Int → Int32} {cs : List (Call × Int32)} {t : State}
    (run : Run (Meets (Step l) InRange) ⟨mem, []⟩ cs t) :
    AllInside t ∧ ∀ c u, Meets (Step l) InRange t c u → Effect l t c u ∧ Frame l t c u := by
  have all : AllInside t :=
    run.invariant AllInside (fun _ _ _ all hs => (step_effect all hs.1 hs.2).2) (by simp [AllInside])
  refine ⟨all, fun c u hs => ?_⟩
  have effect := (step_effect all hs.1 hs.2).1
  exact ⟨effect, frame_of_effect effect⟩

/-- The tables of `proc.c` one after the other, and after them the processes. -/
def adjacent : Layout where
  base
    | .overheads => 0
    | .eficiencias => 20
    | .justicas => 40
  pid p := 72 + 94 * p.val
  tempoTotal p := 150 + 94 * p.val
  apart t u i j := by
    cases t <;> cases u <;> simp [tableSize] <;> omega
  pid_outside t i p := by
    cases t <;> simp only [tableSize] <;> omega
  tempoTotal_outside t i p := by
    cases t <;> simp only [tableSize] <;> omega

theorem metrics_stay_inside_increment : Effect adjacent ⟨fun _ => 0, []⟩ (.incrementMetric 3 5 8, 0)
    ⟨Function.update (fun _ => 0) 3 5, [(.overheads, 3), (.overheads, 3)]⟩ := by
  have inside : Inside (argint 3) := by decide
  exact ((metrics_stay_inside adjacent (.nil (State.mk (fun _ => 0) []))).2
    (.incrementMetric 3 5 8, 0) _ ⟨rfl, inside⟩).1

/-- Index `20` of `overheads` is the first entry of the next table, and index `72`
the pid of the first process. -/
theorem increment_leaves_table :
    ∃ t, Run (Step adjacent) ⟨fun _ => 0, []⟩ [(.incrementMetric 20 1 8, 0), (.incrementMetric 72 7 8, 0)] t ∧
      (.overheads, 20) ∈ t.accesses ∧ t.mem (adjacent.base .eficiencias) = 1 ∧
      t.mem (adjacent.pid 0) = 7 := by
  refine ⟨_, .cons rfl (.cons rfl (.nil _)), ?_, ?_, ?_⟩ <;> decide

end Xv6.Metrics
