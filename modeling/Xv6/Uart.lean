import Xv6.Runs
import Xv6.Window

/-! The transmit queue of `kernel/uart.c`, used by processes `P`. A step is one critical section of
`uart_tx_lock`; `k` counts the reads of `LSR` that find the transmitter idle. `uartputc_sync`, which writes to
`THR` beside the queue, is left out. -/

namespace Xv6.Uart

open Runs List Window Function

def txBufSize : Nat := 32

instance : NeZero txBufSize := ⟨by decide⟩

structure State (P : Type) where
  buf : Fin txBufSize → UInt8
  w : UInt64
  r : UInt64
  /-- What `uartstart` has written to `THR`. -/
  sent : List UInt8
  /-- The byte of a process that sleeps on `&uart_tx_r`, or has been woken there. -/
  place : P → Option (UInt8 × Bool)

def slot (x : UInt64) : Fin txBufSize := Fin.ofNat txBufSize x.toNat

def wake (place : Option (UInt8 × Bool)) : Option (UInt8 × Bool) := place.map fun x => (x.1, false)

def uartstart {P : Type} : Nat → State P → State P
  | 0, s => s
  | k + 1, s =>
    if s.w = s.r then s
    else
      uartstart k { s with
        r := s.r + 1
        sent := s.sent ++ [s.buf (slot s.r)]
        place := fun p => wake (s.place p) }

inductive Act (P : Type)
  | putc (p : P) (c : UInt8) (k : Nat)
  | resume (p : P) (k : Nat)
  | intr (k : Nat)
  | kill (p : P)

variable {P : Type} [DecidableEq P]

/-- With the byte that goes into the queue, if it does. -/
def uartputc (s : State P) (p : P) (c : UInt8) (k : Nat) : State P × Option UInt8 :=
  if s.w = s.r + UInt64.ofNat txBufSize then ({ s with place := update s.place p (some (c, true)) }, none)
  else
    (uartstart k { s with
      buf := update s.buf (slot s.w) c
      w := s.w + 1
      place := update s.place p none }, some c)

def next (s : State P) : Act P → Option (State P × Option UInt8)
  | .putc p c k => if s.place p = none then some (uartputc s p c k) else none
  | .resume p k =>
    match s.place p with
    | some (c, false) => some (uartputc s p c k)
    | _ => none
  | .intr k => some (uartstart k s, none)
  | .kill p => some ({ s with place := update s.place p (wake (s.place p)) }, none)

def Step (s : State P) (a : Act P × Option UInt8) (t : State P) : Prop := next s a.1 = some (t, a.2)

def start (P : Type) (buf : Fin txBufSize → UInt8) : State P := ⟨buf, 0, 0, [], fun _ => none⟩

/-- What `p` has called `uartputc` with. -/
def called (p : P) (as : List (Act P × Option UInt8)) : List UInt8 :=
  as.flatMap fun a => match a.1 with
    | .putc q c _ => if q = p then [c] else []
    | _ => []

/-- What has gone into the queue in the steps of `p`. -/
def queued (p : P) (as : List (Act P × Option UInt8)) : List UInt8 :=
  as.flatMap fun a => match a.1 with
    | .putc q _ _ | .resume q _ => if q = p then a.2.toList else []
    | _ => []

def waiting (s : State P) (p : P) : List UInt8 := (s.place p).toList.map Prod.fst

/-- The indices count the bytes that came in and that went out, at most 32 are still to come, and whoever sleeps
finds the queue full. -/
structure Inv (s : State P) (ins : List UInt8) : Prop where
  w : s.w.toNat = ins.length % 2 ^ 64
  r : s.r.toNat = s.sent.length % 2 ^ 64
  sent : s.sent = ins.take s.sent.length
  shows : Shows s.buf ins s.sent.length
  asleep : ∀ p c, s.place p = some (c, true) → ins.length = s.sent.length + txBufSize

variable {s t : State P}

lemma wake_ne (place) (c) : wake place ≠ some (c, true) := by cases place <;> simp [wake]

omit [DecidableEq P] in
lemma waiting_wake (s : State P) (p : P) : (wake (s.place p)).toList.map Prod.fst = waiting s p := by
  unfold waiting
  cases s.place p <;> rfl

section
variable (inv : Inv s ins)
include inv

omit [DecidableEq P] in
lemma Inv.full_iff : s.w = s.r + UInt64.ofNat txBufSize ↔ ins.length = s.sent.length + txBufSize := by
  have le := inv.shows.le
  have sum : (s.r + UInt64.ofNat txBufSize).toNat = (s.sent.length + txBufSize) % 2 ^ 64 := by
    rw [UInt64.toNat_add, inv.r]
    exact Nat.mod_add_mod _ _ _
  rw [← UInt64.toNat_inj, inv.w, sum, eq_comm, mod_eq_iff inv.shows.fits (by unfold txBufSize; omega), eq_comm]

omit [DecidableEq P] in
lemma Inv.empty_iff : s.w = s.r ↔ ins.length = s.sent.length := by
  have fits := inv.shows.fits
  rw [← UInt64.toNat_inj, inv.w, inv.r, mod_eq_iff inv.shows.le (by unfold txBufSize at fits; omega)]

omit [DecidableEq P] in
lemma uartstart_inv (k) : Inv (uartstart k s) ins ∧ ∀ p, waiting (uartstart k s) p = waiting s p := by
  induction k generalizing s with
  | zero => exact ⟨inv, fun _ => rfl⟩
  | succ k ih =>
    rw [uartstart]
    split_ifs with empty
    · exact ⟨inv, fun _ => rfl⟩
    · obtain ⟨shows, here⟩ := inv.shows.pop (lt_of_le_of_ne inv.shows.le fun eq => empty (inv.empty_iff.mpr eq.symm))
      have place : slot s.r = Fin.ofNat txBufSize s.sent.length := by
        rw [slot, inv.r]
        exact ofNat_mod (by decide) _
      have sends : Inv { s with
          r := s.r + 1
          sent := s.sent ++ [s.buf (slot s.r)]
          place := fun p => wake (s.place p) } ins := by
        refine ⟨inv.w, ?_, ?_, by simpa using shows, fun p c asleep => absurd asleep (wake_ne _ c)⟩
        · simp only [UInt64.toNat_add, inv.r, length_append, length_singleton]
          exact Nat.mod_add_mod _ _ _
        · rw [length_append, length_singleton, take_add_one, here, place, ← inv.sent]
          rfl
      obtain ⟨kept, same⟩ := ih sends
      exact ⟨kept, fun p => (same p).trans (waiting_wake s p)⟩

lemma uartputc_inv (hs : uartputc s p c k = (t, e)) : Inv t (ins ++ e.toList) ∧ [c] = e.toList ++ waiting t p ∧
    ∀ q ≠ p, waiting t q = waiting s q := by
  unfold uartputc at hs
  split_ifs at hs with full <;> cases hs
  · refine ⟨?_, by simp [waiting], fun q ne => by simp [waiting, ne]⟩
    simpa using { inv with asleep := fun _ _ _ => inv.full_iff.mp full }
  · have room := inv.full_iff.not.mp full
    have place : slot s.w = Fin.ofNat txBufSize ins.length := by
      rw [slot, inv.w]
      exact ofNat_mod (by decide) _
    have stored : Inv { s with
        buf := update s.buf (slot s.w) c
        w := s.w + 1
        place := update s.place p none } (ins ++ [c]) := by
      refine ⟨?_, inv.r, inv.sent.trans (take_append_of_le_length inv.shows.le).symm, ?_, fun q c' asleep => ?_⟩
      · simp only [UInt64.toNat_add, inv.w, length_append, length_singleton]
        exact Nat.mod_add_mod _ _ _
      · rw [place]
        exact inv.shows.push (lt_of_le_of_ne inv.shows.fits room) c
      · -- with room in the queue nobody was asleep, and `p` goes on
        rcases eq_or_ne q p with rfl | ne
        · simp at asleep
        · exact absurd (inv.asleep q c' (by simpa [ne] using asleep)) room
    obtain ⟨kept, same⟩ := uartstart_inv stored k
    refine ⟨kept, ?_, fun q ne => (same q).trans (by simp [waiting, ne])⟩
    rw [same p]
    simp [waiting]

lemma step_inv (hs : Step s a t) : Inv t (ins ++ a.2.toList) ∧
    ∀ p, waiting s p ++ called p [a] = queued p [a] ++ waiting t p := by
  obtain ⟨act, e⟩ := a
  unfold Step at hs
  cases act with
  | putc p c k =>
    simp only [next] at hs
    split_ifs at hs with out
    obtain ⟨kept, mine, others⟩ := uartputc_inv inv (Option.some.inj hs)
    refine ⟨kept, fun q => ?_⟩
    rcases eq_or_ne q p with rfl | ne
    · simpa [called, queued, waiting, out] using mine
    · simp [called, queued, others q ne, Ne.symm ne]
  | resume p k =>
    simp only [next] at hs
    split at hs <;> try contradiction
    rename_i c here
    obtain ⟨kept, mine, others⟩ := uartputc_inv inv (Option.some.inj hs)
    refine ⟨kept, fun q => ?_⟩
    rcases eq_or_ne q p with rfl | ne
    · simpa [called, queued, waiting, here] using mine
    · simp [called, queued, others q ne, Ne.symm ne]
  | intr k =>
    cases hs
    obtain ⟨kept, same⟩ := uartstart_inv inv k
    exact ⟨by simpa using kept, fun p => by simp [called, queued, same]⟩
  | kill p =>
    cases hs
    refine ⟨?_, fun q => ?_⟩
    · rw [Option.toList, append_nil]
      refine { inv with asleep := fun q c asleep => ?_ }
      rcases eq_or_ne q p with rfl | ne
      · exact absurd (by simpa using asleep) (wake_ne _ c)
      · exact inv.asleep q c (by simpa [ne] using asleep)
    · rcases eq_or_ne q p with rfl | ne
      · simpa [called, queued, waiting] using (waiting_wake s q).symm
      · simp [called, queued, waiting, ne]

end

/-- Whatever the processes, the transmitter and the interrupts do, each byte that a process calls `uartputc` with
goes into the queue once, after those of its calls before, or is the one the process waits with; and bytes go out in
the order in which they came in. -/
theorem uart_sends_in_order {P : Type} [DecidableEq P] {buf : Fin txBufSize → UInt8}
    {as : List (Act P × Option UInt8)} {t : State P} (run : Run Step (start P buf) as t) :
    Inv t (as.filterMap (·.2)) ∧ ∀ p, called p as = queued p as ++ waiting t p := by
  refine run.history (fun as t => Inv t (as.filterMap (·.2)) ∧ ∀ p, called p as = queued p as ++ waiting t p) ?_
    ⟨⟨rfl, rfl, rfl, shows_nil buf, fun _ _ => nofun⟩, fun _ => rfl⟩
  intro as s a t _ ⟨inv, calls⟩ hs
  obtain ⟨kept, more⟩ := step_inv inv hs
  refine ⟨?_, fun p => ?_⟩
  · cases h : a.2 <;> simpa [h] using kept
  · have split : ∀ f : Act P × Option UInt8 → List UInt8, (as ++ [a]).flatMap f = as.flatMap f ++ [a].flatMap f :=
      fun f => flatMap_append
    have step := congrArg (queued p as ++ ·) (more p)
    simp only [← append_assoc, ← calls p] at step
    rw [called, split, queued, split]
    exact step

theorem uart_sends_two : ∃ t : State Unit, t.sent = [7] ∧ called () [(.putc () 7 0, some 7), (.putc () 8 1, some 8)] =
    [7, 8] ++ waiting t () := by
  have run : ∃ t, Run Step (start Unit fun _ => 0) [(.putc () 7 0, some 7), (.putc () 8 1, some 8)] t ∧
      t.sent.length = 1 :=
    ⟨_, .cons rfl (.cons rfl (.nil _)), rfl⟩
  obtain ⟨t, run, one⟩ := run
  obtain ⟨inv, calls⟩ := uart_sends_in_order run
  exact ⟨t, by simpa [one] using inv.sent, calls ()⟩

end Xv6.Uart
