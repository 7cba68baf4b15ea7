import Xv6.Params
import Xv6.Runs
import Xv6.Window

/-! The pipes of `kernel/pipe.c`, used by processes `P`. A step is one critical section of `pi->lock`:
from `acquire` or the return of `sleep` to the next `sleep` or the end of the call. `killed(pr)`
is read in every round of `pipewrite`; the step carries the answers. A sleeper goes on only after
a `wakeup` on its channel or a `kill`. User buffers are accessible: a writer's is the list of its
bytes. -/

namespace Xv6.PipeFifo

open Runs List Option

def pipeSize : Nat := 512

instance : NeZero pipeSize := ⟨by decide⟩

structure Pipe where
  data : Fin pipeSize → UInt8
  nread : UInt32
  nwrite : UInt32
  readopen : Bool
  writeopen : Bool

def slot (x : UInt32) : Fin pipeSize := Fin.ofNat pipeSize x.toNat

def full (pi : Pipe) : Bool := pi.nwrite = pi.nread + UInt32.ofNat pipeSize

def empty (pi : Pipe) : Bool := pi.nread = pi.nwrite

def put (pi : Pipe) (ch : UInt8) : Pipe :=
  { pi with data := Function.update pi.data (slot pi.nwrite) ch, nwrite := pi.nwrite + 1 }

/-- What a critical section of `pipewrite` ends with. -/
inductive WriteEnd
  | returns (i : Int)
  | sleeps (rest : List UInt8)

/-- The loop of `pipewrite`: `n` bytes in all, those of the list still to come.
The result lists the bytes stored. -/
def writeLoop (n : Nat) (killed : Nat → Bool) : List UInt8 → Pipe → Pipe × List UInt8 × WriteEnd
  | [], pi => (pi, [], .returns n)
  | ch :: rest, pi =>
    if pi.readopen = false ∨ killed (rest.length + 1) then (pi, [], .returns (-1))
    else if full pi then (pi, [], .sleeps (ch :: rest))
    else
      let (pi, stored, how) := writeLoop n killed rest (put pi ch)
      (pi, ch :: stored, how)

def readLoop : Nat → Pipe → Pipe × List UInt8
  | 0, pi => (pi, [])
  | m + 1, pi =>
    if empty pi then (pi, [])
    else
      let ch := pi.data (slot pi.nread)
      let (pi, taken) := readLoop m { pi with nread := pi.nread + 1 }
      (pi, ch :: taken)

def pipeclose (pi : Pipe) (writable : Bool) : Pipe :=
  if writable then { pi with writeopen := false } else { pi with readopen := false }

/-- A process in the middle of a call is asleep on `&pi->nwrite`, with the bytes it
has still to write, or on `&pi->nread`; or it has been woken. -/
inductive Place
  | out
  | writing (n : Nat) (rest : List UInt8) (asleep : Bool)
  | reading (n : Int) (asleep : Bool)

structure State (P : Type) where
  pipe : Pipe
  place : P → Place

def pipealloc (P : Type) (data : Fin pipeSize → UInt8) : State P where
  pipe := { data := data, nread := 0, nwrite := 0, readopen := true, writeopen := true }
  place _ := .out

def Place.wakeReader : Place → Place
  | .reading n _ => .reading n false
  | place => place

def Place.wakeWriter : Place → Place
  | .writing n rest _ => .writing n rest false
  | place => place

inductive Act (P : Type)
  | write (p : P) (bytes : List UInt8) (killed : Nat → Bool)
  | resumeWrite (p : P) (killed : Nat → Bool)
  | read (p : P) (n : Int) (killed : Bool)
  | resumeRead (p : P) (killed : Bool)
  | close (writable : Bool)
  | kill (p : P)

/-- What is seen of a step: the bytes stored or taken, and what the call returns,
if it does. -/
inductive Event
  | stored (bytes : List UInt8) (result : Option Int)
  | taken (n : Int) (bytes : List UInt8) (result : Option Int)
  | other

section
variable {P : Type} [DecidableEq P] (s : State P)

def freed : Bool := !s.pipe.readopen && !s.pipe.writeopen

/-- The end of a critical section of `pipewrite`, which does `wakeup(&pi->nread)`
unless it has failed. -/
def finishWrite (p : P) (n : Nat) : Pipe × List UInt8 × WriteEnd → State P × Event
  | (pi, stored, .returns i) =>
    let place := if i = -1 then s.place else fun q => (s.place q).wakeReader
    ({ pipe := pi, place := Function.update place p .out }, .stored stored (some i))
  | (pi, stored, .sleeps rest) =>
    ({ pipe := pi
       place := Function.update (fun q => (s.place q).wakeReader) p (.writing n rest true) },
      .stored stored none)

def pipewrite (p : P) (n : Nat) (bytes : List UInt8) (killed : Nat → Bool) : State P × Event :=
  finishWrite s p n (writeLoop n killed bytes s.pipe)

def piperead (p : P) (n : Int) (killed : Bool) : State P × Event :=
  if empty s.pipe ∧ s.pipe.writeopen = true then
    if killed then ({ s with place := Function.update s.place p .out }, .taken n [] (some (-1)))
    else ({ s with place := Function.update s.place p (.reading n true) }, .taken n [] none)
  else
    let (pi, taken) := readLoop n.toNat s.pipe
    ({ pipe := pi, place := Function.update (fun q => (s.place q).wakeWriter) p .out },
      .taken n taken (some taken.length))

def next : Act P → Option (State P × Event)
  | .write p bytes killed =>
    match freed s, s.place p with
    | false, .out => some (pipewrite s p bytes.length bytes killed)
    | _, _ => none
  | .resumeWrite p killed =>
    match freed s, s.place p with
    | false, .writing n rest false => some (pipewrite s p n rest killed)
    | _, _ => none
  | .read p n killed =>
    match freed s, s.place p with
    | false, .out => some (piperead s p n killed)
    | _, _ => none
  | .resumeRead p killed =>
    match freed s, s.place p with
    | false, .reading n false => some (piperead s p n killed)
    | _, _ => none
  | .close writable =>
    if freed s then none
    else some ({ pipe := pipeclose s.pipe writable
                 place := fun q => if writable then (s.place q).wakeReader else (s.place q).wakeWriter },
      .other)
  | .kill p => some ({ s with place := Function.update s.place p (s.place p).wakeReader.wakeWriter }, .other)

end

def Step {P : Type} [DecidableEq P] (s : State P) (a : Act P × Event) (t : State P) : Prop :=
  next s a.1 = some (t, a.2)

variable {P : Type}

def accepted (as : List (Act P × Event)) : List UInt8 :=
  as.flatMap fun a => match a.2 with
    | .stored bytes _ => bytes
    | _ => []

def returned (as : List (Act P × Event)) : List UInt8 :=
  as.flatMap fun a => match a.2 with
    | .taken _ bytes _ => bytes
    | _ => []

def writer : Act P → Option P
  | .write p _ _ | .resumeWrite p _ => some p
  | _ => none

/-- The bytes offered to the last `pipewrite` of `p`, and those of them that it has stored. -/
def call [DecidableEq P] (p : P) (as : List (Act P × Event)) : List UInt8 × List UInt8 :=
  as.foldl (fun sofar a => match a with
    | (.write q bytes _, .stored stored _) => if q = p then (bytes, stored) else sofar
    | (.resumeWrite q _, .stored stored _) => if q = p then (sofar.1, sofar.2 ++ stored) else sofar
    | _ => sofar) ([], [])

/-- How a critical section of `pipewrite` leaves a call: with `rest` to write it sleeps or has failed, and otherwise
it returns what was offered. -/
def Ends [DecidableEq P] (t : State P) (p : P) (offered rest : List UInt8) : Option Int → Prop
  | none => t.place p = .writing offered.length rest true
  | some r => r = -1 ∨ r = offered.length ∧ rest = []

def buffered (pi : Pipe) : List UInt8 :=
  (List.range (pi.nwrite - pi.nread).toNat).map fun j => pi.data (slot (pi.nread + UInt32.ofNat j))

/-- The counters count the two streams, and the buffer shows what lies between. -/
structure Fifo (pi : Pipe) (ins outs : List UInt8) : Prop where
  nread : pi.nread.toNat = outs.length % 2 ^ 32
  nwrite : pi.nwrite.toNat = ins.length % 2 ^ 32
  front : outs = ins.take outs.length
  shows : Window.Shows pi.data ins outs.length

section
variable {pi : Pipe}

section
variable (h : Fifo pi ins outs)
include h

lemma Fifo.slot_nwrite : slot pi.nwrite = Fin.ofNat pipeSize ins.length := by
  rw [slot, h.nwrite]
  exact Window.ofNat_mod (by decide) _

lemma Fifo.slot_nread : slot pi.nread = Fin.ofNat pipeSize outs.length := by
  rw [slot, h.nread]
  exact Window.ofNat_mod (by decide) _

lemma Fifo.le_size : ins.length ≤ outs.length + 512 := h.shows.fits

lemma Fifo.full_iff : full pi = true ↔ ins.length = outs.length + pipeSize := by
  have le := h.shows.le
  have sum : (pi.nread + UInt32.ofNat pipeSize).toNat = (outs.length + pipeSize) % 2 ^ 32 := by
    rw [UInt32.toNat_add, h.nread]
    exact Nat.mod_add_mod _ _ _
  rw [full, decide_eq_true_iff, ← UInt32.toNat_inj, h.nwrite, sum, eq_comm,
    Window.mod_eq_iff h.shows.fits (by unfold pipeSize; omega), eq_comm]

lemma Fifo.empty_iff : empty pi = true ↔ ins.length = outs.length := by
  have size := h.le_size
  rw [empty, decide_eq_true_iff, ← UInt32.toNat_inj, h.nwrite, h.nread, eq_comm,
    Window.mod_eq_iff h.shows.le (by omega)]

lemma Fifo.put (room : full pi = false) (ch) : Fifo (put pi ch) (ins ++ [ch]) outs where
  nread := h.nread
  nwrite := by
    simp only [PipeFifo.put, UInt32.toNat_add, h.nwrite, length_append, length_singleton]
    exact Nat.mod_add_mod _ _ _
  front := by
    rw [take_append_of_le_length h.shows.le]
    exact h.front
  shows := by
    have ne : ins.length ≠ outs.length + pipeSize := by
      intro eq
      rw [h.full_iff.mpr eq] at room
      cases room
    simp only [PipeFifo.put, h.slot_nwrite]
    exact h.shows.push (lt_of_le_of_ne h.shows.fits ne) ch

lemma Fifo.take (some : empty pi = false) :
    Fifo { pi with nread := pi.nread + 1 } ins (outs ++ [pi.data (slot pi.nread)]) := by
  have more : outs.length < ins.length := by
    refine lt_of_le_of_ne h.shows.le fun eq => ?_
    rw [h.empty_iff.mpr eq.symm] at some
    cases some
  obtain ⟨shows, first⟩ := h.shows.pop more
  refine ⟨?_, h.nwrite, ?_, ?_⟩
  · simp only [UInt32.toNat_add, h.nread, length_append, length_singleton]
    exact Nat.mod_add_mod _ _ _
  · rw [length_append, length_singleton, take_add_one, first, h.slot_nread, ← h.front]
    rfl
  · simpa using shows

end

lemma Fifo.flags (h : Fifo pi ins outs) (data : pi'.data = pi.data)
    (nread : pi'.nread = pi.nread) (nwrite : pi'.nwrite = pi.nwrite) : Fifo pi' ins outs :=
  ⟨nread ▸ h.nread, nwrite ▸ h.nwrite, h.front, data ▸ h.shows⟩

lemma Fifo.distance (h : Fifo pi ins outs) : (pi.nwrite - pi.nread).toNat = ins.length - outs.length := by
  have size := h.le_size
  rw [UInt32.toNat_sub, h.nread, h.nwrite]
  exact Window.distance h.shows.le (by omega)

lemma Fifo.outs_append_buffered (h : Fifo pi ins outs) : outs ++ buffered pi = ins := by
  have rest : buffered pi = ins.drop outs.length := by
    apply ext_getElem?
    intro j
    rw [buffered, h.distance, getElem?_map, getElem?_drop]
    by_cases hj : j < ins.length - outs.length
    · rw [getElem?_range hj, map_some]
      have at_ := getElem?_eq_getElem (l := ins) (i := outs.length + j) (by omega)
      have place : slot (pi.nread + UInt32.ofNat j) = Fin.ofNat pipeSize (outs.length + j) := by
        have sum : (pi.nread + UInt32.ofNat j).toNat = (outs.length + j) % 2 ^ 32 := by
          rw [UInt32.toNat_add, h.nread, UInt32.toNat_ofNat']
          exact (Nat.add_mod _ _ _).symm
        rw [slot, sum]
        exact Window.ofNat_mod (by decide) _
      rw [at_, place, h.shows.slot _ _ (by omega) at_]
    · rw [getElem?_eq_none (by simpa using hj), getElem?_eq_none (by omega)]
      rfl
  rw [rest]
  nth_rewrite 1 [h.front]
  exact take_append_drop _ _

lemma writeLoop_fifo (n killed bytes) (h : Fifo pi ins outs) :
    Fifo (writeLoop n killed bytes pi).1 (ins ++ (writeLoop n killed bytes pi).2.1) outs := by
  induction bytes generalizing pi ins with
  | nil => simpa [writeLoop] using h
  | cons ch rest ih =>
    unfold writeLoop
    split_ifs with stop wait
    · simpa using h
    · simpa using h
    · have later := ih (h.put (by simpa using wait) ch)
      simpa using later

lemma readLoop_fifo (h : Fifo pi ins outs) : Fifo (readLoop m pi).1 ins (outs ++ (readLoop m pi).2) := by
  induction m generalizing pi outs with
  | zero => simpa [readLoop] using h
  | succ m ih =>
    unfold readLoop
    split_ifs with none
    · simpa using h
    · have later := ih (h.take (by simpa using none))
      simpa using later

lemma readLoop_nil (none : (readLoop m pi).2 = []) : m = 0 ∨ empty pi = true := by
  cases m with
  | zero => exact .inl rfl
  | succ m =>
    right
    by_contra some
    simp [readLoop, some] at none

end

section
variable {P : Type} [DecidableEq P] {s t : State P}

section
variable (h : Fifo s.pipe ins outs)
include h

lemma pipewrite_fifo (hs : pipewrite s p n bytes killed = (t, e)) :
    ∃ stored result, e = .stored stored result ∧ Fifo t.pipe (ins ++ stored) outs := by
  have later := writeLoop_fifo n killed bytes h
  unfold pipewrite at hs
  rcases hw : writeLoop n killed bytes s.pipe with ⟨pi, stored, how⟩
  rw [hw] at hs later
  cases how with
  | returns i =>
    cases hs
    exact ⟨stored, some i, rfl, later⟩
  | sleeps rest =>
    cases hs
    exact ⟨stored, none, rfl, later⟩

lemma piperead_fifo (hs : piperead s p n killed = (t, e)) :
    ∃ taken result, e = .taken n taken result ∧ Fifo t.pipe ins (outs ++ taken) ∧
      (result = some 0 → 0 < n → empty s.pipe = true ∧ s.pipe.writeopen = false) ∧
      (∀ r, result = some r → r = -1 ∨ r = taken.length) := by
  unfold piperead at hs
  split_ifs at hs with wait dead
  · cases hs
    exact ⟨[], some (-1), rfl, by simpa using h, by simp, by simp⟩
  · cases hs
    exact ⟨[], none, rfl, by simpa using h, by simp, by simp⟩
  · have later := readLoop_fifo (m := n.toNat) h
    rcases hr : readLoop n.toNat s.pipe with ⟨pi, taken⟩
    rw [hr] at hs later
    cases hs
    refine ⟨taken, some taken.length, rfl, later, fun zero pos => ?_, fun r hr => ?_⟩
    · -- nothing was taken though `n > 0`: the pipe was empty, so the test of the `while`
      -- loop failed for its other half
      have none : taken = [] := by simpa using zero
      have nothing : empty s.pipe = true := by
        rcases readLoop_nil (by rw [hr]; exact none) with zero | nothing
        · omega
        · exact nothing
      exact ⟨nothing, by simpa [nothing] using wait⟩
    · exact .inr (some.inj hr).symm

lemma step_fifo (hs : Step s a t) : Fifo t.pipe (ins ++ accepted [a]) (outs ++ returned [a]) := by
  obtain ⟨act, e⟩ := a
  unfold Step at hs
  cases act with
  | write p bytes killed =>
    simp only [next] at hs
    split at hs <;> try contradiction
    obtain ⟨stored, result, rfl, later⟩ := pipewrite_fifo h (some.inj hs)
    simpa [accepted, returned] using later
  | resumeWrite p killed =>
    simp only [next] at hs
    split at hs <;> try contradiction
    obtain ⟨stored, result, rfl, later⟩ := pipewrite_fifo h (some.inj hs)
    simpa [accepted, returned] using later
  | read p n killed =>
    simp only [next] at hs
    split at hs <;> try contradiction
    obtain ⟨taken, result, rfl, later, -⟩ := piperead_fifo h (some.inj hs)
    simpa [accepted, returned] using later
  | resumeRead p killed =>
    simp only [next] at hs
    split at hs <;> try contradiction
    obtain ⟨taken, result, rfl, later, -⟩ := piperead_fifo h (some.inj hs)
    simpa [accepted, returned] using later
  | close writable =>
    simp only [next] at hs
    split at hs <;> try contradiction
    cases hs
    refine Fifo.flags (by simpa [accepted, returned] using h) ?_ ?_ ?_ <;> (simp only [pipeclose]; split <;> rfl)
  | kill p =>
    cases hs
    simpa [accepted, returned] using h

lemma step_read (hs : Step s (act, .taken n taken (some r)) t) :
    (r = 0 → 0 < n → empty s.pipe = true ∧ s.pipe.writeopen = false) ∧ (r = -1 ∨ r = taken.length) := by
  have reads : ∀ p killed, piperead s p n killed = (t, .taken n taken (some r)) →
    (r = 0 → 0 < n → empty s.pipe = true ∧ s.pipe.writeopen = false) ∧ (r = -1 ∨ r = taken.length) := by
    intro p killed hp
    obtain ⟨taken', result, eq, -, zero, ret⟩ := piperead_fifo h hp
    cases eq
    exact ⟨fun hr => zero (congrArg some hr), ret r rfl⟩
  unfold Step at hs
  cases act with
  | write p bytes killed =>
    simp only [next] at hs
    split at hs <;> try contradiction
    obtain ⟨_, _, eq, -⟩ := pipewrite_fifo h (some.inj hs)
    cases eq
  | resumeWrite p killed =>
    simp only [next] at hs
    split at hs <;> try contradiction
    obtain ⟨_, _, eq, -⟩ := pipewrite_fifo h (some.inj hs)
    cases eq
  | read p n' killed =>
    simp only [next] at hs
    split at hs <;> try contradiction
    obtain ⟨_, _, eq, -⟩ := piperead_fifo h (some.inj hs)
    cases eq
    exact reads p killed (some.inj hs)
  | resumeRead p killed =>
    simp only [next] at hs
    split at hs <;> try contradiction
    obtain ⟨_, _, eq, -⟩ := piperead_fifo h (some.inj hs)
    cases eq
    exact reads p killed (some.inj hs)
  | close writable =>
    simp only [next] at hs
    split at hs <;> try contradiction
    cases some.inj hs
  | kill p => cases some.inj hs

end

lemma fifo_start (P : Type) (data) : Fifo (pipealloc P data).pipe [] [] := ⟨rfl, rfl, rfl, Window.shows_nil data⟩

lemma fifo_of_run (run : Run Step (pipealloc P data) as t) : Fifo t.pipe (accepted as) (returned as) := by
  refine run.history (fun as t => Fifo t.pipe (accepted as) (returned as)) ?_ (fifo_start P data)
  intro as s a u _ h hs
  have later := step_fifo h hs
  simpa only [accepted, returned, flatMap_append] using later

lemma writeLoop_split (n killed bytes pi) : let (_, stored, how) := writeLoop n killed bytes pi
    ∃ rest, stored ++ rest = bytes ∧ match how with
      | .returns i => i = -1 ∨ i = n ∧ rest = []
      | .sleeps left => left = rest := by
  induction bytes generalizing pi with
  | nil => exact ⟨[], rfl, .inr ⟨rfl, rfl⟩⟩
  | cons ch rest ih =>
    rw [writeLoop]
    split_ifs with fails wait
    · exact ⟨ch :: rest, rfl, .inl rfl⟩
    · exact ⟨ch :: rest, rfl, rfl⟩
    · obtain ⟨left, split, ends⟩ := ih (put pi ch)
      exact ⟨left, congrArg (ch :: ·) split, ends⟩

/-- A process in the middle of a write has what it has stored behind it and the rest before it. -/
def Calls (as : List (Act P × Event)) (s : State P) : Prop :=
  ∀ p n rest asleep, s.place p = .writing n rest asleep → n = (call p as).1.length ∧
    (call p as).2 ++ rest = (call p as).1

lemma wakeReader_writing {place : Place} (h : place.wakeReader = .writing n rest b) : place = .writing n rest b := by
  cases place <;> simp_all [Place.wakeReader]

lemma wakeWriter_writing {place : Place} (h : place.wakeWriter = .writing n rest b) :
    ∃ b', place = .writing n rest b' := by
  cases place <;> simp_all [Place.wakeWriter]

lemma pipewrite_call (hs : pipewrite s p offered.length bytes killed = (t, e)) (split : before ++ bytes = offered) :
    ∃ stored result rest, e = .stored stored result ∧ before ++ stored ++ rest = offered ∧
      Ends t p offered rest result ∧
      ∀ q n left b, t.place q = .writing n left b → q = p ∧ n = offered.length ∧ left = rest ∨
        q ≠ p ∧ s.place q = .writing n left b := by
  obtain ⟨rest, front, ends⟩ := writeLoop_split offered.length killed bytes s.pipe
  unfold pipewrite at hs
  rcases hw : writeLoop offered.length killed bytes s.pipe with ⟨pi, stored, how⟩
  rw [hw] at hs front ends
  have whole : before ++ stored ++ rest = offered := by rw [append_assoc, front, split]
  cases how with
  | returns i =>
    cases hs
    refine ⟨stored, some i, rest, rfl, whole, ends, fun q n left b place => .inr ?_⟩
    rcases eq_or_ne q p with rfl | ne
    · simp at place
    · refine ⟨ne, ?_⟩
      dsimp only at place
      rw [Function.update_of_ne ne] at place
      split_ifs at place
      · exact place
      · exact wakeReader_writing place
  | sleeps left =>
    obtain rfl : left = rest := ends
    cases hs
    refine ⟨stored, none, left, rfl, whole, ?_, fun q n more b place => ?_⟩
    · simp [Ends]
    rcases eq_or_ne q p with rfl | ne
    · simp only [Function.update_self, Place.writing.injEq] at place
      exact .inl ⟨rfl, place.1.symm, place.2.1.symm⟩
    · exact .inr ⟨ne, wakeReader_writing (by simpa [ne] using place)⟩

/-- Outside of `pipewrite` a writer is at most woken. -/
lemma next_place (hs : next s act = some (t, e)) (reads : writer act = none) (place : t.place q = .writing n rest b) :
    ∃ b', s.place q = .writing n rest b' := by
  have elsewhere : ∀ p x (places : P → Place), Function.update places p x q = .writing n rest b →
      (∀ m left a, x ≠ .writing m left a) → places q = .writing n rest b := by
    intro p x places here out
    rcases eq_or_ne q p with rfl | ne
    · exact absurd (by simpa using here) (out n rest b)
    · simpa [ne] using here
  have taken : ∀ p m killed, piperead s p m killed = (t, e) → ∃ b', s.place q = .writing n rest b' := by
    intro p m killed hp
    unfold piperead at hp
    split_ifs at hp <;> cases hp
    · exact ⟨b, elsewhere _ _ _ place nofun⟩
    · exact ⟨b, elsewhere _ _ _ place nofun⟩
    · exact wakeWriter_writing (elsewhere _ _ (fun q => (s.place q).wakeWriter) place nofun)
  cases act with
  | write => cases reads
  | resumeWrite => cases reads
  | read p m killed =>
    simp only [next] at hs
    split at hs <;> try contradiction
    exact taken p m killed (some.inj hs)
  | resumeRead p killed =>
    simp only [next] at hs
    split at hs <;> try contradiction
    exact taken p _ killed (some.inj hs)
  | close writable =>
    simp only [next] at hs
    split at hs <;> try contradiction
    cases hs
    cases writable
    · exact wakeWriter_writing place
    · exact ⟨b, wakeReader_writing place⟩
  | kill p =>
    cases hs
    rcases eq_or_ne q p with rfl | ne
    · obtain ⟨b', woken⟩ := wakeWriter_writing (by simpa using place)
      exact ⟨b', wakeReader_writing woken⟩
    · exact ⟨b, by simpa [ne] using place⟩

lemma call_append (p) (as : List (Act P × Event)) (a) : call p (as ++ [a]) = match a with
    | (.write q bytes _, .stored stored _) => if q = p then (bytes, stored) else call p as
    | (.resumeWrite q _, .stored stored _) => if q = p then ((call p as).1, (call p as).2 ++ stored) else call p as
    | _ => call p as := by
  rw [call, foldl_append]
  rfl

lemma Calls.step (h : Calls as s) (hs : Step s (act, e) t) : Calls (as ++ [(act, e)]) t ∧
    ∀ p stored result, writer act = some p → e = .stored stored result →
      ∃ rest, (call p (as ++ [(act, e)])).2 ++ rest = (call p (as ++ [(act, e)])).1 ∧
        Ends t p (call p (as ++ [(act, e)])).1 rest result := by
  cases who : writer act with
  | none =>
    refine ⟨fun q n rest b place => ?_, nofun⟩
    obtain ⟨b', old⟩ := next_place hs who place
    have quiet : call q (as ++ [(act, e)]) = call q as := by
      rw [call_append]
      cases act <;> first | rfl | cases who
    rw [quiet]
    exact h q n rest b' old
  | some p =>
    -- the call that the section belongs to, with what it had stored before
    obtain ⟨offered, before, bytes, killed, ran, split, here, others⟩ : ∃ offered before bytes killed,
        pipewrite s p offered.length bytes killed = (t, e) ∧ before ++ bytes = offered ∧
        (∀ stored result, call p (as ++ [(act, .stored stored result)]) = (offered, before ++ stored)) ∧
        ∀ q ≠ p, ∀ stored result, call q (as ++ [(act, .stored stored result)]) = call q as := by
      unfold Step at hs
      cases act <;> cases who
      case write bytes killed =>
        simp only [next] at hs
        split at hs <;> try contradiction
        refine ⟨bytes, [], bytes, killed, some.inj hs, rfl, fun stored result => ?_, fun q ne stored result => ?_⟩
        · simp [call_append]
        · simp [call_append, Ne.symm ne]
      case resumeWrite killed =>
        simp only [next] at hs
        split at hs <;> try contradiction
        rename_i n rest _ place
        obtain ⟨rfl, split⟩ := h p n rest false place
        refine ⟨_, _, rest, killed, some.inj hs, split, fun stored result => ?_, fun q ne stored result => ?_⟩
        · simp [call_append]
        · simp [call_append, Ne.symm ne]
    obtain ⟨stored, result, rest, rfl, whole, ends, places⟩ := pipewrite_call ran split
    refine ⟨fun q n left b place => ?_, ?_⟩
    · rcases places q n left b place with ⟨rfl, rfl, rfl⟩ | ⟨ne, old⟩
      · rw [here]
        exact ⟨rfl, whole⟩
      · rw [others q ne]
        exact h q n left b old
    · rintro _ _ _ ⟨⟩ ⟨⟩
      rw [here]
      exact ⟨rest, whole, ends⟩

lemma calls_of_run (run : Run Step (pipealloc P data) as t) : Calls as t :=
  run.history Calls (fun _ _ _ _ _ h hs => (h.step hs).1) nofun

/-- The bytes come out as they were stored, and those that a write stores are the ones it was called with, in their
order: all of them if it returns their number. -/
theorem pipe_is_fifo {data : Fin pipeSize → UInt8} {as : List (Act P × Event)}
    (run : Run Step (pipealloc P data) as t) :
    (t.pipe.nwrite - t.pipe.nread).toNat ≤ pipeSize ∧
    returned as ++ buffered t.pipe = accepted as ∧
    (∀ act n taken r u, Step t (act, .taken n taken (some r)) u →
      (r = 0 → 0 < n → empty t.pipe = true ∧ t.pipe.writeopen = false) ∧
      (r = -1 ∨ r = taken.length)) ∧
    ∀ act p stored result u, Step t (act, .stored stored result) u → writer act = some p →
      ∃ rest, (call p (as ++ [(act, .stored stored result)])).2 ++ rest =
        (call p (as ++ [(act, .stored stored result)])).1 ∧
        Ends u p (call p (as ++ [(act, .stored stored result)])).1 rest result := by
  have h := fifo_of_run run
  refine ⟨?_, h.outs_append_buffered, fun act n taken r u hs => step_read h hs,
    fun act p stored result u hs who => ((calls_of_run run).step hs).2 p stored result who rfl⟩
  rw [h.distance]
  have := h.shows.fits
  omega

end

def threeBytes : List (Act (Fin 2) × Event) :=
  [(.write 0 [7, 8, 9] (fun _ => false), .stored [7, 8, 9] (some 3)),
    (.read 1 2 false, .taken 2 [7, 8] (some 2))]

theorem pipe_is_fifo_three_bytes : ∃ t u : State (Fin 2), Run Step (pipealloc (Fin 2) fun _ => 5) threeBytes t ∧
    [7, 8] ++ buffered t.pipe = [7, 8, 9] ∧
    Step t (.write 0 [4, 6] (· == 1), .stored [4] (some (-1))) u ∧ ∃ rest : List UInt8, [4] ++ rest = [4, 6] := by
  have run : ∃ t u, Run Step (pipealloc (Fin 2) fun _ => 5) threeBytes t ∧
      Step t (.write 0 [4, 6] (· == 1), .stored [4] (some (-1))) u := ⟨_, _, .cons rfl (.cons rfl (.nil _)), rfl⟩
  obtain ⟨t, u, run, fails⟩ := run
  obtain ⟨-, stream, -, writes⟩ := pipe_is_fifo run
  obtain ⟨rest, split, -⟩ := writes _ 0 _ _ u fails rfl
  exact ⟨t, u, run, stream, fails, rest, split⟩

/-- The writer of a step has not failed after it stored bytes. -/
def Clean {P : Type} (_ : State P) (a : Act P × Event) : Prop :=
  ∀ stored, a.2 = .stored stored (some (-1)) → stored = []

/-- Who sleeps has reason to: nothing to read, or no room to write. -/
structure Idle {P : Type} (s : State P) : Prop where
  reading : ∀ p n, s.place p = .reading n true → empty s.pipe = true ∧ s.pipe.writeopen = true
  writing : ∀ p n rest, s.place p = .writing n rest true → full s.pipe = true ∧ s.pipe.readopen = true

lemma writeLoop_end (n killed bytes pi) : let (pi', stored, how) := writeLoop n killed bytes pi
  (stored = [] ∨ full pi = true → pi' = pi) ∧ ∀ rest, how = .sleeps rest → full pi' = true ∧ pi'.readopen = true := by
  induction bytes generalizing pi with
  | nil => simp [writeLoop]
  | cons ch rest ih =>
    rw [writeLoop]
    split_ifs with fails isFull
    · simp
    · simpa [isFull] using fun open_ => fails (.inl open_)
    · exact ⟨by simp [isFull], (ih (put pi ch)).2⟩

lemma wakeWriter_eq_reading (place : Place) : place.wakeWriter = .reading n b ↔ place = .reading n b := by
  cases place <;> simp [Place.wakeWriter]

lemma wakeReader_ne (place : Place) : place.wakeReader ≠ .reading n true := by cases place <;> simp [Place.wakeReader]

lemma wakeWriter_ne (place : Place) : place.wakeWriter ≠ .writing n rest true := by
  cases place <;> simp [Place.wakeWriter]

variable {P : Type} [DecidableEq P] {s t : State P}

lemma Idle.update {pi : Pipe} {place : P → Place} (idle : Idle ⟨pi, place⟩)
    (reading : ∀ n, x = .reading n true → empty pi = true ∧ pi.writeopen = true)
    (writing : ∀ n rest, x = .writing n rest true → full pi = true ∧ pi.readopen = true) :
    Idle ⟨pi, Function.update place p x⟩ := by
  refine ⟨fun q n asleep => ?_, fun q n rest asleep => ?_⟩ <;> rcases eq_or_ne q p with rfl | ne
  · exact reading n (by simpa using asleep)
  · exact idle.reading q n (by simpa [ne] using asleep)
  · exact writing n rest (by simpa using asleep)
  · exact idle.writing q n rest (by simpa [ne] using asleep)

lemma Idle.pipewrite (idle : Idle s) (hs : pipewrite s p n bytes killed = (t, e))
    (clean : ∀ stored, e = .stored stored (some (-1)) → stored = []) : Idle t := by
  have after := writeLoop_end n killed bytes s.pipe
  unfold PipeFifo.pipewrite at hs
  rcases hw : writeLoop n killed bytes s.pipe with ⟨pi, stored, how⟩
  rw [hw] at hs after
  obtain ⟨same, sleeps⟩ := after
  -- a writer asleep before found the pipe full, so nothing was stored
  have woken : Idle ⟨pi, fun q => (s.place q).wakeReader⟩ := by
    refine ⟨fun q m asleep => absurd asleep (wakeReader_ne _), fun q m rest asleep => ?_⟩
    have old := idle.writing q m rest (wakeReader_writing asleep)
    rwa [same (.inr old.1)]
  cases how with
  | returns i =>
    cases hs
    refine Idle.update ?_ nofun nofun
    split_ifs with fails
    · rw [same (.inl (clean stored (by rw [fails])))]
      exact idle
    · exact woken
  | sleeps left =>
    cases hs
    exact woken.update nofun fun _ _ _ => sleeps left rfl

lemma Idle.piperead (idle : Idle s) (hs : piperead s p n killed = (t, e)) : Idle t := by
  unfold PipeFifo.piperead at hs
  split_ifs at hs with wait dead <;> cases hs
  · exact idle.update nofun nofun
  · exact idle.update (fun _ _ => wait) nofun
  · refine Idle.update ⟨fun q m asleep => ?_, fun q m rest asleep => absurd asleep (wakeWriter_ne _)⟩ nofun nofun
    exact absurd (idle.reading q m ((wakeWriter_eq_reading _).mp asleep)) wait

lemma Idle.step (idle : Idle s) (hs : Meets Step Clean s a t) : Idle t := by
  obtain ⟨act, e⟩ := a
  obtain ⟨hs, clean⟩ := hs
  unfold Step at hs
  cases act
  case write | resumeWrite =>
    simp only [next] at hs
    split at hs <;> try contradiction
    exact idle.pipewrite (some.inj hs) clean
  case read | resumeRead =>
    simp only [next] at hs
    split at hs <;> try contradiction
    exact idle.piperead (some.inj hs)
  case close writable =>
    simp only [next] at hs
    split at hs <;> try contradiction
    cases hs
    cases writable
    · exact ⟨fun q m asleep => idle.reading q m ((wakeWriter_eq_reading _).mp asleep),
        fun q m rest asleep => absurd asleep (wakeWriter_ne _)⟩
    · exact ⟨fun q m asleep => absurd asleep (wakeReader_ne _),
        fun q m rest asleep => idle.writing q m rest (wakeReader_writing asleep)⟩
  case kill p =>
    cases hs
    exact idle.update (fun n asleep => absurd ((wakeWriter_eq_reading _).mp asleep) (wakeReader_ne _))
      fun n rest asleep => absurd asleep (wakeWriter_ne _)

/-- As long as no write fails after it has stored bytes, nobody sleeps on a pipe that is ready for them. Such a
write returns without the `wakeup` of the readers. -/
theorem pipe_sleepers_wait {P : Type} [DecidableEq P] {data : Fin pipeSize → UInt8} {as : List (Act P × Event)}
    {t : State P} (run : Run (Meets Step Clean) (pipealloc P data) as t) : Idle t :=
  run.invariant Idle (fun _ _ _ idle hs => idle.step hs) ⟨fun _ _ => nofun, fun _ _ _ => nofun⟩

/-- A reader that found nothing, was woken by a write and has come back after another reader took it all. -/
def woken : List (Act Bool × Event) :=
  [(.read true 5 false, .taken 5 [] none), (.write false [7, 8] (fun _ => false), .stored [7, 8] (some 2)),
    (.read false 9 false, .taken 9 [7, 8] (some 2)), (.resumeRead true false, .taken 5 [] none)]

theorem pipe_sleepers_wait_reader : ∃ t : State Bool, Run (Meets Step Clean) (pipealloc Bool fun _ => 0) woken t ∧
    t.place true = .reading 5 true ∧ empty t.pipe = true := by
  have run : ∃ t, Run (Meets Step Clean) (pipealloc Bool fun _ => 0) woken t ∧ t.place true = .reading 5 true :=
    ⟨_, .cons ⟨rfl, nofun⟩ (.cons ⟨rfl, nofun⟩ (.cons ⟨rfl, nofun⟩ (.cons ⟨rfl, nofun⟩ (.nil _)))), rfl⟩
  obtain ⟨t, run, asleep⟩ := run
  exact ⟨t, run, asleep, ((pipe_sleepers_wait run).reading true 5 asleep).1⟩

/-- A writer killed after its first byte, and a reader that sleeps on. -/
example : ∃ t : State Bool, Run Step (pipealloc Bool fun _ => 0) [(.read true 5 false, .taken 5 [] none),
    (.write false [7, 8] (· == 1), .stored [7] (some (-1)))] t ∧ t.place true = .reading 5 true ∧
      empty t.pipe = false :=
  ⟨_, .cons rfl (.cons rfl (.nil _)), rfl, rfl⟩

end Xv6.PipeFifo
