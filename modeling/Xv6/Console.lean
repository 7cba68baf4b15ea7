import Xv6.Params
import Xv6.Runs
import Xv6.Window

/-! The console input of `kernel/console.c`: the interrupt handler edits the line at the end of a
circular buffer and commits it, readers take committed bytes from the front. A step is one
critical section of `cons.lock`: an interrupt, or `consoleread` from `acquire` or the return of
`sleep` to the next `sleep` or its end. `killed` is read when the reader finds the buffer empty. -/

namespace Xv6.Console

open Runs Option Function
open List (length_append append_assoc length_singleton mem_append not_mem_nil append_nil flatMap_append)
open UInt32 (toNat_sub toNat_inj toNat_add)

def inputBufSize : Nat := 128

instance : NeZero inputBufSize := ⟨by decide⟩

def ctrl (x : Char) : UInt8 := x.toUInt8 - '@'.toUInt8

def newline : UInt8 := '\n'.toUInt8

def carriageReturn : UInt8 := '\r'.toUInt8

def delete : UInt8 := 127

structure Cons where
  buf : Fin inputBufSize → UInt8
  r : UInt32
  w : UInt32
  e : UInt32

def slot (x : UInt32) : Fin inputBufSize := Fin.ofNat inputBufSize x.toNat

def killFrom : Nat → Cons → Cons
  | 0, s => s
  | fuel + 1, s =>
    if s.e ≠ s.w ∧ s.buf (slot (s.e - 1)) ≠ newline then killFrom fuel { s with e := s.e - 1 }
    else s

def killLine (s : Cons) : Cons := killFrom (s.e - s.w).toNat s

def store (s : Cons) (c : UInt8) : Cons :=
  { s with buf := Function.update s.buf (slot s.e) c, e := s.e + 1 }

def consoleintr (s : Cons) (c : UInt8) : Cons × Bool :=
  if c = ctrl 'P' then (s, false)
  else if c = ctrl 'U' then (killLine s, false)
  else if c = ctrl 'H' ∨ c = delete then
    (if s.e ≠ s.w then { s with e := s.e - 1 } else s, false)
  else if c ≠ 0 ∧ (s.e - s.r).toNat < inputBufSize then
    let c := if c = carriageReturn then newline else c
    let s := store s c
    if c = newline ∨ c = ctrl 'D' ∨ (s.e - s.r).toNat = inputBufSize then ({ s with w := s.e }, true)
    else (s, false)
  else (s, false)

/-- How a critical section of `consoleread` ends. -/
inductive ReadEnd
  | waits
  | full
  | line
  | eof
  | saved
  | refused (c : UInt8)
  deriving DecidableEq

/-- What the section has taken off the buffer last, without handing it over. -/
def ReadEnd.lost : ReadEnd → List UInt8
  | .eof => [ctrl 'D']
  | .refused c => [c]
  | _ => []

/-- The loop of `consoleread` with `n` bytes still to come; `accepts i` is the answer of
`either_copyout` for the byte at offset `i` of the destination. The result lists the bytes
copied and the new `n`. -/
def readLoop (accepts : Nat → Bool) (target : Nat) : Nat → Cons → Cons × List UInt8 × Nat × ReadEnd
  | 0, s => (s, [], 0, .full)
  | n + 1, s =>
    if s.r = s.w then (s, [], n + 1, .waits)
    else
      let c := s.buf (slot s.r)
      let s := { s with r := s.r + 1 }
      if c = ctrl 'D' then
        if n + 1 < target then ({ s with r := s.r - 1 }, [], n + 1, .saved)
        else (s, [], n + 1, .eof)
      else if accepts (target - (n + 1)) = false then (s, [], n + 1, .refused c)
      else if c = newline then (s, [c], n, .line)
      else
        let (s, copied, left, how) := readLoop accepts target n s
        (s, c :: copied, left, how)

/-- A process inside `consoleread`: what it asked for, what is still to come, and the bytes
that it has been given so far. -/
structure Call where
  accepts : Nat → Bool
  target : Nat
  n : Nat
  got : List UInt8

inductive Place
  | out
  | reading (call : Call) (asleep : Bool)

structure State (P : Type) where
  cons : Cons
  place : P → Place

/-- The console before any input. -/
def consoleinit (P : Type) (buf : Fin inputBufSize → UInt8) : State P where
  cons := { buf := buf, r := 0, w := 0, e := 0 }
  place _ := .out

def Place.wake : Place → Place
  | .reading call _ => .reading call false
  | .out => .out

inductive Act (P : Type)
  | intr (c : UInt8)
  | read (p : P) (n : Int) (accepts : Nat → Bool) (killed : Bool)
  | resume (p : P) (killed : Bool)
  | kill (p : P)

/-- What is seen of a section of `consoleread`: the call, with all that it has been given, the
bytes copied in this section, how it ends, and what the call returns, if it does. -/
inductive Event
  | taken (call : Call) (copied : List UInt8) (how : ReadEnd) (result : Option Int)
  | other

section
variable {P : Type} [DecidableEq P] (s : State P)

def consoleread (p : P) (call : Call) (killed : Bool) : State P × Event :=
  let (cons, copied, left, how) := readLoop call.accepts call.target call.n s.cons
  let call := { call with n := left, got := call.got ++ copied }
  if how = .waits then
    if killed then
      ({ cons := cons, place := Function.update s.place p .out }, .taken call copied how (some (-1)))
    else
      ({ cons := cons, place := Function.update s.place p (.reading call true) },
        .taken call copied how none)
  else
    ({ cons := cons, place := Function.update s.place p .out },
      .taken call copied how (some ((call.target : Int) - left)))

def next : Act P → Option (State P × Event)
  | .intr c =>
    let (cons, wakeup) := consoleintr s.cons c
    some ({ cons := cons, place := fun q => if wakeup then (s.place q).wake else s.place q }, .other)
  | .read p n accepts killed =>
    match s.place p with
    | .out => some (consoleread s p ⟨accepts, n.toNat, n.toNat, []⟩ killed)
    | .reading _ _ => none
  | .resume p killed =>
    match s.place p with
    | .reading call false => some (consoleread s p call killed)
    | _ => none
  | .kill p => some ({ s with place := Function.update s.place p (s.place p).wake }, .other)

end

def Step {P : Type} [DecidableEq P] (s : State P) (a : Act P × Event) (t : State P) : Prop :=
  next s a.1 = some (t, a.2)

/-- A line editor: the input that has been committed, the line under edit, and how much of the
committed input readers have consumed. -/
structure Editor where
  sent : List UInt8
  line : List UInt8
  taken : Nat

def Editor.Full (x : Editor) : Prop := x.sent.length + x.line.length = x.taken + inputBufSize

instance (x : Editor) : Decidable x.Full := inferInstanceAs (Decidable (_ = _))

/-- One more character of the line; a whole line, an end of file and a full console are committed. -/
def Editor.type (x : Editor) (c : UInt8) : Editor :=
  let x := { x with line := x.line ++ [c] }
  if c = newline ∨ c = ctrl 'D' ∨ x.Full then { x with sent := x.sent ++ x.line, line := [] } else x

def Editor.key (x : Editor) (c : UInt8) : Editor :=
  if c = ctrl 'P' then x
  else if c = ctrl 'U' then { x with line := [] }
  else if c = ctrl 'H' ∨ c = delete then { x with line := x.line.dropLast }
  else if c = 0 ∨ x.Full then x
  else x.type (if c = carriageReturn then newline else c)

def takeLine (target : Nat) : Nat → List UInt8 → List UInt8 × ReadEnd
  | 0, _ => ([], .full)
  | _ + 1, [] => ([], .waits)
  | n + 1, c :: rest =>
    if c = ctrl 'D' then ([], if n + 1 < target then .saved else .eof)
    else if c = newline then ([c], .line)
    else
      let (copied, how) := takeLine target n rest
      (c :: copied, how)

def Editor.pending (x : Editor) : List UInt8 := x.sent.drop x.taken

def Editor.consume (x : Editor) (count : Nat) : Editor := { x with taken := x.taken + count }

structure Edits (s : Cons) (x : Editor) : Prop where
  r : s.r.toNat = x.taken % 2 ^ 32
  w : s.w.toNat = x.sent.length % 2 ^ 32
  e : s.e.toNat = (x.sent ++ x.line).length % 2 ^ 32
  le : x.taken ≤ x.sent.length
  shows : Window.Shows s.buf (x.sent ++ x.line) x.taken
  plain : newline ∉ x.line

variable {s t : Cons} {x : Editor}

section
variable (h : Edits s x)
include h

lemma Edits.size : x.sent.length + x.line.length ≤ x.taken + 128 := by
  have fits := h.shows.fits
  rwa [length_append] at fits

lemma Edits.distance_e : (s.e - s.r).toNat = x.sent.length + x.line.length - x.taken := by
  have size := h.size
  have le := h.shows.le
  rw [toNat_sub, h.r, h.e, ← length_append]
  rw [length_append] at le
  exact Window.distance (by rw [length_append]; exact le) (by rw [length_append]; omega)

lemma Edits.distance_w : (s.w - s.r).toNat = x.sent.length - x.taken := by
  have size := h.size
  rw [toNat_sub, h.r, h.w]
  exact Window.distance h.le (by omega)

lemma Edits.distance_line : (s.e - s.w).toNat = x.line.length := by
  have size := h.size
  have le := h.le
  rw [toNat_sub, h.w, h.e, length_append, Window.distance (by omega) (by omega)]
  omega

lemma Edits.line_iff : s.e = s.w ↔ x.line = [] := by
  have size := h.size
  have le := h.le
  rw [← toNat_inj, h.e, h.w, length_append, Window.mod_eq_iff (by omega) (by omega), ← List.length_eq_zero_iff]
  omega

lemma Edits.pending_iff : s.r = s.w ↔ x.pending = [] := by
  have size := h.size
  rw [← toNat_inj, h.r, h.w, eq_comm, Window.mod_eq_iff h.le (by omega), Editor.pending, List.drop_eq_nil_iff]
  have le := h.le
  omega

end

lemma toNat_pred {a : UInt32} (h : a.toNat = (k + 1) % 2 ^ 32) : (a - 1).toNat = k % 2 ^ 32 := by
  rw [toNat_sub, h]
  change (2 ^ 32 - 1 + (k + 1) % 2 ^ 32) % 2 ^ 32 = k % 2 ^ 32
  omega

lemma toNat_succ {a : UInt32} (h : a.toNat = k % 2 ^ 32) : (a + 1).toNat = (k + 1) % 2 ^ 32 := by
  rw [toNat_add, h]
  exact Nat.mod_add_mod _ _ _

lemma slot_eq (h : a.toNat = k % 2 ^ 32) : slot a = Fin.ofNat inputBufSize k := by
  rw [slot, h]
  exact Window.ofNat_mod (by decide) _

lemma Edits.back (h : Edits s x) {line : List UInt8} (eq : x.line = line ++ [c]) :
    Edits { s with e := s.e - 1 } { x with line := line } ∧ s.buf (slot (s.e - 1)) = c := by
  have total : (x.sent ++ x.line).length = (x.sent ++ line).length + 1 := by
    rw [eq, ← append_assoc, length_append, length_singleton]
  have index := toNat_pred (by rw [h.e, total])
  have le : x.taken ≤ (x.sent ++ line).length := by
    have le := h.le
    rw [length_append]
    omega
  have shows := h.shows
  rw [eq, ← append_assoc] at shows
  refine ⟨⟨h.r, h.w, index, h.le, shows.drop_last le, fun mem => ?_⟩, ?_⟩
  · refine h.plain ?_
    rw [eq]
    exact List.mem_append_left _ mem
  · rw [slot_eq index]
    exact shows.slot _ c le (by rw [List.getElem?_append_right le_rfl, Nat.sub_self]; rfl)

lemma killFrom_edits (line) : ∀ {s : Cons} {x : Editor}, Edits s x → x.line = line →
    Edits (killFrom line.length s) { x with line := [] } := by
  induction line using List.reverseRecOn with
  | nil =>
    intro s x h eq
    obtain ⟨sent, line, taken⟩ := x
    subst eq
    exact h
  | append_singleton line c ih =>
    intro s x h eq
    have some : s.e ≠ s.w := by
      rw [ne_eq, h.line_iff, eq]
      exact List.append_ne_nil_of_right_ne_nil _ (List.cons_ne_nil _ _)
    obtain ⟨shorter, last⟩ := h.back eq
    have plain : c ≠ newline := by
      rintro rfl
      refine h.plain ?_
      rw [eq]
      exact List.mem_append_right _ (List.mem_singleton_self _)
    rw [length_append, length_singleton, killFrom, last, if_pos ⟨some, plain⟩]
    exact ih (x := { x with line := line }) shorter rfl

section
variable (h : Edits s x)
include h

lemma Edits.stored (room : ¬ x.Full) (c) : (store s c).e.toNat = (x.sent ++ (x.line ++ [c])).length % 2 ^ 32 ∧
    Window.Shows (store s c).buf (x.sent ++ (x.line ++ [c])) x.taken := by
  have fits : (x.sent ++ x.line).length < x.taken + inputBufSize := by
    refine lt_of_le_of_ne h.shows.fits fun eq => room ?_
    rwa [length_append] at eq
  rw [← append_assoc, length_append, length_singleton]
  refine ⟨toNat_succ h.e, ?_⟩
  have shows := h.shows.push fits c
  dsimp only [store]
  rwa [slot_eq h.e]

lemma Edits.append (room : ¬ x.Full) (plain : c ≠ newline) : Edits (store s c) { x with line := x.line ++ [c] } := by
  obtain ⟨e, shows⟩ := h.stored room c
  refine ⟨h.r, h.w, e, h.le, shows, fun mem => ?_⟩
  rcases mem_append.mp mem with old | new
  · exact h.plain old
  · exact plain (List.mem_singleton.mp new).symm

lemma Edits.commit (room : ¬ x.Full) (c) :
    Edits { store s c with w := (store s c).e } { x with sent := x.sent ++ (x.line ++ [c]), line := [] } := by
  obtain ⟨e, shows⟩ := h.stored room c
  refine ⟨h.r, e, ?_, ?_, ?_, not_mem_nil⟩
  · rw [append_nil]
    exact e
  · exact shows.le
  · rw [append_nil]
    exact shows

lemma Edits.full_iff : (s.e - s.r).toNat = inputBufSize ↔ x.Full := by
  have le := h.le
  rw [h.distance_e, Editor.Full]
  omega

lemma Edits.stored_full_iff (room : ¬ x.Full) (c) :
    ((store s c).e - (store s c).r).toNat = inputBufSize ↔ ({ x with line := x.line ++ [c] } : Editor).Full := by
  obtain ⟨e, shows⟩ := h.stored room c
  have fits := shows.fits
  have r : (store s c).r.toNat = x.taken % 2 ^ 32 := h.r
  unfold inputBufSize at fits
  have le := shows.le
  rw [toNat_sub, r, e, Window.distance le (by omega)]
  change _ ↔ x.sent.length + (x.line ++ [c]).length = x.taken + inputBufSize
  rw [← length_append]
  omega

lemma Edits.type (room : ¬ x.Full) (c) :
    Edits (if c = newline ∨ c = ctrl 'D' ∨ ((store s c).e - (store s c).r).toNat = inputBufSize then
      { store s c with w := (store s c).e } else store s c) (x.type c) := by
  have full := h.stored_full_iff room c
  unfold Editor.type
  by_cases whole : c = newline ∨ c = ctrl 'D' ∨ ((store s c).e - (store s c).r).toNat = inputBufSize
  · rw [if_pos whole, if_pos (whole.imp_right (Or.imp_right full.mp))]
    exact h.commit room c
  · rw [if_neg whole, if_neg fun other => whole (other.imp_right (Or.imp_right full.mpr))]
    exact h.append room fun eq => whole (.inl eq)

lemma Edits.key (c) : Edits (consoleintr s c).1 (x.key c) := by
  unfold consoleintr Editor.key
  by_cases dump : c = ctrl 'P'
  · rw [if_pos dump, if_pos dump]
    exact h
  rw [if_neg dump, if_neg dump]
  by_cases kill : c = ctrl 'U'
  · rw [if_pos kill, if_pos kill]
    dsimp only
    rw [killLine, h.distance_line]
    exact killFrom_edits x.line h rfl
  rw [if_neg kill, if_neg kill]
  by_cases erase : c = ctrl 'H' ∨ c = delete
  · rw [if_pos erase, if_pos erase]
    dsimp only
    rcases List.eq_nil_or_concat x.line with none | ⟨line, last, eq⟩
    · rw [if_neg (not_not_intro (h.line_iff.mpr none)), none]
      obtain ⟨sent, line, taken⟩ := x
      subst none
      exact h
    · rw [List.concat_eq_append] at eq
      have some : s.e ≠ s.w := by
        rw [ne_eq, h.line_iff, eq]
        exact List.append_ne_nil_of_right_ne_nil _ (List.cons_ne_nil _ _)
      rw [if_pos some, eq, List.dropLast_concat]
      exact (h.back eq).1
  rw [if_neg erase, if_neg erase]
  have le := h.size
  have full := h.full_iff
  have bound : (s.e - s.r).toNat ≤ inputBufSize := by
    rw [h.distance_e]
    unfold inputBufSize
    omega
  by_cases drop : c = 0 ∨ x.Full
  · rw [if_pos drop, if_neg]
    · exact h
    · rintro ⟨some, room⟩
      rcases drop with zero | filled
      · exact some zero
      · have := full.mpr filled
        omega
  · have room : ¬ x.Full := fun filled => drop (.inr filled)
    have ne : (s.e - s.r).toNat ≠ inputBufSize := fun eq => room (full.mp eq)
    rw [if_neg drop, if_pos ⟨fun zero => drop (.inl zero), by omega⟩]
    have typed := h.type room (if c = carriageReturn then newline else c)
    rw [apply_ite Prod.fst]
    exact typed

lemma Edits.take (some : s.r ≠ s.w) : Edits { s with r := s.r + 1 } (x.consume 1) ∧
    x.pending = s.buf (slot s.r) :: (x.consume 1).pending := by
  have more : x.taken < x.sent.length := by
    refine lt_of_le_of_ne h.le fun eq => some (h.pending_iff.mpr ?_)
    rw [Editor.pending, eq, List.drop_length]
  have within : x.taken < (x.sent ++ x.line).length := by
    rw [length_append]
    omega
  obtain ⟨shows, first⟩ := h.shows.pop within
  refine ⟨⟨toNat_succ h.r, h.w, h.e, more, shows, h.plain⟩, ?_⟩
  rw [List.getElem?_append_left more, List.getElem?_eq_getElem more] at first
  rw [Editor.pending, List.drop_eq_getElem_cons more, slot_eq h.r]
  exact congrArg (· :: _) (Option.some.inj first)

end

lemma Editor.consume_consume (x : Editor) (a b) : (x.consume a).consume b = x.consume (a + b) := by
  rw [Editor.consume, Editor.consume, Editor.consume, add_assoc]

lemma readLoop_edits (all : ∀ i, i < target → accepts i = true)
    (n) : ∀ {s : Cons} {x : Editor}, Edits s x → n ≤ target → ∃ t, readLoop accepts target n s =
          (t, (takeLine target n x.pending).1, n - (takeLine target n x.pending).1.length,
            (takeLine target n x.pending).2) ∧
        Edits t (x.consume ((takeLine target n x.pending).1 ++ (takeLine target n x.pending).2.lost).length) := by
  induction n with
  | zero => exact fun h _ => ⟨_, rfl, h⟩
  | succ n ih =>
    intro s x h le
    unfold readLoop
    by_cases none : s.r = s.w
    · rw [if_pos none, h.pending_iff.mp none]
      exact ⟨s, rfl, h⟩
    obtain ⟨rest, first⟩ := h.take none
    rw [if_neg none, first]
    unfold takeLine
    by_cases mark : s.buf (slot s.r) = ctrl 'D'
    · rw [if_pos mark, if_pos mark]
      split_ifs with later
      · refine ⟨s, ?_, h⟩
        rw [UInt32.add_sub_cancel]
        rfl
      · exact ⟨_, rfl, rest⟩
    rw [if_neg mark, if_neg mark, if_neg (by rw [all _ (by omega)]; exact Bool.true_eq_false_eq_False)]
    by_cases whole : s.buf (slot s.r) = newline
    · rw [if_pos whole, if_pos whole]
      exact ⟨_, rfl, rest⟩
    rw [if_neg whole, if_neg whole]
    obtain ⟨t, eq, later⟩ := ih rest (by omega)
    refine ⟨t, ?_, ?_⟩
    · rw [eq]
      rw [List.length_cons, Nat.add_sub_add_right]
    · rw [Editor.consume_consume, add_comm 1] at later
      exact later

/-- How a call ends that has been given `got`, with `rest` committed and not yet read. -/
inductive Ends (target : Nat) (got rest : List UInt8) : ReadEnd → Prop
  | waits : rest = [] → got.length < target → newline ∉ got → Ends target got rest .waits
  | full : got.length = target → newline ∉ got → Ends target got rest .full
  | line (body : List UInt8) : got = body ++ [newline] → newline ∉ body → got.length ≤ target →
      Ends target got rest .line
  | eof : got = [] → 0 < target → Ends target got rest .eof
  | saved : got ≠ [] → rest.head? = some (ctrl 'D') → newline ∉ got → got.length < target →
      Ends target got rest .saved

lemma Ends.length_le (h : Ends target got rest how) : got.length ≤ target := by
  cases h with
  | waits _ short _ => exact short.le
  | full size _ => exact size.le
  | line _ _ _ size => exact size
  | eof none _ =>
    rw [none]
    exact Nat.zero_le _
  | saved _ _ _ short => exact short.le

lemma takeLine_ends (n) : ∀ prior queue, newline ∉ prior → prior.length + n = target →
    ∃ rest, queue = (takeLine target n queue).1 ++ (takeLine target n queue).2.lost ++ rest ∧
      Ends target (prior ++ (takeLine target n queue).1) rest (takeLine target n queue).2 ∧
      ctrl 'D' ∉ (takeLine target n queue).1 := by
  induction n with
  | zero =>
    intro prior queue plain size
    unfold takeLine
    refine ⟨queue, rfl, .full ?_ ?_, not_mem_nil⟩
    · rw [append_nil]
      exact size
    · rwa [append_nil]
  | succ n ih =>
    intro prior queue plain size
    cases queue with
    | nil =>
      refine ⟨[], rfl, .waits rfl ?_ ?_, not_mem_nil⟩
      · rw [takeLine, append_nil]
        omega
      · rwa [takeLine, append_nil]
    | cons c queue =>
      unfold takeLine
      by_cases mark : c = ctrl 'D'
      · rw [if_pos mark]
        rw [append_nil]
        split_ifs with later
        · refine ⟨c :: queue, rfl, .saved ?_ (by rw [mark]; rfl) plain (by omega), not_mem_nil⟩
          rintro rfl
          rw [List.length_nil] at size
          omega
        · refine ⟨queue, by rw [mark]; rfl, .eof ?_ (by omega), not_mem_nil⟩
          exact List.length_eq_zero_iff.mp (by omega)
      rw [if_neg mark]
      by_cases whole : c = newline
      · rw [if_pos whole]
        refine ⟨queue, rfl, .line prior (by rw [whole]) plain ?_, ?_⟩
        · rw [length_append, length_singleton]
          omega
        · rw [List.mem_singleton]
          exact fun eq => mark eq.symm
      rw [if_neg whole]
      have plain' : newline ∉ prior ++ [c] := by
        rw [mem_append, List.mem_singleton]
        rintro (old | new)
        · exact plain old
        · exact whole new.symm
      obtain ⟨rest, split, ends, none⟩ := ih (prior ++ [c]) queue plain' (by
        rw [length_append, length_singleton]
        omega)
      rw [append_assoc] at ends
      refine ⟨rest, ?_, ends, ?_⟩
      · rw [List.cons_append, List.cons_append, ← split]
      · rw [List.mem_cons]
        rintro (eq | later)
        · exact mark eq.symm
        · exact none later

section
variable {P : Type} {s t : State P} {a : Act P × Event}

def Accepting : Act P → Prop
  | .read _ n accepts _ => ∀ i, i < n.toNat → accepts i = true
  | _ => True

/-- The editor after a run: it sees the characters typed and how many bytes the readers took. -/
def note (x : Editor) (a : Act P × Event) : Editor :=
  match a with
  | (.intr c, _) => x.key c
  | (_, .taken _ copied how _) => x.consume (copied ++ how.lost).length
  | _ => x

def editor (as : List (Act P × Event)) : Editor := as.foldl note ⟨[], [], 0⟩

def consumed (as : List (Act P × Event)) : List UInt8 :=
  as.flatMap fun a => match a.2 with
    | .taken _ copied how _ => copied ++ how.lost
    | .other => []

def handed (as : List (Act P × Event)) : List UInt8 :=
  as.flatMap fun a => match a.2 with
    | .taken _ copied _ _ => copied
    | .other => []

def committed (s : Cons) : List UInt8 :=
  (List.range (s.w - s.r).toNat).map fun j => s.buf (slot (s.r + UInt32.ofNat j))

structure Waiting (call : Call) : Prop where
  size : call.got.length + call.n = call.target
  plain : newline ∉ call.got
  unmarked : ctrl 'D' ∉ call.got
  accepts : ∀ i, i < call.target → call.accepts i = true

/-- A character only adds to the committed input. -/
lemma key_sent (x : Editor) (c) : ∃ more, (x.key c).sent = x.sent ++ more ∧ (x.key c).taken = x.taken := by
  unfold Editor.key
  split_ifs
  · exact ⟨[], (append_nil _).symm, rfl⟩
  · exact ⟨[], (append_nil _).symm, rfl⟩
  · exact ⟨[], (append_nil _).symm, rfl⟩
  · exact ⟨[], (append_nil _).symm, rfl⟩
  · unfold Editor.type
    dsimp only
    split_ifs
    · exact ⟨_, rfl, rfl⟩
    · exact ⟨[], (append_nil _).symm, rfl⟩
  · unfold Editor.type
    dsimp only
    split_ifs
    · exact ⟨_, rfl, rfl⟩
    · exact ⟨[], (append_nil _).symm, rfl⟩

/-- What holds after a run: the buffer shows the editor, and the readers have consumed the front
of the committed input. -/
structure Disciplined (as : List (Act P × Event)) (t : State P) : Prop where
  edits : Edits t.cons (editor as)
  front : consumed as = (editor as).sent.take (editor as).taken
  text : handed as = (consumed as).filter (· ≠ ctrl 'D')
  waiting : ∀ q call asleep, t.place q = .reading call asleep → Waiting call

variable {as : List (Act P × Event)}

lemma editor_append (as : List (Act P × Event)) (a) : editor (as ++ [a]) = note (editor as) a := by
  rw [editor, List.foldl_append]
  rfl

lemma filter_section {how : ReadEnd} (unmarked : ctrl 'D' ∉ copied)
    (benign : ∀ c, how ≠ .refused c) : (copied ++ how.lost).filter (· ≠ ctrl 'D') = copied := by
  have kept : copied.filter (· ≠ ctrl 'D') = copied := by
    refine List.filter_eq_self.mpr fun c mem => decide_eq_true ?_
    rintro rfl
    exact unmarked mem
  have dropped : how.lost.filter (· ≠ ctrl 'D') = [] := by
    cases how with
    | refused c => exact absurd rfl (benign c)
    | eof => rfl
    | waits => rfl
    | full => rfl
    | line => rfl
    | saved => rfl
  rw [List.filter_append, kept, dropped, append_nil]

lemma Ends.not_refused (h : Ends target got rest how) (c) : how ≠ .refused c := by
  rintro rfl
  cases h

lemma wake_reading {place : Place} (h : place.wake = .reading call asleep) : ∃ was, place = .reading call was := by
  cases place with
  | out => cases h
  | reading call' was =>
    cases h
    exact ⟨was, rfl⟩

lemma Disciplined.quiet (h : Disciplined as s) (edits : Edits t.cons (editor (as ++ [(act, Event.other)])))
    (sent : ∃ more, (editor (as ++ [(act, Event.other)])).sent = (editor as).sent ++ more)
    (taken : (editor (as ++ [(act, Event.other)])).taken = (editor as).taken)
    (places : ∀ q call asleep, t.place q = .reading call asleep → ∃ was, s.place q = .reading call was) :
    Disciplined (as ++ [(act, .other)]) t := by
  have took : consumed (as ++ [(act, Event.other)]) = consumed as := by
    rw [consumed, flatMap_append, List.flatMap_singleton]
    exact append_nil _
  obtain ⟨more, sent⟩ := sent
  refine ⟨edits, ?_, ?_, fun q call asleep place => ?_⟩
  · rw [took, sent, taken, List.take_append_of_le_length h.edits.le, h.front]
  · rw [took, ← h.text, handed, flatMap_append, List.flatMap_singleton]
    exact append_nil _
  · obtain ⟨was, old⟩ := places q call asleep place
    exact h.waiting q call was old

variable [DecidableEq P]

lemma consoleread_spec (h : Edits s.cons x) (waiting : Waiting call) (hs : consoleread s p call killed = (t, e)) :
    ∃ call' copied how result rest, e = .taken call' copied how result ∧
      x.pending = copied ++ how.lost ++ rest ∧ ctrl 'D' ∉ copied ∧
      Edits t.cons (x.consume (copied ++ how.lost).length) ∧
      Ends call'.target call'.got rest how ∧ ctrl 'D' ∉ call'.got ∧
      (∀ r, result = some r → r = -1 ∧ how = .waits ∨ r = call'.got.length ∧ how ≠ .waits) ∧
      ∀ q later asleep, t.place q = .reading later asleep → s.place q = .reading later asleep ∨ Waiting later := by
  have total : call.n ≤ call.target := by
    have := waiting.size
    omega
  obtain ⟨cons, ran, edits⟩ := readLoop_edits waiting.accepts call.n h total
  obtain ⟨rest, split, ends, unmarked⟩ := takeLine_ends call.n call.got x.pending waiting.plain waiting.size
  unfold consoleread at hs
  rw [ran] at hs
  have clean : ctrl 'D' ∉ call.got ++ (takeLine call.target call.n x.pending).1 := by
    rw [mem_append]
    exact fun mem => mem.elim waiting.unmarked unmarked
  generalize (takeLine call.target call.n x.pending).1 = copied at *
  generalize (takeLine call.target call.n x.pending).2 = how at *
  dsimp only at hs
  have others : ∀ (here : Place) q later asleep, update s.place p here q = .reading later asleep →
    s.place q = .reading later asleep ∨ here = .reading later asleep := by
    intro here q later asleep eq
    by_cases self : q = p
    · subst self
      rw [update_self] at eq
      exact .inr eq
    · rw [update_of_ne self] at eq
      exact .inl eq
  by_cases wait : how = .waits
  · rw [if_pos wait] at hs
    subst wait
    obtain ⟨-, short, plain⟩ : rest = [] ∧ (call.got ++ copied).length < call.target ∧
      newline ∉ call.got ++ copied := by
      cases ends with
      | waits none short plain => exact ⟨none, short, plain⟩
    cases killed with
    | true =>
      cases hs
      refine ⟨_, copied, .waits, some (-1), rest, rfl, split, unmarked, edits, ends, clean, fun r eq => ?_,
        fun q later asleep place => ?_⟩
      · exact .inl ⟨(some.inj eq).symm, rfl⟩
      · rcases others _ q later asleep place with old | new
        · exact .inl old
        · cases new
    | false =>
      cases hs
      refine ⟨_, copied, .waits, none, rest, rfl, split, unmarked, edits, ends, clean, nofun,
        fun q later asleep place => ?_⟩
      rcases others _ q later asleep place with old | new
      · exact .inl old
      · right
        cases new
        refine ⟨?_, plain, clean, waiting.accepts⟩
        have size := waiting.size
        rw [length_append] at short ⊢
        dsimp only
        omega
  · rw [if_neg wait] at hs
    cases hs
    refine ⟨_, copied, how, _, rest, rfl, split, unmarked, edits, ends, clean, fun r eq => ?_,
      fun q later asleep place => ?_⟩
    · refine .inr ⟨?_, wait⟩
      rw [← some.inj eq]
      have fits := ends.length_le
      have size := waiting.size
      rw [length_append] at fits
      rw [length_append]
      omega
    · rcases others _ q later asleep place with old | new
      · exact .inl old
      · cases new

lemma Disciplined.read (h : Disciplined as s) {call : Call}
    (waiting : Waiting call) (hs : consoleread s p call killed = (t, e)) (reads : ∀ c, act ≠ .intr c) :
    Disciplined (as ++ [(act, e)]) t := by
  obtain ⟨call', copied, how, result, rest, rfl, split, unmarked, edits, ends, -, -, places⟩ :=
    consoleread_spec h.edits waiting hs
  have seen : editor (as ++ [(act, Event.taken call' copied how result)]) =
    (editor as).consume (copied ++ how.lost).length := by
    rw [editor_append]
    cases act with
    | intr c => exact absurd rfl (reads c)
    | read => rfl
    | resume => rfl
    | kill => rfl
  have took : consumed (as ++ [(act, Event.taken call' copied how result)]) = consumed as ++ (copied ++ how.lost) := by
    rw [consumed, flatMap_append, List.flatMap_singleton]
    rfl
  refine ⟨seen ▸ edits, ?_, ?_, fun q later asleep place => ?_⟩
  · rw [seen, took, h.front]
    rw [Editor.pending] at split
    rw [Editor.consume, List.take_add, split, List.take_left']
    rfl
  · rw [took, List.filter_append, filter_section unmarked ends.not_refused, ← h.text, handed,
      flatMap_append, List.flatMap_singleton]
    rfl
  · rcases places q later asleep place with old | new
    · exact h.waiting q later asleep old
    · exact new

lemma next_intr (s : State P) (c) (e : Event) : next s (Act.intr c, e).1 = some (⟨(consoleintr s.cons c).1,
    fun q => if (consoleintr s.cons c).2 then (s.place q).wake else s.place q⟩, .other) :=
  rfl

lemma Disciplined.step (h : Disciplined as s) (hs : Step s a t) (accepting : Accepting a.1) :
    Disciplined (as ++ [a]) t := by
  obtain ⟨act, e⟩ := a
  unfold Step at hs
  cases act with
  | intr c =>
    rw [next_intr] at hs
    cases hs
    have seen : editor (as ++ [(Act.intr c, Event.other)]) = (editor as).key c := editor_append ..
    obtain ⟨more, sent, taken⟩ := key_sent (editor as) c
    refine h.quiet (seen ▸ h.edits.key c) ⟨more, seen ▸ sent⟩ (seen ▸ taken) fun q call asleep place => ?_
    dsimp only at place
    split_ifs at place
    · exact wake_reading place
    · exact ⟨asleep, place⟩
  | read p n accepts killed =>
    simp only [next] at hs
    split at hs <;> try contradiction
    have waiting : Waiting ⟨accepts, n.toNat, n.toNat, []⟩ := ⟨zero_add _, not_mem_nil, not_mem_nil, accepting⟩
    exact h.read waiting (some.inj hs) nofun
  | resume p killed =>
    simp only [next] at hs
    split at hs <;> try contradiction
    exact h.read (h.waiting p _ _ ‹_›) (some.inj hs) nofun
  | kill p =>
    cases hs
    have seen : editor (as ++ [(Act.kill p, Event.other)]) = editor as := editor_append ..
    refine h.quiet (seen ▸ h.edits) ⟨[], by rw [seen, append_nil]⟩ (by rw [seen]) fun q call asleep place => ?_
    dsimp only at place
    by_cases self : q = p
    · subst self
      rw [update_self] at place
      exact wake_reading place
    · rw [update_of_ne self] at place
      exact ⟨asleep, place⟩

lemma Disciplined.section_of_step (h : Disciplined as s) (hs : Step s (act, .taken call copied how result) t)
    (accepting : Accepting act) : ∃ p started killed, Waiting started ∧
      consoleread s p started killed = (t, .taken call copied how result) := by
  unfold Step at hs
  cases act with
  | intr c =>
    cases (Prod.mk.inj (some.inj hs)).2
  | read p n accepts killed =>
    simp only [next] at hs
    split at hs <;> try contradiction
    exact ⟨p, ⟨accepts, n.toNat, n.toNat, []⟩, killed, ⟨zero_add _, not_mem_nil, not_mem_nil, accepting⟩, some.inj hs⟩
  | resume p killed =>
    simp only [next] at hs
    split at hs <;> try contradiction
    exact ⟨p, _, killed, h.waiting p _ _ ‹_›, some.inj hs⟩
  | kill p => cases (Prod.mk.inj (some.inj hs)).2

lemma disciplined_of_run
    (run : Run (Meets Step fun _ a => Accepting a.1) (consoleinit P buf) as t) : Disciplined as t := by
  refine run.history Disciplined (fun as s a t _ h hs => h.step hs.1 hs.2) ?_
  exact ⟨⟨rfl, rfl, rfl, le_rfl, Window.shows_nil buf, not_mem_nil⟩, rfl, rfl, nofun⟩

lemma Edits.committed_eq (h : Edits cons x) : committed cons = x.pending := by
  apply List.ext_getElem?
  intro j
  rw [committed, h.distance_w, List.getElem?_map, Editor.pending, List.getElem?_drop]
  by_cases hj : j < x.sent.length - x.taken
  · have within : x.taken + j < x.sent.length := by omega
    rw [List.getElem?_range hj, map_some, List.getElem?_eq_getElem within]
    have place : slot (cons.r + UInt32.ofNat j) = Fin.ofNat inputBufSize (x.taken + j) := by
      refine slot_eq ?_
      rw [toNat_add, h.r, UInt32.toNat_ofNat']
      exact (Nat.add_mod _ _ _).symm
    rw [place, h.shows.slot _ _ (Nat.le_add_right ..)]
    rw [List.getElem?_append_left within, List.getElem?_eq_getElem within]
  · rw [List.getElem?_eq_none (by simpa using hj), List.getElem?_eq_none (by omega)]
    rfl

lemma killFrom_kept (fuel) : ∀ s, (killFrom fuel s).buf = s.buf ∧ (killFrom fuel s).r = s.r ∧
    (killFrom fuel s).w = s.w := by
  induction fuel with
  | zero => exact fun s => ⟨rfl, rfl, rfl⟩
  | succ fuel ih =>
    intro s
    unfold killFrom
    split_ifs
    · exact ih _
    · exact ⟨rfl, rfl, rfl⟩

def Erases (c : UInt8) : Prop := c = ctrl 'U' ∨ c = ctrl 'H' ∨ c = delete

lemma erase_kept (erases : Erases c) (s : Cons) : (consoleintr s c).1.buf = s.buf ∧
    (consoleintr s c).1.r = s.r ∧ (consoleintr s c).1.w = s.w := by
  have notDump : c ≠ ctrl 'P' := by
    rcases erases with rfl | rfl | rfl
    · decide
    · decide
    · decide
  unfold consoleintr
  rw [if_neg notDump]
  by_cases kill : c = ctrl 'U'
  · rw [if_pos kill]
    exact killFrom_kept _ s
  rw [if_neg kill, if_pos (erases.resolve_left kill)]
  split_ifs
  · exact ⟨rfl, rfl, rfl⟩
  · exact ⟨rfl, rfl, rfl⟩

/-- The console is a line discipline: its indices stay in order, what has been committed cannot be
taken back, and readers get the committed input in order, at most a line at a time. -/
theorem line_discipline {buf : Fin inputBufSize → UInt8}
    (run : Run (Meets Step fun _ a => Accepting a.1) (consoleinit P buf) as t) :
    ((t.cons.w - t.cons.r).toNat ≤ (t.cons.e - t.cons.r).toNat ∧ (t.cons.e - t.cons.r).toNat ≤ inputBufSize) ∧
    (∀ c, Erases c → committed (consoleintr t.cons c).1 = committed t.cons) ∧
    consumed as = (editor as).sent.take (editor as).taken ∧
    committed t.cons = (editor as).sent.drop (editor as).taken ∧
    handed as = (consumed as).filter (· ≠ ctrl 'D') ∧
    ∀ act call copied how result u, Step t (act, .taken call copied how result) u → Accepting act →
      committed t.cons = copied ++ how.lost ++ committed u.cons ∧
      Ends call.target call.got (committed u.cons) how ∧ ctrl 'D' ∉ call.got ∧
      ∀ r, result = some r → r = -1 ∧ how = .waits ∨ r = call.got.length ∧ how ≠ .waits := by
  have h := disciplined_of_run run
  have le := h.edits.le
  have size := h.edits.size
  refine ⟨⟨?_, ?_⟩, fun c erases => ?_, h.front, h.edits.committed_eq, h.text,
    fun act call copied how result u hs accepting => ?_⟩
  · rw [h.edits.distance_w, h.edits.distance_e]
    omega
  · rw [h.edits.distance_e]
    unfold inputBufSize
    omega
  · obtain ⟨buf, r, w⟩ := erase_kept erases t.cons
    rw [committed, buf, r, w]
    rfl
  · obtain ⟨p, started, killed, waiting, ran⟩ := h.section_of_step hs accepting
    obtain ⟨call', copied', how', result', rest, eq, split, -, edits, ends, clean, ret, -⟩ :=
      consoleread_spec h.edits waiting ran
    cases eq
    have left : committed u.cons = rest := by
      rw [edits.committed_eq, Editor.pending, Editor.consume, ← List.drop_drop]
      rw [Editor.pending] at split
      rw [split, List.drop_left]
    rw [left, h.edits.committed_eq]
    exact ⟨split, ends, clean, ret⟩

end

/-- `a` is typed and erased, `b` and a newline are typed, and a reader asks for ten bytes. -/
def typed : List (Act (Fin 1) × Event) :=
  [(.intr 'a'.toUInt8, .other), (.intr delete, .other), (.intr 'b'.toUInt8, .other),
    (.intr carriageReturn, .other),
    (.read 0 10 (fun _ => true) false,
      .taken ⟨fun _ => true, 10, 8, ['b'.toUInt8, newline]⟩ ['b'.toUInt8, newline] .line (some 2))]

theorem line_discipline_typed :
    ∃ t : State (Fin 1), Run (Meets Step fun _ a => Accepting a.1) (consoleinit (Fin 1) fun _ => 0) typed t ∧
      ['b'.toUInt8, newline] = (editor typed).sent.take (editor typed).taken := by
  have run : ∃ t, Run (Meets Step fun _ a => Accepting a.1) (consoleinit (Fin 1) fun _ => 0) typed t :=
    ⟨_, .cons ⟨rfl, trivial⟩ (.cons ⟨rfl, trivial⟩ (.cons ⟨rfl, trivial⟩ (.cons ⟨rfl, trivial⟩
      (.cons ⟨rfl, fun _ _ => rfl⟩ (.nil _)))))⟩
  obtain ⟨t, run⟩ := run
  exact ⟨t, run, (line_discipline run).2.2.1⟩

end Xv6.Console
