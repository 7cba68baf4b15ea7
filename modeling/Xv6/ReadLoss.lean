import Xv6.Console
import Xv6.PipeFifo
import Xv6.UserCopy

/-! What a read takes off its queue. `piperead` and `consoleread` advance the read index before they
copy the byte, so one whose copy fails is gone uncounted; a `consoleread` that is killed while it
waits does not count what it has copied. -/

namespace Xv6.ReadLoss

open Runs Console UserCopy VmMachine List Function
open PipeFifo (Pipe buffered empty)
open PageMap (freshBoard)

/-- The loop `piperead-copy` with `m` more rounds from index `i`; `accepts i` is the answer of
`copyout` for the address `addr + i`. The result lists the bytes copied, and the byte that
`copyout` refused. -/
def copyLoop (accepts : Nat → Bool) : Nat → Nat → Pipe → Pipe × List UInt8 × Option UInt8
  | _, 0, pi => (pi, [], none)
  | i, m + 1, pi =>
    if empty pi then (pi, [], none)
    else
      let ch := pi.data (PipeFifo.slot pi.nread)
      let pi := { pi with nread := pi.nread + 1 }
      if accepts i = false then (pi, [], some ch)
      else
        let (pi, copied, refused) := copyLoop accepts (i + 1) m pi
        (pi, ch :: copied, refused)

/-- How a critical section of `piperead` ends. -/
inductive PipeEnd
  | sleeps
  | returns (pi : Pipe) (copied : List UInt8) (refused : Option UInt8) (r : Int)

def piperead (pi : Pipe) (n : Int) (accepts : Nat → Bool) (killed : Bool) : PipeEnd :=
  if empty pi ∧ pi.writeopen = true then
    if killed then .returns pi [] none (-1) else .sleeps
  else
    let (pi, copied, refused) := copyLoop accepts 0 n.toNat pi
    .returns pi copied refused copied.length

lemma buffered_between (pi : Pipe) :
    buffered pi = Window.between (fun x => pi.data (PipeFifo.slot x)) pi.nread pi.nwrite :=
  rfl

lemma copyLoop_spec (accepts m) : ∀ i pi,
    buffered pi = (copyLoop accepts i m pi).2.1 ++ (copyLoop accepts i m pi).2.2.toList ++
      buffered (copyLoop accepts i m pi).1 ∧
      ((copyLoop accepts i m pi).2.2 = none ↔ ∀ j, j < min m (buffered pi).length → accepts (i + j) = true) := by
  induction m with
  | zero => exact fun _ _ => ⟨rfl, by simp [copyLoop]⟩
  | succ m ih =>
    intro i pi
    unfold copyLoop
    by_cases none : empty pi
    · have nothing : buffered pi = [] := by simp [buffered, of_decide_eq_true none]
      rw [if_pos none]
      exact ⟨rfl, by simp [nothing]⟩
    have ne : pi.nread ≠ pi.nwrite := fun eq => none (decide_eq_true eq)
    have pop : buffered pi = pi.data (PipeFifo.slot pi.nread) :: buffered { pi with nread := pi.nread + 1 } := by
      rw [buffered_between, Window.between_pop _ ne]
      rfl
    rw [if_neg none]
    by_cases refused : accepts i = false
    · rw [if_pos refused, pop]
      refine ⟨rfl, by simp, fun all => ?_⟩
      have accepted := all 0 (by rw [length_cons]; omega)
      rw [add_zero, refused] at accepted
      cases accepted
    · rw [if_neg refused]
      obtain ⟨split, clean⟩ := ih (i + 1) { pi with nread := pi.nread + 1 }
      refine ⟨by rw [pop, cons_append, cons_append, ← split], clean.trans ⟨fun all j hj => ?_, fun all j hj => ?_⟩⟩
      · cases j with
        | zero => simpa using refused
        | succ j =>
          rw [show i + (j + 1) = i + 1 + j by omega]
          exact all j (by rw [pop, length_cons] at hj; omega)
      · have accepted := all (j + 1) (by rw [pop, length_cons]; omega)
        rwa [show i + (j + 1) = i + 1 + j by omega] at accepted

lemma copyLoop_accepting (m) : ∀ i pi, copyLoop (fun _ => true) i m pi =
    ((PipeFifo.readLoop m pi).1, (PipeFifo.readLoop m pi).2, none) := by
  induction m with
  | zero => exact fun _ _ => rfl
  | succ m ih =>
    intro i pi
    rw [copyLoop, PipeFifo.readLoop]
    split_ifs
    · rfl
    · contradiction
    · dsimp only
      rw [ih]

/-- Where the memory takes all bytes this is the `piperead` of the pipe with its readers and writers. -/
lemma piperead_accepting {P : Type} [DecidableEq P] (s : PipeFifo.State P) (p : P) (n : Int) (killed : Bool) :
    piperead s.pipe n (fun _ => true) killed = match PipeFifo.piperead s p n killed with
      | (t, .taken _ bytes (some r)) => .returns t.pipe bytes none r
      | _ => .sleeps := by
  unfold piperead PipeFifo.piperead
  rw [copyLoop_accepting]
  split_ifs <;> rfl

section
variable {P : Type} [DecidableEq P] {s t : Console.State P} {as : List (Console.Act P × Console.Event)}

lemma readLoop_split (accepts target n) : ∀ s,
    committed s = (Console.readLoop accepts target n s).2.1 ++ (Console.readLoop accepts target n s).2.2.2.lost ++
      committed (Console.readLoop accepts target n s).1 ∧
      (Console.readLoop accepts target n s).2.1.length + (Console.readLoop accepts target n s).2.2.1 = n := by
  induction n with
  | zero => exact fun _ => ⟨rfl, rfl⟩
  | succ n ih =>
    intro s
    unfold Console.readLoop
    by_cases none : s.r = s.w
    · rw [if_pos none]
      exact ⟨rfl, zero_add _⟩
    have pop : committed s = s.buf (Console.slot s.r) :: committed { s with r := s.r + 1 } :=
      Window.between_pop (fun x => s.buf (Console.slot x)) none
    rw [if_neg none]
    by_cases mark : s.buf (Console.slot s.r) = ctrl 'D'
    · rw [if_pos mark]
      split_ifs
      · dsimp only
        rw [UInt32.add_sub_cancel]
        exact ⟨rfl, zero_add _⟩
      · rw [pop, mark]
        exact ⟨rfl, zero_add _⟩
    rw [if_neg mark]
    by_cases refused : accepts (target - (n + 1)) = false
    · rw [if_pos refused, pop]
      exact ⟨rfl, zero_add _⟩
    rw [if_neg refused]
    by_cases whole : s.buf (Console.slot s.r) = newline
    · rw [if_pos whole, pop]
      exact ⟨rfl, add_comm ..⟩
    rw [if_neg whole]
    obtain ⟨split, size⟩ := ih { s with r := s.r + 1 }
    refine ⟨by rw [pop, cons_append, cons_append, ← split], ?_⟩
    rw [length_cons, add_right_comm]
    exact congrArg (· + 1) size

/-- What a section would deliver if the memory took all bytes, and what it does where one is refused. -/
lemma readLoop_takeLine (accepts target n) : ∀ s, n ≤ target →
    if ∀ i, i < (takeLine target n (committed s)).1.length → accepts (target - n + i) = true then
      (Console.readLoop accepts target n s).2.1 = (takeLine target n (committed s)).1 ∧
        (Console.readLoop accepts target n s).2.2.2 = (takeLine target n (committed s)).2
    else ∃ c, (Console.readLoop accepts target n s).2.2.2 = .refused c ∧ c ≠ ctrl 'D' := by
  induction n with
  | zero => exact fun _ _ => by simp [takeLine, Console.readLoop]
  | succ n ih =>
    intro s le
    unfold Console.readLoop
    by_cases none : s.r = s.w
    · have nothing : committed s = [] := by simp [committed, none]
      simp [none, nothing, takeLine]
    have pop : committed s = s.buf (Console.slot s.r) :: committed { s with r := s.r + 1 } :=
      Window.between_pop (fun x => s.buf (Console.slot x)) none
    rw [if_neg none, pop, takeLine]
    by_cases mark : s.buf (Console.slot s.r) = ctrl 'D'
    · rw [if_pos mark, if_pos mark]
      split_ifs <;> simp_all
    rw [if_neg mark, if_neg mark]
    by_cases refused : accepts (target - (n + 1)) = false
    · have first : ¬ ∀ i, i < (if s.buf (Console.slot s.r) = newline then ([s.buf (Console.slot s.r)],
        ReadEnd.line) else
          (s.buf (Console.slot s.r) :: (takeLine target n (committed { s with r := s.r + 1 })).1,
            (takeLine target n (committed { s with r := s.r + 1 })).2)).1.length →
          accepts (target - (n + 1) + i) = true := by
        intro all
        have := all 0 (by split_ifs <;> simp)
        simp [refused] at this
      rw [if_pos refused]
      simp only [first, if_false]
      exact ⟨_, rfl, mark⟩
    rw [if_neg refused]
    by_cases whole : s.buf (Console.slot s.r) = newline
    · simp only [whole, if_true, length_singleton, Nat.lt_one_iff, forall_eq, add_zero]
      simp [Bool.eq_true_of_not_eq_false refused]
    simp only [whole, if_false]
    have later := ih { s with r := s.r + 1 } (by omega)
    have shift : (∀ i, i < (takeLine target n (committed { s with r := s.r + 1 })).1.length + 1 →
        accepts (target - (n + 1) + i) = true) ↔
        ∀ i, i < (takeLine target n (committed { s with r := s.r + 1 })).1.length →
          accepts (target - n + i) = true := by
      refine ⟨fun all i lt => ?_, fun all i lt => ?_⟩
      · have := all (i + 1) (by omega)
        rwa [show target - (n + 1) + (i + 1) = target - n + i by omega] at this
      · cases i with
        | zero => simpa using refused
        | succ i =>
          rw [show target - (n + 1) + (i + 1) = target - n + i by omega]
          exact all i (by omega)
    rw [length_cons, if_congr shift rfl rfl]
    split_ifs at later ⊢
    · exact ⟨congrArg _ later.1, later.2⟩
    · exact later

lemma takeLine_lost (target n queue) : (takeLine target n queue).2.lost = [] ∨
    (takeLine target n queue).2.lost = [ctrl 'D'] := by
  fun_induction takeLine target n queue <;> simp_all [ReadEnd.lost]
  split_ifs <;> simp

def removed (p : P) (as : List (Console.Act P × Console.Event)) : List UInt8 :=
  as.foldl (fun sofar a => match a with
    | (.read q _ _ _, .taken _ copied how _) => if q = p then copied ++ how.lost else sofar
    | (.resume q _, .taken _ copied how _) => if q = p then sofar ++ (copied ++ how.lost) else sofar
    | _ => sofar) []

def caller : Console.Act P → Option P
  | .read p _ _ _ => some p
  | .resume p _ => some p
  | _ => none

structure Counted (as : List (Console.Act P × Console.Event)) (s : Console.State P) : Prop where
  size : ∀ p call asleep, s.place p = .reading call asleep → call.got.length + call.n = call.target
  given : ∀ p call asleep, s.place p = .reading call asleep → removed p as = call.got

lemma consoleread_counted (size : call.got.length + call.n = call.target) (hs : consoleread s p call killed = (t, e)) :
    ∃ call' copied how result, e = .taken call' copied how result ∧ call'.got = call.got ++ copied ∧
      call'.got.length + call'.n = call'.target ∧
      committed s.cons = copied ++ how.lost ++ committed t.cons ∧
      (∀ r, result = some r → r = -1 ∨ r = call'.got.length) ∧
      ∀ q later asleep, t.place q = .reading later asleep →
        q ≠ p ∧ s.place q = .reading later asleep ∨ q = p ∧ later = call' ∧ how = .waits := by
  obtain ⟨split, length⟩ := readLoop_split call.accepts call.target call.n s.cons
  unfold consoleread at hs
  generalize Console.readLoop call.accepts call.target call.n s.cons = ran at *
  obtain ⟨cons, copied, left, how⟩ := ran
  dsimp only at hs split length
  have size' : (call.got ++ copied).length + left = call.target := by
    rw [length_append]
    omega
  have others : ∀ (here : Place) q later asleep, update s.place p here q = .reading later asleep →
    q ≠ p ∧ s.place q = .reading later asleep ∨ q = p ∧ here = .reading later asleep := by
    intro here q later asleep eq
    by_cases self : q = p
    · subst self
      rw [update_self] at eq
      exact .inr ⟨rfl, eq⟩
    · rw [update_of_ne self] at eq
      exact .inl ⟨self, eq⟩
  by_cases wait : how = .waits
  · rw [if_pos wait] at hs
    cases killed with
    | true =>
      cases hs
      refine ⟨_, copied, how, some (-1), rfl, rfl, size', split, fun r eq => .inl (Option.some.inj eq).symm,
        fun q later asleep place => (others _ q later asleep place).imp_right ?_⟩
      rintro ⟨-, out⟩
      cases out
    | false =>
      cases hs
      refine ⟨_, copied, how, none, rfl, rfl, size', split, nofun,
        fun q later asleep place => (others _ q later asleep place).imp_right ?_⟩
      rintro ⟨self, here⟩
      cases here
      exact ⟨self, rfl, wait⟩
  · rw [if_neg wait] at hs
    cases hs
    refine ⟨_, copied, how, _, rfl, rfl, size', split, fun r eq => .inr ?_,
      fun q later asleep place => (others _ q later asleep place).imp_right ?_⟩
    · rw [← Option.some.inj eq]
      dsimp only
      omega
    · rintro ⟨-, out⟩
      cases out

lemma Counted.section (h : Counted as s) (act : Console.Act P) (call) (size : call.got.length + call.n = call.target)
    (hs : consoleread s p call killed = (t, e))
    (self : ∀ copied how result call', e = .taken call' copied how result →
      removed p (as ++ [(act, e)]) = call.got ++ (copied ++ how.lost))
    (others : ∀ q, q ≠ p → removed q (as ++ [(act, e)]) = removed q as) :
    Counted (as ++ [(act, e)]) t ∧ ∃ call' copied how result, e = .taken call' copied how result ∧
      removed p (as ++ [(act, e)]) = call'.got ++ how.lost ∧
      committed s.cons = copied ++ how.lost ++ committed t.cons ∧
      ∀ r, result = some r → r = -1 ∨ r = call'.got.length := by
  obtain ⟨call', copied, how, result, rfl, got, size', split, ret, places⟩ := consoleread_counted size hs
  have taken : removed p (as ++ [(act, .taken call' copied how result)]) = call'.got ++ how.lost := by
    rw [self copied how result call' rfl, got, append_assoc]
  refine ⟨⟨fun q later asleep place => ?_, fun q later asleep place => ?_⟩,
    call', copied, how, result, rfl, taken, split, ret⟩
  · rcases places q later asleep place with ⟨-, old⟩ | ⟨-, rfl, -⟩
    · exact h.size q later asleep old
    · exact size'
  · rcases places q later asleep place with ⟨ne, old⟩ | ⟨rfl, rfl, rfl⟩
    · rw [others q ne]
      exact h.given q later asleep old
    · rw [taken]
      exact append_nil _

lemma removed_append (q) (a : Console.Act P × Console.Event) : removed q (as ++ [a]) = match a with
    | (.read p _ _ _, .taken _ copied how _) => if p = q then copied ++ how.lost else removed q as
    | (.resume p _, .taken _ copied how _) =>
      if p = q then removed q as ++ (copied ++ how.lost) else removed q as
      | _ => removed q as := by
  rw [removed, foldl_append]
  rfl

lemma Counted.quiet (h : Counted as s) (same : ∀ q, removed q (as ++ [(act, .other)]) = removed q as)
    (places : ∀ q call asleep, t.place q = .reading call asleep → ∃ was, s.place q = .reading call was) :
    Counted (as ++ [(act, .other)]) t := by
  refine ⟨fun q call asleep place => ?_, fun q call asleep place => ?_⟩
  · obtain ⟨was, old⟩ := places q call asleep place
    exact h.size q call was old
  · obtain ⟨was, old⟩ := places q call asleep place
    rw [same]
    exact h.given q call was old

lemma Counted.step (h : Counted as s) (hs : Console.Step s (act, e) t) :
    Counted (as ++ [(act, e)]) t ∧ ∀ p call copied how result, caller act = some p →
      e = .taken call copied how result → removed p (as ++ [(act, e)]) = call.got ++ how.lost ∧
        committed s.cons = copied ++ how.lost ++ committed t.cons ∧
        ∀ r, result = some r → r = -1 ∨ r = call.got.length := by
  unfold Console.Step at hs
  cases act with
  | intr c =>
    rw [next_intr] at hs
    cases hs
    refine ⟨h.quiet (fun q => removed_append q _) fun q call asleep place => ?_, by simp⟩
    dsimp only at place
    split_ifs at place
    · exact wake_reading place
    · exact ⟨asleep, place⟩
  | read p n accepts killed =>
    simp only [Console.next] at hs
    split at hs <;> try contradiction
    obtain ⟨kept, call', copied', how', result', eq, facts⟩ :=
      h.section (.read p n accepts killed) ⟨accepts, n.toNat, n.toNat, []⟩ (zero_add _) (Option.some.inj hs) (by
          rintro copied how result call' rfl
          rw [removed_append]
          exact if_pos rfl) (by
          intro q ne
          rw [removed_append]
          cases e with
          | taken => exact if_neg ne.symm
          | other => rfl)
    refine ⟨kept, fun q call copied how result self eq' => ?_⟩
    cases self
    subst eq'
    cases eq
    exact facts
  | resume p killed =>
    simp only [Console.next] at hs
    split at hs <;> try contradiction
    rename_i call here
    obtain ⟨kept, call', copied', how', result', eq, facts⟩ :=
      h.section (.resume p killed) call (h.size p _ _ here) (Option.some.inj hs) (by
        rintro copied how result call' rfl
        rw [removed_append, ← h.given p _ _ here]
        exact if_pos rfl) (by
        intro q ne
        rw [removed_append]
        cases e with
        | taken => exact if_neg ne.symm
        | other => rfl)
    refine ⟨kept, fun q call copied how result self eq' => ?_⟩
    cases self
    subst eq'
    cases eq
    exact facts
  | kill p =>
    cases hs
    refine ⟨h.quiet (fun q => removed_append q _) fun q call asleep place => ?_, by simp⟩
    dsimp only at place
    by_cases self : q = p
    · subst self
      rw [update_self] at place
      exact wake_reading place
    · rw [update_of_ne self] at place
      exact ⟨asleep, place⟩

lemma section_of_step (hs : Console.Step s (act, e) t)
    (self : caller act = some p) : ∃ call killed, consoleread s p call killed = (t, e) ∧
      ((∃ n accepts, act = .read p n accepts killed ∧ call = ⟨accepts, n.toNat, n.toNat, []⟩) ∨
        act = .resume p killed ∧ s.place p = .reading call false) := by
  unfold Console.Step at hs
  cases act with
  | intr c => cases self
  | kill q => cases self
  | read q n accepts killed =>
    cases self
    simp only [Console.next] at hs
    split at hs <;> try contradiction
    exact ⟨_, killed, Option.some.inj hs, .inl ⟨n, accepts, rfl, rfl⟩⟩
  | resume q killed =>
    cases self
    simp only [Console.next] at hs
    split at hs <;> try contradiction
    rename_i call here
    exact ⟨call, killed, Option.some.inj hs, .inr ⟨rfl, here⟩⟩

lemma consoleread_ends (le : call.n ≤ call.target)
    (hs : consoleread s p call killed = (t, .taken call' copied how (some r))) :
    (Console.readLoop call.accepts call.target call.n s.cons).2.1 = copied ∧
      (Console.readLoop call.accepts call.target call.n s.cons).2.2.2 = how ∧ call'.got = call.got ++ copied ∧
      (how = .waits ∧ killed = true ∧ r = -1 ∨ how ≠ .waits ∧ 0 ≤ r) := by
  have size := (readLoop_split call.accepts call.target call.n s.cons).2
  unfold consoleread at hs
  generalize Console.readLoop call.accepts call.target call.n s.cons = ran at *
  obtain ⟨cons, bytes, left, ends⟩ := ran
  dsimp only at hs size
  split_ifs at hs with wait dead <;> cases hs
  · exact ⟨rfl, rfl, rfl, .inl ⟨wait, dead, rfl⟩⟩
  · exact ⟨rfl, rfl, rfl, .inr ⟨wait, by omega⟩⟩

/-- The call that a section belongs to, as it stands before, and whether the process is killed. -/
def begins (s : Console.State P) : Console.Act P → Option (Call × Bool)
  | .read _ n accepts killed => some (⟨accepts, n.toNat, n.toNat, []⟩, killed)
  | .resume p killed =>
    match s.place p with
    | .reading call _ => some (call, killed)
    | .out => none
  | _ => none

/-- The memory takes each byte of the line in the queue, as far as it has been asked for, and the process is not
killed where the line is not complete, unless it has nothing yet. -/
def Delivers (s : Console.State P) (call : Call) (killed : Bool) : Prop :=
  let line := takeLine call.target call.n (committed s.cons)
  (∀ i, i < line.1.length → call.accepts (call.target - call.n + i) = true) ∧
    (killed = true → line.2 = .waits → call.got ++ line.1 = [])

lemma delivers_iff (size : call.got.length + call.n = call.target)
    (hs : consoleread s p call killed = (t, .taken call' copied how (some r)))
    (ret : r = -1 ∨ r = call'.got.length) : ((how.lost = [] ∨ how.lost = [ctrl 'D']) ∧ call'.got.length = r.toNat) ↔
      Delivers s call killed := by
  obtain ⟨rfl, rfl, got, ends⟩ := consoleread_ends (by omega) hs
  have line := readLoop_takeLine call.accepts call.target call.n s.cons (by omega)
  unfold Delivers
  dsimp only
  split_ifs at line with all
  · rw [line.1] at got
    rw [line.2] at ends ⊢
    rw [and_iff_right (takeLine_lost ..), and_iff_right all]
    rcases ends with ⟨waits, dead, rfl⟩ | ⟨goes, nonneg⟩
    · rw [← got]
      simp [waits, dead]
    · have count : call'.got.length = r.toNat := by omega
      simp [count, goes]
  · obtain ⟨c, refused, ne⟩ := line
    rw [refused]
    simp [ReadEnd.lost, ne, all]

def unread (P : Type) (cons : Cons) : Console.State P := { cons := cons, place := fun _ => .out }

lemma counted_of_run {cons : Cons} (run : Run Console.Step (unread P cons) as s) : Counted as s :=
  run.history Counted (fun _ _ _ _ _ h hs => (h.step hs).1) ⟨nofun, nofun⟩

end

/-- A read removes from the queue what it returns just if the memory takes every byte that it comes to and, for
`consoleread`, the process is not killed after its first byte; `consoleread` may also remove the mark of an end of
file. -/
theorem read_removes_returned (P : Type) [DecidableEq P] (cons : Cons) :
    (∀ pi n accepts killed pi' copied refused r, piperead pi n accepts killed = .returns pi' copied refused r →
      ((copied.length = r.toNat ∧ buffered pi = copied ++ buffered pi') ↔
        ∀ i, i < min n.toNat (buffered pi).length → accepts i = true)) ∧
    ∀ (as : List (Console.Act P × Console.Event)) (s t : Console.State P) (act : Console.Act P)
      (p : P) (before call : Call) (killed : Bool) (copied : List UInt8) (how : ReadEnd) (r : Int),
      Run Console.Step (unread P cons) as s → Console.Step s (act, .taken call copied how (some r)) t →
      caller act = some p → begins s act = some (before, killed) →
        call.got = before.got ++ copied ∧ committed s.cons = copied ++ how.lost ++ committed t.cons ∧
        ((∃ mark, (mark = [] ∨ mark = [ctrl 'D']) ∧ call.got.length = r.toNat ∧
          removed p (as ++ [(act, .taken call copied how (some r))]) = call.got ++ mark) ↔
            Delivers s before killed) := by
  constructor
  · intro pi n accepts killed pi' copied refused r ran
    unfold piperead at ran
    by_cases wait : empty pi ∧ pi.writeopen = true
    · have nothing : buffered pi = [] := by simp [buffered, of_decide_eq_true wait.1]
      rw [if_pos wait] at ran
      cases killed with
      | true =>
        cases ran
        simp [nothing]
      | false => cases ran
    · rw [if_neg wait] at ran
      obtain ⟨split, clean⟩ := copyLoop_spec accepts n.toNat 0 pi
      simp only [zero_add] at clean
      rw [← clean]
      obtain ⟨rfl, rfl, -, rfl⟩ := PipeEnd.returns.inj ran
      rw [split, append_assoc, append_cancel_left_eq]
      simp
  · intro as s t act p before call killed copied how r run hs self started
    have counted := counted_of_run run
    obtain ⟨taken, split, ret⟩ := (counted.step hs).2 p call copied how (some r) self rfl
    obtain ⟨before', killed', ran, origin⟩ := section_of_step hs self
    have size : before'.got.length + before'.n = before'.target ∧ begins s act = some (before', killed') := by
      rcases origin with ⟨n, accepts, rfl, rfl⟩ | ⟨rfl, here⟩
      · exact ⟨zero_add _, rfl⟩
      · exact ⟨counted.size p _ _ here, by simp [begins, here]⟩
    obtain ⟨rfl, rfl⟩ := Prod.mk.inj (Option.some.inj (started.symm.trans size.2))
    refine ⟨(consoleread_ends (by omega) ran).2.2.1, split, ?_⟩
    rw [← delivers_iff size.1 ran (ret r rfl), taken]
    constructor
    · rintro ⟨mark, known, count, eq⟩
      rw [append_cancel_left_eq] at eq
      exact ⟨eq ▸ known, count⟩
    · rintro ⟨known, count⟩
      exact ⟨how.lost, known, count, rfl⟩

variable {n : Nat} {B : Board} {s : Kernel n} {root : Nat}

def answers (B : Board) (s : Kernel n) (root addr i : Nat) : Bool :=
  match VmProc.copyout B root (addr + i) [0] s with
  | .ok (ok, _) => ok
  | .error _ => false

lemma answers_iff (sep : Separate B s root) (addr i) :
    answers B s root addr i = true ↔ Writable B s root (addr + i) := by
  obtain ⟨ok, t, ran, count, le, copied, yes, no⟩ := copyoutFrom_spec 1 s (addr + i) [0] sep le_rfl
  have answer : answers B s root addr i = ok := by
    rw [answers, VmProc.copyout]
    exact congrArg (fun r : Except String (Bool × Kernel n) => match r with
      | .ok (ok, _) => ok
      | .error _ => false) ran
  rw [answer]
  constructor
  · intro good
    have := copied.writable 0 (by rw [yes good]; exact Nat.one_pos)
    exact this
  · intro writable
    by_contra failed
    obtain ⟨short, bad⟩ := no (Bool.eq_false_iff.mpr failed)
    obtain rfl : count = 0 := by
      rw [length_singleton] at short
      omega
    exact bad writable

def samplePipe : Pipe where
  data i := if i = 0 then 7 else if i = 1 then 8 else 9
  nread := 0
  nwrite := 3
  readopen := true
  writeopen := true

lemma sample_answers : answers freshBoard sampleKernel sampleRoot 4095 0 = true ∧
    answers freshBoard sampleKernel sampleRoot 4095 1 = false := by
  constructor
  · exact (answers_iff sample_separate 4095 0).mpr (sample_writable (by decide))
  · rw [Bool.eq_false_iff, ne_eq, answers_iff sample_separate]
    rintro ⟨pa, -, pte, entry, -⟩
    cases entry

/-- A read of three bytes to the last byte of the only mapped page: it returns 1, and two bytes
are gone. -/
theorem read_loses_byte : buffered samplePipe = [7, 8, 9] ∧
    ∃ pi, piperead samplePipe 3 (answers freshBoard sampleKernel sampleRoot 4095) false =
      .returns pi [7] (some 8) 1 ∧ buffered pi = [9] := by
  obtain ⟨first, second⟩ := sample_answers
  generalize answers freshBoard sampleKernel sampleRoot 4095 = accepts at *
  refine ⟨by decide, { samplePipe with nread := 2 }, ?_, by decide⟩
  have loop : copyLoop accepts 0 3 samplePipe = ({ samplePipe with nread := 2 }, [7], some 8) := by
    unfold copyLoop
    rw [if_neg (by decide)]
    dsimp only
    rw [if_neg (by rw [first]; decide)]
    unfold copyLoop
    rw [if_neg (by decide)]
    rw [if_pos second]
    rfl
  unfold piperead
  rw [if_neg (by decide)]
  change (match copyLoop accepts 0 3 samplePipe with
    | (pi, copied, refused) => PipeEnd.returns pi copied refused copied.length) = _
  rw [loop]
  rfl

def sampleKeys : List (Console.Act (Fin 1) × Console.Event) :=
  [(.intr 'a'.toUInt8, .other), (.intr newline, .other)]

theorem read_removes_returned_sample :
    (∃ pi, piperead samplePipe 3 (fun _ => true) false = .returns pi [7, 8, 9] none 3 ∧
      buffered samplePipe = [7, 8, 9] ++ buffered pi) ∧
    ∃ (call : Call) (mark : List UInt8), (mark = [] ∨ mark = [ctrl 'D']) ∧
      removed 0 (sampleKeys ++ [(.read 0 10 (fun _ => true) false,
        .taken call ['a'.toUInt8, newline] .line (some 2))]) = ['a'.toUInt8, newline] ++ mark := by
  refine ⟨⟨_, rfl, (((read_removes_returned (Fin 1) ⟨fun _ => 0, 0, 0, 0⟩).1 samplePipe 3 (fun _ => true) false _
    [7, 8, 9] none 3 rfl).mpr fun _ _ => rfl).2⟩, ⟨fun _ => true, 10, 8, ['a'.toUInt8, newline]⟩, ?_⟩
  have run : ∃ s, Run Console.Step (unread (Fin 1) ⟨fun _ => 0, 0, 0, 0⟩) sampleKeys s ∧
    ∃ t, Console.Step s (.read 0 10 (fun _ => true) false,
      .taken ⟨fun _ => true, 10, 8, ['a'.toUInt8, newline]⟩ ['a'.toUInt8, newline] .line (some 2)) t :=
    ⟨_, .cons rfl (.cons rfl (.nil _)), _, rfl⟩
  obtain ⟨s, run, t, last⟩ := run
  obtain ⟨mark, known, -, eq⟩ := ((read_removes_returned (Fin 1) ⟨fun _ => 0, 0, 0, 0⟩).2 sampleKeys s t _ 0 _ _ _ _ _ _
    run last rfl rfl).2.2.mpr ⟨fun _ _ => rfl, nofun⟩
  exact ⟨mark, known, eq⟩

end Xv6.ReadLoss
