import Xv6.FileBytes
import Xv6.ReadLoss

/-! What a read stores at most. The count is signed in `fileread`, `piperead` and `consoleread`,
but `readi` takes it as unsigned: a negative count is above every size there, and only an offset
that makes the sum wrap around stops it. -/

namespace Xv6.ReadBound

open Runs Params FsMachine FsCalls FileBytes ReadLoss Total Function
open Console (Cons ReadEnd consoleread)
open PipeFifo (Pipe)
open FsImage (super)

def arrive (mem : Nat → UInt8) (addr : Nat) (bytes : List UInt8) (va : Nat) : UInt8 :=
  if addr ≤ va then (bytes[va - addr]?).getD (mem va) else mem va

/-- What a read of `n` bytes may do: it stores at most so many, all of them in the buffer, and
reports no more. -/
structure Bounded (n : Int) (bytes : List UInt8) (r : Int) : Prop where
  stored : (bytes.length : Int) ≤ max n 0
  inside : ∀ mem addr va, arrive mem addr bytes va ≠ mem va → addr ≤ va ∧ (va : Int) < addr + max n 0
  result : r ≤ max n 0

variable {n r : Int} {bytes : List UInt8}

lemma bounded_of_length (stored : (bytes.length : Int) ≤ max n 0) (result : r ≤ max n 0) : Bounded n bytes r where
  stored := stored
  inside mem addr va changed := by
    unfold arrive at changed
    split_ifs at changed with low
    · refine ⟨low, ?_⟩
      by_contra high
      rw [List.getElem?_eq_none (by omega)] at changed
      exact changed rfl
    · exact absurd rfl changed
  result := result

lemma bounded_nil (result : r ≤ 0) : Bounded n [] r :=
  bounded_of_length (le_max_right ..) (result.trans (le_max_right ..))

variable {sb : Super} {N : Nat} {k : Slot} {dst : Nat → Bool}

lemma length_peekBytes (block : ByteFields.Bytes size) (off m) : (ByteFields.peekBytes block off m).length = m := by
  rw [ByteFields.peekBytes, List.length_map, List.length_range]

lemma readLoop_le : ∀ {s : Fs} {n off tot : Nat} {got : List UInt8}, got.length = tot → tot ≤ n →
    Safe (fun _ => True) (FsMachine.readLoop sb k dst fuel n off tot got) s fun r _ =>
      r.1 ≤ n ∧ r.2.length ≤ n := by
  induction fuel with
  | zero =>
    intro s n off tot got size le
    exact safe_pure ⟨Int.ofNat_le.mpr le, size.trans_le le⟩
  | succ fuel ih =>
    intro s n off tot got size le
    unfold FsMachine.readLoop
    split_ifs with more
    · have mapped : Safe (fun _ => True) (bmap sb k (off / bsize)) s fun _ _ => True :=
        Ensures.safe fun _ _ _ => trivial
      apply mapped.bind
      intro addr t _
      split_ifs with hole
      · exact safe_pure ⟨Int.ofNat_le.mpr le, size.trans_le le⟩
      apply safe_get
      dsimp only
      have chunk := length_peekBytes (t.block addr) (off % bsize) (min (n - tot) (bsize - off % bsize))
      split_ifs with refused
      · refine safe_pure ⟨by omega, ?_⟩
        rw [List.length_append, List.length_take, chunk]
        omega
      · apply ih
        · rw [List.length_append, chunk, size]
        · omega
    · exact safe_pure ⟨Int.ofNat_le.mpr le, size.trans_le le⟩

lemma readi_le (off n) : Safe (fun _ => True) (readi sb k dst off n) s fun r _ => r.1 ≤ n ∧ r.2.length ≤ n := by
  apply safe_get
  dsimp only
  split_ifs
  · exact safe_pure ⟨Int.natCast_nonneg n, Nat.zero_le n⟩
  · refine (readLoop_le List.length_nil (Nat.zero_le _)).mono ?_
    rintro r t ⟨ret, size⟩
    exact ⟨by omega, by omega⟩
  · exact readLoop_le List.length_nil (Nat.zero_le n)

lemma readi_nothing {off n : Nat} (nothing : (s.itable k).copy.size ≤ off ∨ 2 ^ 32 ≤ off + n)
    (some_ : 0 < n) : readi sb k dst off n s = .ok ((0, []), s) := by
  have run : readi sb k dst off n s =
    (if (s.itable k).copy.size < off ∨ 2 ^ 32 ≤ off + n then (return (0, []) : F (Int × List UInt8))
      else
        let n := if (s.itable k).copy.size < off + n then (s.itable k).copy.size - off else n
        FsMachine.readLoop sb k dst n n off 0 []) s := rfl
  rw [run]
  by_cases past : (s.itable k).copy.size < off ∨ 2 ^ 32 ≤ off + n
  · rw [if_pos past]
    rfl
  · have equal : (s.itable k).copy.size = off := by omega
    rw [if_neg past, if_pos (by omega), equal, Nat.sub_self]
    rfl

/-- The size of the file in slot `k`, in the table if the inode has been loaded. -/
def sizeOf (s : Fs) (k : Slot) : Nat :=
  if (s.itable k).valid then (s.itable k).copy.size else (s.dinode (s.itable k).inum).size

lemma ilock_size : Safe (fun _ => True) (ilock k) s fun _ t => (t.itable k).copy.size = sizeOf s k := by
  apply safe_get
  split
  · exact safe_throw trivial
  have locks : Safe (fun _ => True) (acquiresleep k) s fun _ t =>
    t.itable k = { s.itable k with lock := true } := by
    apply safe_get
    split_ifs
    · exact safe_throw trivial
    · exact safe_modify (update_self ..)
  apply locks.bind
  intro _ t slot
  unfold sizeOf
  split
  · exact safe_pure (by rw [slot])
  · apply safe_mod
    have size : (update t.itable k { t.itable k with copy := s.dinode (t.itable k).inum, valid := true } k).copy.size =
        (s.dinode (s.itable k).inum).size := by
      rw [update_self, slot]
    split_ifs
    · exact safe_throw trivial
    · exact safe_pure size

variable {s : State N} {f : Fin nfile} {count : Int}

/-- A count for which the conversion to `uint` does no harm: the file cannot be read at all, the count is not
negative, or the read starts at the end of the file or so far on that the sum wraps around. -/
def Plain (s : State N) (f : Fin nfile) (count : Int) : Prop :=
  (s.ftable f).readable = false ∨ 0 ≤ count ∨ 0 ≤ (s.ftable f).off + count ∨
    sizeOf s.fs (s.ftable f).ip ≤ (s.ftable f).off

lemma fileread_bounded (isIno : (s.ftable f).type = .inode) (low : -2 ^ 31 ≤ count) (high : count < 2 ^ 31)
    (plain : Plain s f count) (answer) :
    Safe (fun _ => True) (fileread sb f dst count answer) s fun r t => Bounded count r.2 r.1 ∧
      (count < 0 → r.2 = [] ∧ (t.ftable f).off = (s.ftable f).off) := by
  apply safe_get
  by_cases closed : (s.ftable f).readable = false
  · rw [if_pos closed]
    exact safe_pure ⟨bounded_nil (by decide), fun _ => ⟨rfl, rfl⟩⟩
  rw [if_neg closed, isIno]
  apply Safe.bind (onFs_safe ilock_size)
  rintro _ _ ⟨fs, rfl, size⟩
  by_cases negative : count < 0
  · have wraps : uint count = (2 ^ 32 + count).toNat := by
      unfold uint
      omega
    have nothing : (fs.itable (s.ftable f).ip).copy.size ≤ (s.ftable f).off ∨
      2 ^ 32 ≤ (s.ftable f).off + uint count := by
      rw [size]
      rcases plain.resolve_left closed with pos | wrap | past
      · omega
      · exact .inr (by omega)
      · exact .inl past
    apply safe_bind_eq (onFs_eq (readi_nothing nothing (by omega)))
    dsimp only
    rw [if_neg (by decide)]
    apply safe_pure_bind
    have unlocks : Safe (fun _ => True) (iunlock (s.ftable f).ip) fs fun _ _ => True :=
      Ensures.safe fun _ _ _ => trivial
    apply Safe.bind (onFs_safe unlocks)
    rintro _ _ ⟨fs', rfl, -⟩
    exact safe_pure ⟨bounded_nil le_rfl, fun _ => ⟨rfl, rfl⟩⟩
  · have same : uint count = count.toNat := by
      unfold uint
      omega
    rw [same]
    apply Safe.bind (onFs_safe (readi_le _ _))
    rintro ⟨r, bytes⟩ _ ⟨fs', rfl, ret, stored⟩
    apply Safe.bind (Ensures.safe fun _ _ _ => trivial)
    intro _ t _
    apply Safe.bind (Ensures.safe fun _ _ _ => trivial)
    intro _ u _
    refine safe_pure ⟨bounded_of_length ?_ ?_, fun less => absurd less negative⟩
    · exact (Int.ofNat_le.mpr stored).trans (by omega)
    · exact le_trans ret (by omega)

/-- Any other count makes a file give out bytes that were not asked for, if the memory takes them. -/
lemma fileread_exceeds {orphan : Nat → Prop} {refs : Slot → Nat} (ready : Ready sb orphan refs s)
    (isIno : (s.ftable f).type = .inode) (low : -2 ^ 31 ≤ count) (harm : ¬ Plain s f count) (answer) :
    ∃ r bytes t, fileread sb f (fun _ => true) count answer s = .ok ((r, bytes), t) ∧ ¬ Bounded count bytes r := by
  obtain ⟨readable, negative, less, inside⟩ : (s.ftable f).readable = true ∧ count < 0 ∧
      (s.ftable f).off + count < 0 ∧ (s.ftable f).off < sizeOf s.fs (s.ftable f).ip := by
    simpa [Plain] using harm
  have wraps : uint count = (2 ^ 32 + count).toNat := by
    unfold uint
    omega
  have size : sizeOf s.fs (s.ftable f).ip = (s.fs.dinode (inoOf s f)).size := by
    unfold sizeOf
    split_ifs with valid
    · rw [(ready.sound.table.loaded _ (ready.pos f isIno) valid).1]
      rfl
    · rfl
  have fits : (s.ftable f).off + uint count < 2 ^ 32 := by omega
  obtain ⟨⟨r, bytes⟩, t, ran, -, -, step⟩ :=
    (fileread_safe ready isIno readable (.inr fits) (fun _ _ => rfl) answer).returns
  refine ⟨r, bytes, t, ran, fun bounded => ?_⟩
  have most := bounded.stored
  have length : bytes.length = min (uint count) ((bytesOf s.fs (inoOf s f)).length - (s.ftable f).off) := by
    rw [← List.length_drop, ← List.length_take]
    exact congrArg List.length (step false).1
  rw [length_bytesOf (ready.alive f isIno)] at length
  omega

section
lemma copyLoop_length (accepts m) : ∀ i pi, (copyLoop accepts i m pi).2.1.length ≤ m := by
  induction m with
  | zero => exact fun _ _ => le_rfl
  | succ m ih =>
    intro i pi
    unfold copyLoop
    split_ifs
    · exact Nat.zero_le _
    · exact Nat.zero_le _
    · exact Nat.succ_le_succ (ih _ _)

lemma piperead_bounded {copied : List UInt8} (ran : piperead pi n accepts killed = .returns pi' copied refused r) :
    Bounded n copied r ∧ (n < 0 → copied = [] ∧ pi' = pi) := by
  unfold piperead at ran
  split_ifs at ran
  · cases ran
    exact ⟨bounded_nil (by decide), fun _ => ⟨rfl, rfl⟩⟩
  · have size := copyLoop_length accepts n.toNat 0 pi
    have nothing : n < 0 → copyLoop accepts 0 n.toNat pi = (pi, [], none) := by
      intro negative
      rw [Int.toNat_of_nonpos negative.le]
      rfl
    generalize copyLoop accepts 0 n.toNat pi = ends at *
    obtain ⟨pi1, copied1, refused1⟩ := ends
    dsimp only at size
    cases ran
    refine ⟨bounded_of_length (by omega) (by omega), fun negative => ?_⟩
    cases nothing negative
    exact ⟨rfl, rfl⟩

variable {P : Type} [DecidableEq P] {s t : Console.State P} {as : List (Console.Act P × Console.Event)}

def asked (p : P) (as : List (Console.Act P × Console.Event)) : Int :=
  as.foldl (fun sofar a => match a.1 with
    | .read q n _ _ => if q = p then n else sofar
    | _ => sofar) 0

lemma asked_append (q) (a : Console.Act P × Console.Event) : asked q (as ++ [a]) = match a.1 with
    | .read p n _ _ => if p = q then n else asked q as
    | _ => asked q as := by
  rw [asked, List.foldl_append]
  rfl

def Targets (as : List (Console.Act P × Console.Event)) (s : Console.State P) : Prop :=
  ∀ p call asleep, s.place p = .reading call asleep → call.target = (asked p as).toNat

lemma consoleread_target {copied : List UInt8}
    (hs : consoleread s p call killed = (t, .taken call' copied how result)) :
    call'.target = call.target ∧ ∀ q later asleep, t.place q = .reading later asleep →
      q = p ∧ later.target = call.target ∨ q ≠ p ∧ s.place q = .reading later asleep := by
  have others : ∀ (here : Console.Place) q later asleep, update s.place p here q = .reading later asleep →
    q = p ∧ here = .reading later asleep ∨ q ≠ p ∧ s.place q = .reading later asleep := by
    intro here q later asleep eq
    by_cases self : q = p
    · subst self
      rw [update_self] at eq
      exact .inl ⟨rfl, eq⟩
    · rw [update_of_ne self] at eq
      exact .inr ⟨self, eq⟩
  unfold consoleread at hs
  dsimp only at hs
  split_ifs at hs
  · cases hs
    refine ⟨rfl, fun q later asleep place => (others _ q later asleep place).imp_left ?_⟩
    rintro ⟨-, out⟩
    cases out
  · cases hs
    refine ⟨rfl, fun q later asleep place => (others _ q later asleep place).imp_left ?_⟩
    rintro ⟨self, here⟩
    cases here
    exact ⟨self, rfl⟩
  · cases hs
    refine ⟨rfl, fun q later asleep place => (others _ q later asleep place).imp_left ?_⟩
    rintro ⟨-, out⟩
    cases out

lemma Targets.step (h : Targets as s) (counted : Counted as s) {act : Console.Act P} {e : Console.Event}
    (hs : Console.Step s (act, e) t) : Targets (as ++ [(act, e)]) t ∧
      ∀ p call copied how result, caller act = some p → e = .taken call copied how result →
        call.got.length ≤ (asked p (as ++ [(act, e)])).toNat ∧
          ∀ r, result = some r → r ≤ (asked p (as ++ [(act, e)])).toNat := by
  cases who : caller act with
  | none =>
    have quiet : ∀ q, asked q (as ++ [(act, e)]) = asked q as := by
      intro q
      rw [asked_append]
      cases act with
      | read => cases who
      | _ => rfl
    refine ⟨fun q call asleep place => ?_, nofun⟩
    rw [quiet]
    unfold Console.Step at hs
    cases act with
    | intr c =>
      rw [Console.next_intr] at hs
      cases hs
      split_ifs at place
      · obtain ⟨was, old⟩ := Console.wake_reading place
        exact h q call was old
      · exact h q call asleep place
    | kill p =>
      cases hs
      dsimp only at place
      by_cases self : q = p
      · subst self
        rw [update_self] at place
        obtain ⟨was, old⟩ := Console.wake_reading place
        exact h q call was old
      · rw [update_of_ne self] at place
        exact h q call asleep place
    | read => cases who
    | resume => cases who
  | some p =>
    obtain ⟨call, killed, ran, origin⟩ := section_of_step hs who
    have target : call.target = (asked p (as ++ [(act, e)])).toNat ∧ call.got.length + call.n = call.target := by
      rw [asked_append]
      rcases origin with ⟨n, accepts, rfl, rfl⟩ | ⟨rfl, here⟩
      · dsimp only
        rw [if_pos rfl]
        exact ⟨rfl, zero_add _⟩
      · exact ⟨h p _ _ here, counted.size p _ _ here⟩
    have others : ∀ q, q ≠ p → asked q (as ++ [(act, e)]) = asked q as := by
      intro q ne
      rw [asked_append]
      rcases origin with ⟨n, accepts, rfl, rfl⟩ | ⟨rfl, here⟩
      · exact if_neg ne.symm
      · rfl
    obtain ⟨call', copied, how, result, rfl, -, size, -, ret, -⟩ := consoleread_counted target.2 ran
    obtain ⟨same, places⟩ := consoleread_target ran
    refine ⟨fun q later asleep place => ?_, ?_⟩
    · rcases places q later asleep place with ⟨rfl, eq⟩ | ⟨ne, old⟩
      · rw [eq, target.1]
      · rw [others q ne]
        exact h q later asleep old
    · rintro q call1 copied1 how1 result1 self eq
      cases self
      cases eq
      rw [← target.1, ← same]
      refine ⟨by omega, fun r eq => ?_⟩
      rcases ret r eq with rfl | rfl <;> omega

lemma targets_of_run (run : Run Console.Step (unread P cons) as s) : Targets as s ∧ Counted as s :=
  run.history (fun as s => Targets as s ∧ Counted as s)
    (fun _ _ _ _ _ h hs => ⟨(h.1.step h.2 hs).1, (h.2.step hs).1⟩) ⟨nofun, nofun, nofun⟩

section
variable {cons : Cons} {act : Console.Act P} {p : P} {call : Console.Call} {copied : List UInt8}
  {how : ReadEnd} {result : Option Int}

lemma consoleread_bounded (run : Run Console.Step (unread P cons) as s)
    (hs : Console.Step s (act, .taken call copied how result) t) (who : caller act = some p) :
    ∀ r, (result = some r ∨ result = none ∧ r = 0) →
      Bounded (asked p (as ++ [(act, .taken call copied how result)])) call.got r := by
  obtain ⟨targets, counted⟩ := targets_of_run run
  obtain ⟨size, ret⟩ := (targets.step counted hs).2 p call copied how result who rfl
  rintro r (eq | ⟨-, rfl⟩)
  · exact bounded_of_length (by omega) ((ret r eq).trans (by omega))
  · exact bounded_of_length (by omega) (le_max_right ..)

lemma consoleread_nothing (nothing : call.n = 0)
    (hs : consoleread s p call killed = (t, e)) : (∃ call' how result, e = .taken call' [] how result ∧
      call'.got = call.got) ∧ t.cons = s.cons := by
  obtain ⟨accepts, target, rest, got⟩ := call
  cases nothing
  cases hs
  exact ⟨⟨_, _, _, rfl, List.append_nil got⟩, rfl⟩

lemma consoleread_negative (run : Run Console.Step (unread P cons) as s)
    (hs : Console.Step s (act, .taken call copied how result) t) (who : caller act = some p)
    (negative : asked p (as ++ [(act, .taken call copied how result)]) < 0) : call.got = [] ∧ t.cons = s.cons := by
  obtain ⟨targets, counted⟩ := targets_of_run run
  obtain ⟨call', killed, ran, origin⟩ := section_of_step hs who
  rw [asked_append] at negative
  have fresh : call'.n = 0 ∧ call'.got = [] := by
    rcases origin with ⟨n, accepts, rfl, rfl⟩ | ⟨rfl, here⟩
    · dsimp only at negative
      rw [if_pos rfl] at negative
      exact ⟨Int.toNat_of_nonpos negative.le, rfl⟩
    · have target := targets p _ _ here
      have size := counted.size p _ _ here
      rw [Int.toNat_of_nonpos (Int.le_of_lt negative)] at target
      exact ⟨by omega, List.eq_nil_of_length_eq_zero (by omega)⟩
  obtain ⟨⟨call1, how1, result1, eq, got⟩, same⟩ := consoleread_nothing fresh.1 ran
  cases eq
  exact ⟨got.trans fresh.2, same⟩

end

end

/-- A read stores what was asked for at most, whatever it reads from, unless a negative count meets an inode and an
offset for which it is taken as a large one; and there it does not, in every state with a sound file system. -/
theorem read_within_count (N : Nat) (P : Type) [DecidableEq P] (n : Int) (low : -2 ^ 31 ≤ n) (high : n < 2 ^ 31) :
    (∀ (sb : Super) (s : State N) (f : Fin nfile) (answer : Int), (s.ftable f).type = .inode →
      (Plain s f n → ∀ dst r bytes t, fileread sb f dst n answer s = .ok ((r, bytes), t) → Bounded n bytes r ∧
        (n < 0 → bytes = [] ∧ (t.ftable f).off = (s.ftable f).off)) ∧
      ∀ orphan refs, Ready sb orphan refs s →
        (∀ dst r bytes t, fileread sb f dst n answer s = .ok ((r, bytes), t) → Bounded n bytes r) → Plain s f n) ∧
    (∀ pi accepts killed pi' copied refused r, piperead pi n accepts killed = .returns pi' copied refused r →
      Bounded n copied r ∧ (n < 0 → copied = [] ∧ pi' = pi)) ∧
    ∀ (cons : Cons) (as : List (Console.Act P × Console.Event)) (s t : Console.State P) (act : Console.Act P) (p : P)
      (call : Console.Call) (copied : List UInt8) (how : ReadEnd) (result : Option Int),
      Run Console.Step (unread P cons) as s → Console.Step s (act, .taken call copied how result) t →
      caller act = some p → asked p (as ++ [(act, .taken call copied how result)]) = n →
        (∀ r, (result = some r ∨ result = none ∧ r = 0) → Bounded n call.got r) ∧
        (n < 0 → call.got = [] ∧ t.cons = s.cons) := by
  refine ⟨fun sb s f answer isInode => ⟨fun plain dst r bytes t ran => ?_, fun orphan refs ready bounded => ?_⟩,
    fun pi accepts killed pi' copied refused r ran => piperead_bounded ran, ?_⟩
  · exact (fileread_bounded isInode low high plain answer).ensures _ t ran
  · by_contra harm
    obtain ⟨r, bytes, t, ran, exceeds⟩ := fileread_exceeds ready isInode low harm answer
    exact exceeds (bounded _ r bytes t ran)
  · intro cons as s t act p call copied how result run hs who count
    subst count
    exact ⟨consoleread_bounded run hs who, consoleread_negative run hs who⟩

def rootOpen : State 1 where
  fs := FsImage.image
  ftable _ := ⟨.inode, 1, true, false, 0, 0, 0⟩
  proc _ := ⟨true, 0, fun _ => some 0⟩

theorem negative_count_reads : ∃ bytes t, fileread super 0 (fun _ => true) (-1) 0 rootOpen =
    .ok ((1024, bytes), t) ∧ bytes.length = 1024 ∧ (t.ftable 0).off = 1024 ∧ ¬ Bounded (-1) bytes 1024 := by
  have ran : (match fileread super 0 (fun _ => true) (-1) 0 rootOpen with
      | .ok ((r, bytes), t) => decide (r = 1024 ∧ bytes.length = 1024 ∧ (t.ftable 0).off = 1024)
      | .error _ => false) = true := by decide +kernel
  cases here : fileread super 0 (fun _ => true) (-1) 0 rootOpen with
  | error e =>
    rw [here] at ran
    cases ran
  | ok p =>
    obtain ⟨⟨r, bytes⟩, t⟩ := p
    rw [here] at ran
    obtain ⟨rfl, length, moved⟩ := of_decide_eq_true ran
    refine ⟨bytes, t, rfl, length, moved, fun bounded => ?_⟩
    have result := bounded.result
    omega

def atEnd : State 1 :=
  { rootOpen with ftable := fun _ => ⟨.inode, 1, true, false, 0, 1024, 0⟩ }

theorem read_within_count_negative : (∃ r bytes t, fileread super 0 (fun _ => true) (-1) 0 atEnd = .ok ((r, bytes), t) ∧
      Bounded (-1) bytes r ∧ (t.ftable 0).off = 1024) ∧
    (∃ pi copied refused r, piperead samplePipe (-1) (fun _ => true) false = .returns pi copied refused r ∧
      Bounded (-1) copied r ∧ pi = samplePipe) ∧
    ∃ t call copied how result, Console.Step (unread (Fin 1) ⟨fun _ => 7, 0, 2, 2⟩)
      (.read 0 (-1) (fun _ => true) false, .taken call copied how result) t ∧ call.got = [] := by
  obtain ⟨inode, pipe, console⟩ := read_within_count 1 (Fin 1) (-1) (by decide) (by decide)
  refine ⟨⟨_, _, _, rfl, ?_⟩, ⟨_, _, _, _, rfl, ?_⟩, ?_⟩
  · obtain ⟨bounded, same⟩ := (inode super atEnd 0 0 rfl).1 (.inr (.inr (.inr (by decide)))) (fun _ => true) _ _ _ rfl
    exact ⟨bounded, (same (by decide)).2⟩
  · obtain ⟨bounded, same⟩ := pipe samplePipe (fun _ => true) false _ _ _ _ rfl
    exact ⟨bounded, (same (by decide)).2⟩
  · obtain ⟨t, call, copied, how, result, step⟩ : ∃ t call copied how result,
      Console.Step (unread (Fin 1) ⟨fun _ => 7, 0, 2, 2⟩)
        (.read 0 (-1) (fun _ => true) false, .taken call copied how result) t := by
      exact ⟨_, _, _, _, _, rfl⟩
    exact ⟨t, call, copied, how, result, step, ((console _ [] _ t _ 0 call copied how result (.nil _) step rfl rfl).2
      (by decide)).1⟩

end Xv6.ReadBound
