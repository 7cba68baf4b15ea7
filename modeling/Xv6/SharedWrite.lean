import Xv6.FileBytes

/-! Writers that share one open file, through `fork` or `dup`: each process of `W` is in the loop of
its own `filewrite`, and their operations, each of which locks the inode and moves the shared
offset, come in any order. -/

namespace Xv6.SharedWrite

open Params FsMachine FsBlocks FsData FsTable FsCalls FileBytes Total Runs Splice Function List

/-- A `filewrite` in its loop: the buffer, `n`, and how much has been written. -/
structure Writing where
  src : Nat → Option UInt8
  count : Nat
  i : Nat

def Writing.n1 (c : Writing) : Nat := min (c.count - c.i) writeMax

def Writing.chunk (c : Writing) : List UInt8 := copied c.src c.i c.n1

/-- The loop goes on after an operation that has returned `r`, unless that is short or
all is written. -/
def Writing.after (c : Writing) (r : Int) : Option Writing :=
  if r = c.n1 then
    if c.i + c.n1 < c.count then some { c with i := c.i + c.n1 } else none
  else none

structure Shared (n : Nat) (W : Type) where
  kernel : State n
  writing : W → Option Writing

inductive Act (W : Type)
  | start (w : W) (src : Nat → Option UInt8) (count : Nat)
  | op (w : W)

section
variable {n : Nat} {W : Type} [DecidableEq W] (sb : Super) (f : Fin nfile)

def next (s : Shared n W) : Act W → Option (Shared n W)
  | .start w src count =>
    match s.writing w with
    | none => some ⟨s.kernel, Function.update s.writing w
        (if 0 < count then some ⟨src, count, 0⟩ else none)⟩
    | some _ => none
  | .op w =>
    match s.writing w with
    | none => none
    | some c =>
      match writeOp sb f (fun j => c.src (c.i + j)) c.n1 s.kernel with
      | .ok (r, kernel) => some ⟨kernel, Function.update s.writing w (c.after r)⟩
      | .error _ => none

def chunkOf (s : Shared n W) : Act W → List UInt8
  | .start _ _ _ => []
  | .op w => ((s.writing w).map Writing.chunk).getD []

def Step (s : Shared n W) (a : Act W × List UInt8) (t : Shared n W) : Prop :=
  next sb f s a.1 = some t ∧ a.2 = chunkOf s a.1

/-- The buffers can be read, the file stays below its largest size, and a block is
left free. -/
def Roomy (s : Shared n W) (a : Act W × List UInt8) (t : Shared n W) : Prop :=
  Step sb f s a t ∧
  match a.1 with
  | .start _ src count => Readable src count
  | .op _ => ¬ Full sb t.kernel.fs.bitmap ∧
      (s.kernel.ftable f).off + a.2.length ≤ maxfile * bsize

end

section
variable {W : Type} [DecidableEq W]

def chunks (as : List (Act W × List UInt8)) : List UInt8 := as.flatMap Prod.snd

def written (w : W) (as : List (Act W × List UInt8)) : List UInt8 :=
  as.flatMap fun a => match a.1 with
    | .op v => if v = w then a.2 else []
    | .start _ _ _ => []

def offered (w : W) (as : List (Act W × List UInt8)) : List UInt8 :=
  as.flatMap fun a => match a.1 with
    | .start v src count => if v = w then copied src 0 count else []
    | .op _ => []

def remaining : Option Writing → List UInt8
  | some c => copied c.src c.i (c.count - c.i)
  | none => []

end

section
variable {n : Nat} {W : Type} [DecidableEq W] {sb : Super} {f : Fin nfile} {O : Nat → Prop}
  {refs : Slot → Nat} {s t : Shared n W} {a : Act W × List UInt8}

def Writing.Fine (c : Writing) : Prop := Readable c.src c.count ∧ c.i < c.count

lemma Writing.Fine.readable {c : Writing} (fine : c.Fine) : Readable (fun j => c.src (c.i + j)) c.n1 := by
  intro x lt
  exact fine.1 (c.i + x) (by unfold Writing.n1 at lt; omega)

lemma Writing.Fine.length_chunk {c : Writing} (fine : c.Fine) : c.chunk.length = c.n1 :=
  copied_length fine.1 _ _ (by have := fine.2; unfold Writing.n1; omega)

lemma Writing.Fine.remaining {c : Writing} (fine : c.Fine) :
    remaining (some c) = c.chunk ++ remaining (c.after c.n1) := by
  have le : c.n1 ≤ c.count - c.i := min_le_left ..
  have split : c.count - c.i = c.n1 + (c.count - (c.i + c.n1)) := by omega
  have front : SharedWrite.remaining (some c) = c.chunk ++ copied c.src (c.i + c.n1) (c.count - (c.i + c.n1)) := by
    rw [SharedWrite.remaining, split, copied_add _ _ _ _ fine.length_chunk]
    rfl
  rw [front, Writing.after, if_pos rfl]
  split_ifs with more
  · rfl
  · have none : c.count - (c.i + c.n1) = 0 := by omega
    rw [none]
    rfl

lemma Writing.Fine.after {c : Writing} (fine : c.Fine) (h : c.after r = some d) : d.Fine := by
  unfold Writing.after at h
  split_ifs at h with whole more
  cases h
  exact ⟨fine.1, more⟩

structure Appended (sb : Super) (orphan : Nat → Prop) (refs : Slot → Nat) (f : Fin nfile)
    (first : State n) (data : List UInt8) (s : Shared n W) : Prop where
  ready : Ready sb orphan refs s.kernel
  steady : Steady first s.kernel
  fine : ∀ w c, s.writing w = some c → c.Fine
  bytes : (arrays s.kernel).bytes =
    Function.update (arrays first).bytes (inoOf first f) ((arrays first).bytes (inoOf first f) ++ data)
  cursor : (s.kernel.ftable f).off = ((arrays first).bytes (inoOf first f)).length + data.length

omit [DecidableEq W] in
lemma Appended.file (h : Appended sb O refs f first data s) (isIno : (first.ftable f).type = .inode)
    (writable : (first.ftable f).writable = true) :
    (s.kernel.ftable f).type = .inode ∧ (s.kernel.ftable f).writable = true := by
  obtain ⟨off, eq⟩ := h.steady.file f
  rw [eq]
  exact ⟨isIno, writable⟩

lemma splice_end : splice l l.length d = l ++ d := by simp [splice]

lemma Appended.op {first : State n} (h : Appended sb O refs f first data s) (isIno : (first.ftable f).type = .inode)
    (writable : (first.ftable f).writable = true) (here : s.writing w = some c) :
    ∃ r kernel, writeOp sb f (fun j => c.src (c.i + j)) c.n1 s.kernel = .ok (r, kernel) ∧
      (¬ Full sb kernel.fs.bitmap → (s.kernel.ftable f).off + c.chunk.length ≤ maxfile * bsize →
        r = c.n1 ∧ Appended sb O refs f first (data ++ c.chunk) ⟨kernel, update s.writing w (c.after r)⟩) := by
  have fine := h.fine w c here
  obtain ⟨isInode', writable'⟩ := h.file isIno writable
  obtain ⟨r, kernel, ran, ready, steady, post⟩ :=
    (writeOp_safe h.ready isInode' writable' fine.readable).returns
  refine ⟨r, kernel, ran, fun room below => ?_⟩
  have ino := h.steady.inoOf f
  have length : (bytesOf s.kernel.fs (inoOf s.kernel f)).length = (s.kernel.ftable f).off := by
    have := congrFun h.bytes (inoOf first f)
    rw [update_self] at this
    rw [ino, h.cursor]
    exact (congrArg length this).trans (length_append ..)
  rw [fine.length_chunk] at below
  rcases post with ⟨-, -, why⟩ | ⟨tot, rfl, -, whole, -, stored⟩
  · omega
  · obtain rfl : tot = c.n1 := whole.resolve_right room
    have chunk : copied (fun j => c.src (c.i + j)) 0 c.n1 = c.chunk := copied_shift ..
    rw [chunk] at stored
    refine ⟨rfl, ready, h.steady.trans steady, ?_, ?_, ?_⟩
    · intro v d hd
      rcases eq_or_ne v w with rfl | ne
      · exact fine.after (by simpa using hd)
      · exact h.fine v d (by simpa [ne] using hd)
    · rw [stored]
      have at_ : (arrays s.kernel).cursor f = ((arrays s.kernel).bytes (inoOf first f)).length := by
        rw [← ino]
        exact length.symm
      simp only [Arrays.put, ino, at_, splice_end, h.bytes, update_self, update_idem, append_assoc]
    · have cursor := congrFun (congrArg Arrays.cursor stored) f
      simp only [Arrays.put, update_self] at cursor
      have off : (kernel.ftable f).off = (s.kernel.ftable f).off + c.chunk.length := cursor
      rw [off, h.cursor, length_append, add_assoc]

lemma Appended.step {first : State n} (h : Appended sb O refs f first data s) (isIno : (first.ftable f).type = .inode)
    (writable : (first.ftable f).writable = true) (hs : Roomy sb f s a t) :
    Appended sb O refs f first (data ++ a.2) t ∧ a.2.length ≤ writeMax ∧
      ∀ w, written w [a] ++ remaining (t.writing w) = remaining (s.writing w) ++ offered w [a] := by
  obtain ⟨act, chunk⟩ := a
  obtain ⟨⟨ran, noted⟩, room⟩ := hs
  dsimp only at ran noted room ⊢
  subst noted
  cases act with
  | start v src count =>
    simp only [next] at ran
    split at ran <;> try contradiction
    rename_i idle
    obtain rfl := (Option.some.inj ran).symm
    refine ⟨⟨h.ready, h.steady, ?_, ?_, ?_⟩, Nat.zero_le _, ?_⟩
    · intro w c hc
      rcases eq_or_ne w v with rfl | ne
      · simp only [update_self] at hc
        split_ifs at hc with pos
        cases hc
        exact ⟨room, pos⟩
      · exact h.fine w c (by simpa [ne] using hc)
    · simpa [chunkOf] using h.bytes
    · simpa [chunkOf] using h.cursor
    · intro w
      rcases eq_or_ne w v with rfl | ne
      · simp only [written, offered, flatMap_cons, flatMap_nil, update_self, idle, if_true, append_nil, nil_append]
        split_ifs with pos
        · rfl
        · obtain rfl : count = 0 := by omega
          rfl
      · simp [written, offered, ne, ne.symm]
  | op v =>
    simp only [next] at ran
    split at ran <;> try contradiction
    rename_i c here
    have fine := h.fine v c here
    obtain ⟨r, kernel, hop, later⟩ := h.op isIno writable here
    rw [hop] at ran
    obtain rfl := (Option.some.inj ran).symm
    have chunk : chunkOf s (.op v) = c.chunk := by simp [chunkOf, here]
    rw [chunk] at room
    obtain ⟨rfl, appended⟩ := later room.1 room.2
    rw [chunk]
    refine ⟨appended, ?_, fun w => ?_⟩
    · rw [fine.length_chunk]
      exact Nat.min_le_right ..
    · rcases eq_or_ne w v with rfl | ne
      · simp [written, offered, here, fine.remaining]
      · simp [written, offered, ne, ne.symm]

structure Outcome (sb : Super) (orphan : Nat → Prop) (refs : Slot → Nat) (f : Fin nfile)
    (first : State n) (as : List (Act W × List UInt8)) (t : Shared n W) : Prop where
  appended : Appended sb orphan refs f first (chunks as) t
  small : ∀ a ∈ as, a.2.length ≤ writeMax
  order : ∀ w, written w as ++ remaining (t.writing w) = offered w as

lemma outcome_of_run (ready : Ready sb O refs first)
    (isIno : (first.ftable f).type = .inode) (writable : (first.ftable f).writable = true)
    (atEnd : (first.ftable f).off = (bytesOf first.fs (inoOf first f)).length)
    (run : Run (Roomy sb f) ⟨first, fun _ => none⟩ as t) :
    Outcome sb O refs f first as t := by
  refine run.history (Outcome sb O refs f first) ?_ ⟨⟨ready, .refl, ?_, ?_, ?_⟩, ?_, ?_⟩
  · intro as u a v _ h hs
    obtain ⟨appended, small, order⟩ := h.appended.step isIno writable hs
    refine ⟨?_, ?_, fun w => ?_⟩
    · simpa [chunks, flatMap_append] using appended
    · intro b hb
      rcases mem_append.mp hb with old | new
      · exact h.small b old
      · rw [mem_singleton.mp new]
        exact small
    · have later := order w
      have before := h.order w
      unfold written offered at *
      rw [flatMap_append, flatMap_append, append_assoc, later, ← append_assoc, before]
  · simp
  · simp [chunks]
  · simpa [chunks, arrays] using atEnd
  · simp
  · simp [written, offered, remaining]

end

/-- Writers at the end of a shared file append their chunks, of at most three blocks each, one after
the other: nothing else changes, the chunks of a process come in the order of its data, and no
operation fails. -/
theorem writers_lose_nothing {n : Nat} {W : Type} [DecidableEq W] {sb : Super} {orphan : Nat → Prop}
    {refs : Slot → Nat} {f : Fin nfile} {first : State n} (ready : Ready sb orphan refs first)
    (isInode : (first.ftable f).type = .inode) (writable : (first.ftable f).writable = true)
    (atEnd : (first.ftable f).off = (bytesOf first.fs (inoOf first f)).length)
    {as : List (Act W × List UInt8)} {t : Shared n W}
    (run : Run (Roomy sb f) ⟨first, fun _ => none⟩ as t) :
    bytesOf t.kernel.fs = Function.update (bytesOf first.fs) (inoOf first f)
      (bytesOf first.fs (inoOf first f) ++ chunks as) ∧
    (t.kernel.ftable f).off = (first.ftable f).off + (chunks as).length ∧
    (∀ a ∈ as, a.2.length ≤ 3 * bsize) ∧
    (∀ w, written w as ++ remaining (t.writing w) = offered w as) ∧
    ∀ w c, t.writing w = some c → ∃ u, Step sb f t (.op w, c.chunk) u := by
  have h := outcome_of_run ready isInode writable atEnd run
  refine ⟨h.appended.bytes, ?_, h.small, h.order, fun w c here => ?_⟩
  · rw [atEnd]
    exact h.appended.cursor
  · obtain ⟨r, kernel, ran, -⟩ := h.appended.op isInode writable here
    exact ⟨_, by simp only [next, here, ran]; rfl, by simp [chunkOf, here]⟩

section
open FsImage

lemma next_op_other [DecidableEq W] {s t : Shared n W} (h : next sb f s (.op w) = some t) (ne : v ≠ w) :
    t.writing v = s.writing v := by
  simp only [next] at h
  split at h <;> try contradiction
  split at h <;> try contradiction
  rw [← Option.some.inj h]
  exact update_of_ne ne ..

def twoWriters : Shared 1 Bool :=
  ⟨newFile, fun w => if w then some ⟨fun _ => some 9, 3, 0⟩ else some ⟨fun _ => some 7, 5, 0⟩⟩

lemma twoWriters_ops : ∃ t u, next super 0 twoWriters (.op true) = some t ∧ next super 0 t (.op false) = some u ∧
    (t.kernel.ftable 0).off = 3 ∧ t.writing false = some ⟨fun _ => some 7, 5, 0⟩ ∧
    t.kernel.fs.bitmap 1999 = false ∧ u.kernel.fs.bitmap 1999 = false := by
  have runs : ((next super 0 twoWriters (.op true)).bind fun t =>
    (next super 0 t (.op false)).map fun u => ((t.kernel.ftable 0).off, t.kernel.fs.bitmap 1999,
      u.kernel.fs.bitmap 1999)) = some (3, false, false) := by
    decide +kernel
  obtain ⟨t, first, rest⟩ := Option.bind_eq_some_iff.mp runs
  obtain ⟨u, second, facts⟩ := Option.map_eq_some_iff.mp rest
  simp only [Prod.mk.injEq] at facts
  refine ⟨t, u, first, second, facts.1, ?_, facts.2.1, facts.2.2⟩
  rw [next_op_other first Bool.false_ne_true]
  rfl

theorem writers_lose_nothing_two : ∃ (as : List (Act Bool × List UInt8)) (t : Shared 1 Bool),
    Run (Roomy super 0) ⟨newFile, fun _ => none⟩ as t ∧ chunks as = [9, 9, 9, 7, 7, 7, 7, 7] ∧
    bytesOf t.kernel.fs (inoOf newFile 0) = [] ++ chunks as := by
  obtain ⟨t, u, first, second, off, other, room, room'⟩ := twoWriters_ops
  have begun : Run (Roomy super 0) ⟨newFile, fun _ => none⟩
    [(.start true (fun _ => some 9) 3, []), (.start false (fun _ => some 7) 5, [])] twoWriters := by
    refine .cons ⟨⟨rfl, rfl⟩, fun _ _ => rfl⟩ (.cons ⟨⟨?_, rfl⟩, fun _ _ => rfl⟩ (.nil _))
    simp only [next, update_of_ne Bool.false_ne_true]
    refine congrArg some ?_
    simp only [twoWriters, Shared.mk.injEq, true_and]
    funext w
    cases w <;> rfl
  have ops : Run (Roomy super 0) twoWriters [(.op true, [9, 9, 9]), (.op false, [7, 7, 7, 7, 7])] u := by
    refine .cons ⟨⟨first, rfl⟩, fun full => ?_, by decide⟩
      (.cons ⟨⟨second, by simp only [chunkOf, other]; rfl⟩, fun full => ?_, ?_⟩ (.nil _))
    · rw [full 1999 (by decide)] at room
      cases room
    · rw [full 1999 (by decide)] at room'
      cases room'
    · rw [off]
      decide
  have run := begun.append ops
  refine ⟨_, u, run, rfl, ?_⟩
  have bytes := (writers_lose_nothing ready_newFile rfl rfl rfl run).1
  rw [bytes, update_self]
  rfl

end

end Xv6.SharedWrite
