import Xv6.FsCalls
import Xv6.FsImage
import Xv6.Runs
import Xv6.Splice

/-! An open file is a byte array with a cursor. `filewrite` cuts a write into
operations of a few blocks, and `writei` cuts each of them into blocks; the effect is
that of one assignment to a stretch of the array. -/

namespace Xv6.FileBytes

open ByteFields Params FsMachine FsBlocks FsData FsDisk FsTable FsCalls Total Runs Splice Function List

structure Arrays where
  bytes : Nat → List UInt8
  cursor : Fin nfile → Nat

inductive Call
  | read (f : Fin nfile) (dst : Nat → Bool) (count : Nat)
  | write (f : Fin nfile) (src : Nat → Option UInt8) (count : Nat)

/-- The result of a call, the bytes it delivered, and whether it left no block free. -/
structure Answer where
  result : Int
  got : List UInt8
  full : Bool

def Arrays.put (a : Arrays) (f : Fin nfile) (i : Nat) (data : List UInt8) : Arrays where
  bytes := Function.update a.bytes i (splice (a.bytes i) (a.cursor f) data)
  cursor := Function.update a.cursor f (a.cursor f + data.length)

/-- The calls as operations on the arrays, where `ino f` is the inode that `f` refers
to. A write stores all its bytes, or a part of them if the array would grow too large
or no block is left. -/
def Arrays.Step (ino : Fin nfile → Nat) (a : Arrays) (x : Call × Answer) (b : Arrays) : Prop :=
  match x.1 with
  | .read f _ count =>
    x.2.got = ((a.bytes (ino f)).drop (a.cursor f)).take count ∧
    x.2.result = x.2.got.length ∧
    b = { a with cursor := Function.update a.cursor f (a.cursor f + x.2.got.length) }
  | .write f src count =>
    if a.cursor f ≤ (a.bytes (ino f)).length then
      x.2.result = count ∧ b = a.put f (ino f) (copied src 0 count) ∨
      x.2.result = -1 ∧ ∃ m, m < count ∧ b = a.put f (ino f) (copied src 0 m) ∧
        (maxfile * bsize < a.cursor f + count ∨ x.2.full = true)
    else b = a ∧ x.2.result = if count = 0 then 0 else -1

variable {n : Nat}

def bytesOf (s : Fs) (i : Nat) : List UInt8 :=
  if (s.dinode i).type = .free then []
  else (List.range (s.dinode i).size).map (content s.block (s.dinode i))

def arrays (s : State n) : Arrays := ⟨bytesOf s.fs, fun f => (s.ftable f).off⟩

def inoOf (s : State n) (f : Fin nfile) : Nat := (s.fs.itable (s.ftable f).ip).inum

def perform (sb : Super) (answer : Int) : Call → M n (Int × List UInt8)
  | .read f dst count => fileread sb f dst count answer
  | .write f src count => do
    let r ← filewrite sb f src count answer
    return (r, [])

def Step (sb : Super) (answer : Int) (s : State n) (x : Call × Answer) (t : State n) : Prop :=
  perform sb answer x.1 s = .ok ((x.2.result, x.2.got), t) ∧
    x.2.full = (List.range sb.size).all t.fs.bitmap

/-- The caller may use the file so, and all of its buffer can be accessed. -/
def Call.Fits (s : State n) : Call → Prop
  | .read f dst count => (s.ftable f).type = .inode ∧ (s.ftable f).readable = true ∧
      count < 2 ^ 31 ∧ ∀ i, i < count → dst i = true
  | .write f src count => (s.ftable f).type = .inode ∧ (s.ftable f).writable = true ∧
      Readable src count

/-- The file system is sound, and an open file refers to an inode that nobody has
locked; if it can be written it is no directory. -/
structure Ready (sb : Super) (orphan : Nat → Prop) (refs : Slot → Nat) (s : State n) : Prop where
  sound : Sound sb orphan s.fs refs
  pos : ∀ f, (s.ftable f).type = .inode → 0 < refs (s.ftable f).ip
  unlocked : ∀ f, (s.ftable f).type = .inode → (s.fs.itable (s.ftable f).ip).lock = false
  alive : ∀ f, (s.ftable f).type = .inode → (s.fs.dinode (inoOf s f)).type ≠ .free
  file : ∀ f, (s.ftable f).type = .inode → (s.ftable f).writable = true →
    (s.fs.dinode (inoOf s f)).type ≠ .dir

section
variable {i : Nat}

lemma length_bytesOf (used : (s.dinode i).type ≠ .free) : (bytesOf s i).length = (s.dinode i).size := by
  simp [bytesOf, used]

lemma bytesOf_getElem? (used : (s.dinode i).type ≠ .free)
    (lt : x < (s.dinode i).size) : (bytesOf s i)[x]? = some (content s.block (s.dinode i) x) := by
  simp [bytesOf, used, lt]

lemma copied_getElem? (lt : x < (copied src start m).length) : (copied src start m)[x]? = src (start + x) := by
  rw [copied_get src start m x lt, getD_eq_getElem?_getD, getElem?_eq_getElem lt]
  rfl

lemma copied_shift (src i start m) : copied (fun j => src (i + j)) start m = copied src (i + start) m := by
  induction m generalizing start with
  | zero => rfl
  | succ m ih =>
    unfold copied
    rw [ih]
    rfl

lemma copied_add (src i a b) (whole : (copied src i a).length = a) :
    copied src i (a + b) = copied src i a ++ copied src (i + a) b := by
  induction a generalizing i with
  | zero => simp [copied]
  | succ a ih =>
    rw [add_right_comm]
    cases here : src i with
    | none => simp [copied, here] at whole
    | some x =>
      simp only [copied, here, length_cons, Nat.add_right_cancel_iff] at whole
      have next : i + 1 + a = i + (a + 1) := by omega
      simp [copied, here, ih (i + 1) whole, next]

section
variable {a : Arrays} {f : Fin nfile} {i : Nat} (start : a.cursor f ≤ (a.bytes i).length)
include start

lemma Arrays.put_nil : a.put f i [] = a := by simp [Arrays.put, splice_nil start, update_eq_self]

lemma Arrays.put_put (d e) : (a.put f i d).put f i e = a.put f i (d ++ e) := by
  simp only [Arrays.put, update_self, update_idem, splice_splice start, length_append, add_assoc]

lemma Arrays.put_start (d) : (a.put f i d).cursor f ≤ ((a.put f i d).bytes i).length := by
  simp only [Arrays.put, update_self, length_splice start]
  omega

end

lemma bytesOf_wrote (wrote : Wrote sb k src off n tot c s t) (disk : Disk sb s.bitmap s.block s.dinode)
    (clean : (s.itable k).copy = s.dinode (s.itable k).inum)
    (used : (s.itable k).copy.type ≠ .free) (all : Readable src n) :
    bytesOf t = update (bytesOf s) (s.itable k).inum (splice (bytesOf s (s.itable k).inum) off (copied src 0 tot)) := by
  have agree := wrote.agree tot (.inr ⟨all, rfl⟩)
  have stored := copied_length all 0 tot (by have := wrote.le; omega)
  funext i
  by_cases hi : i = (s.itable k).inum
  · subst hi
    rw [clean] at used
    have used' : (t.dinode (s.itable k).inum).type ≠ .free := by rwa [agree.type]
    have here := wrote.rewrites.self
    have size := wrote.size
    have start := wrote.start
    rw [clean] at size start
    rw [update_self]
    apply eq_splice
    · rwa [length_bytesOf used]
    · rw [length_bytesOf used, length_bytesOf used', here, size, stored]
    · intro x lo hi
      rw [stored] at hi
      rw [bytesOf_getElem? used' (by rw [here, size]; omega), here, copied_getElem? (by omega), zero_add]
      exact (wrote.bytes x lo hi).symm
    · intro x lt away
      rw [stored] at away
      rw [length_bytesOf used] at lt
      rw [bytesOf_getElem? used' (by rw [here, size]; omega), bytesOf_getElem? used lt]
      have mapped := disk.whole _ used (x / bsize) (by
        have := Nat.div_mul_le_self x bsize
        omega)
      rw [agree.bytes _ x used mapped fun _ => away]
  · rw [update_of_ne hi]
    have same := wrote.rewrites.other hi
    unfold bytesOf
    rw [same]
    split
    · rfl
    · rename_i used'
      apply map_congr_left
      intro x mem
      have mapped := disk.whole i used' (x / bsize) (by
        have := Nat.div_mul_le_self x bsize
        have := mem_range.mp mem
        omega)
      rw [← agree.bytes i x used' mapped fun eq => absurd eq hi, same]

end

section
variable {E : String → Prop} {sb : Super} {O : Nat → Prop} {refs : Slot → Nat}
  {s t u : State n} {f : Fin nfile}

lemma onFs_safe (h : Safe E g s.fs Q) : Safe E (onFs g) s fun a t => ∃ fs, t = { s with fs := fs } ∧ Q a fs := by
  unfold Safe onFs at *
  cases ran : g s.fs with
  | error e => simpa only [ran] using h
  | ok p =>
    rw [ran] at h
    exact ⟨p.2, rfl, h⟩

lemma onFs_eq (h : g s.fs = .ok (a, fs)) : onFs g s = .ok (a, { s with fs := fs }) := by simp [onFs, h]

structure Steady (s t : State n) : Prop where
  proc : t.proc = s.proc
  inum : ∀ k, (t.fs.itable k).inum = (s.fs.itable k).inum
  file : ∀ g, ∃ off, t.ftable g = { s.ftable g with off := off }

lemma Steady.refl : Steady s s := ⟨rfl, fun _ => rfl, fun g => ⟨(s.ftable g).off, rfl⟩⟩

lemma Steady.trans (h : Steady s t) (h' : Steady t u) : Steady s u where
  proc := h'.proc.trans h.proc
  inum k := (h'.inum k).trans (h.inum k)
  file g := by
    obtain ⟨off, eq⟩ := h.file g
    obtain ⟨off', eq'⟩ := h'.file g
    exact ⟨off', by rw [eq', eq]⟩

lemma Steady.inoOf (h : Steady s t) (g) : inoOf t g = inoOf s g := by
  obtain ⟨off, eq⟩ := h.file g
  rw [FileBytes.inoOf, FileBytes.inoOf, eq, h.inum]

lemma Steady.fits (h : Steady s t) {c : Call} (fits : c.Fits s) : c.Fits t := by
  cases c with
  | read g dst count =>
    obtain ⟨off, eq⟩ := h.file g
    rw [Call.Fits, eq]
    exact fits
  | write g src count =>
    obtain ⟨off, eq⟩ := h.file g
    rw [Call.Fits, eq]
    exact fits

lemma Ready.steady (ready : Ready sb O refs s) (h : Steady s t) (sound : Sound sb O t.fs refs)
    (lock : ∀ k, (s.fs.itable k).lock = false → (t.fs.itable k).lock = false)
    (type : ∀ i, (t.fs.dinode i).type = (s.fs.dinode i).type) : Ready sb O refs t := by
  have same : ∀ g, (t.ftable g).type = (s.ftable g).type ∧ (t.ftable g).ip = (s.ftable g).ip ∧
    (t.ftable g).writable = (s.ftable g).writable := by
    intro g
    obtain ⟨off, eq⟩ := h.file g
    rw [eq]
    exact ⟨rfl, rfl, rfl⟩
  refine ⟨sound, ?_, ?_, ?_, ?_⟩
  · intro g isIno
    rw [(same g).1] at isIno
    rw [(same g).2.1]
    exact ready.pos g isIno
  · intro g isIno
    rw [(same g).1] at isIno
    rw [(same g).2.1]
    exact lock _ (ready.unlocked g isIno)
  · intro g isIno
    rw [(same g).1] at isIno
    rw [h.inoOf, type]
    exact ready.alive g isIno
  · intro g isIno writable
    rw [(same g).1] at isIno
    rw [(same g).2.2] at writable
    rw [h.inoOf, type]
    exact ready.file g isIno writable

lemma advance_safe (f) (r : Int) : Safe E (if 0 < r then modFile f fun file => { file with off := file.off + r.toNat }
    else pure ()) s fun _ t => t.fs = s.fs ∧ t.proc = s.proc ∧ t.ftable =
      update s.ftable f { s.ftable f with off := (s.ftable f).off + r.toNat } := by
  split
  · exact safe_modify ⟨rfl, rfl, rfl⟩
  · rename_i none
    have zero : r.toNat = 0 := by omega
    rw [zero, add_zero, update_eq_self]
    exact safe_pure ⟨rfl, rfl, rfl⟩

def entered (s : Fs) (k : Slot) : Fs := locked { s with outstanding := s.outstanding + 1 } k

lemma entered_slot (s k) : (entered s k).itable k = { s.itable k with
    lock := true
    valid := true
    copy := s.dinode (s.itable k).inum } := update_self ..

lemma entered_other (s) (h : l ≠ k) : (entered s k).itable l = s.itable l := update_of_ne h ..

lemma begin_safe (ready : Ready sb O refs s) (isIno : (s.ftable f).type = .inode) :
    Safe E (do beginOp; ilock (s.ftable f).ip) s.fs fun _ t =>
      t = entered s.fs (s.ftable f).ip := by
  have sound : Sound sb O { s.fs with outstanding := s.fs.outstanding + 1 } refs :=
    ⟨ready.sound.disk, ready.sound.table⟩
  apply safe_mod
  apply (ilock_eq sound (ready.pos f isIno) (.inl (ready.unlocked f isIno)) (.inl (ready.alive f isIno))).mono
  rintro _ _ ⟨rfl, -⟩
  rfl

lemma end_safe (sound : Sound sb O fs refs) (pos : 0 < refs k) (mine : (fs.itable k).lock = true) :
    Safe E (do iunlock k; endOp) fs fun _ t => ∃ m l, t = { unlocked fs k with outstanding := m, lh := l } := by
  apply Safe.bind (iunlock_eq sound pos (.inl mine))
  rintro _ _ rfl
  exact safe_modify ⟨_, _, rfl⟩

lemma finish_safe (ready : Ready sb O refs s)
    (ends : Safe E g fs fun _ v => ∃ m l, v = { unlocked fs (s.ftable f).ip with outstanding := m, lh := l })
    (sound : Sound sb O fs refs)
    (slots : ∀ l, (fs.itable l).inum = ((entered s.fs (s.ftable f).ip).itable l).inum ∧
      (fs.itable l).lock = ((entered s.fs (s.ftable f).ip).itable l).lock)
    (type : ∀ i, (fs.dinode i).type = (s.fs.dinode i).type)
    (here : t.fs = fs) (proc : t.proc = s.proc)
    (ftable : t.ftable = update s.ftable f { s.ftable f with off := off }) :
    Safe E (onFs g) t fun _ u =>
      Ready sb O refs u ∧ Steady s u ∧ u.fs.bitmap = fs.bitmap ∧
      arrays u = ⟨bytesOf fs, update (arrays s).cursor f off⟩ := by
  subst here
  apply (onFs_safe ends).mono
  rintro _ _ ⟨_, rfl, m, l, rfl⟩
  have slot : ∀ k, ((unlocked t.fs (s.ftable f).ip).itable k).inum = (s.fs.itable k).inum ∧
    ((s.fs.itable k).lock = false → ((unlocked t.fs (s.ftable f).ip).itable k).lock = false) := by
    intro k
    by_cases hk : k = (s.ftable f).ip
    · subst hk
      simp only [unlocked, update_self, implies_true, and_true]
      rw [(slots _).1, entered_slot]
    · simp only [unlocked, update_of_ne hk]
      rw [(slots k).1, (slots k).2, entered_other _ hk]
      exact ⟨rfl, id⟩
  have steady : Steady s { t with
    fs := { unlocked t.fs (s.ftable f).ip with outstanding := m, lh := l } } := by
    refine ⟨proc, fun k => (slot k).1, fun g => ?_⟩
    by_cases hg : g = f
    · subst hg
      exact ⟨off, by simp only [ftable, update_self]⟩
    · exact ⟨(s.ftable g).off, by simp only [ftable, update_of_ne hg]⟩
  refine ⟨ready.steady steady ?_ (fun k => (slot k).2) type, steady, rfl, ?_⟩
  · exact ⟨sound.disk, sound.table.touch rfl rfl rfl rfl⟩
  · simp only [arrays, Arrays.mk.injEq, ftable]
    refine ⟨rfl, ?_⟩
    funext g
    by_cases hg : g = f
    · subst hg
      simp
    · simp [update_of_ne hg]

lemma writeOp_safe (ready : Ready sb O refs s) (isIno : (s.ftable f).type = .inode)
    (writable : (s.ftable f).writable = true)
    (all : Readable src n1) :
    Safe E (writeOp sb f src n1) s fun r t => Ready sb O refs t ∧ Steady s t ∧
      (r = -1 ∧ arrays t = arrays s ∧ ((bytesOf s.fs (inoOf s f)).length < (s.ftable f).off ∨
            maxfile * bsize < (s.ftable f).off + n1) ∨
        ∃ tot : Nat, r = tot ∧ tot ≤ n1 ∧ (tot = n1 ∨ Full sb t.fs.bitmap) ∧
          (s.ftable f).off ≤ (bytesOf s.fs (inoOf s f)).length ∧
          arrays t = (arrays s).put f (inoOf s f) (copied src 0 tot)) := by
  have pos := ready.pos f isIno
  have alive := ready.alive f isIno
  have length := length_bytesOf alive
  have sound : Sound sb O (entered s.fs (s.ftable f).ip) refs :=
    Sound.locked ⟨ready.sound.disk, ready.sound.table⟩ alive
  have slot := entered_slot s.fs (s.ftable f).ip
  have valid : ((entered s.fs (s.ftable f).ip).itable (s.ftable f).ip).valid = true := by rw [slot]
  have size : ((entered s.fs (s.ftable f).ip).itable (s.ftable f).ip).copy.size =
      (bytesOf s.fs (inoOf s f)).length := by
    rw [slot, length]
    rfl
  have log : Logged E (entered s.fs (s.ftable f).ip) := .inl (Nat.succ_pos _)
  have clean := sound.clean pos valid
  have used := sound.used pos valid
  apply safe_get
  apply Safe.bind (onFs_safe (begin_safe ready isIno))
  rintro _ _ ⟨_, rfl, rfl⟩
  apply Safe.bind (onFs_safe (writei_safe log sound.disk clean used src (s.ftable f).off n1))
  rintro r _ ⟨fs, rfl, post⟩
  apply Safe.bind (advance_safe f r)
  rintro _ t ⟨here, proc, ftable⟩
  rcases post with ⟨rfl, rfl, why⟩ | ⟨tot, c, rfl, wrote⟩
  · apply Safe.bind (finish_safe ready (end_safe sound pos (by rw [slot])) sound
      (fun _ => ⟨rfl, rfl⟩) (fun _ => rfl) here proc ftable)
    rintro _ u ⟨ready', steady, -, same⟩
    refine safe_pure ⟨ready', steady, .inl ⟨rfl, ?_, by rwa [size] at why⟩⟩
    rw [same]
    simp only [arrays, Arrays.mk.injEq]
    exact ⟨rfl, update_eq_self ..⟩
  · have file : ((entered s.fs (s.ftable f).ip).itable (s.ftable f).ip).copy.type ≠ .dir := by
      rw [slot]
      exact ready.file f isIno writable
    obtain ⟨disk, -⟩ := wrote.disk_file sound.disk clean file
    obtain ⟨table, -, -⟩ := sound.wrote pos valid wrote
    have stored := copied_length all 0 tot (by have := wrote.le; omega)
    have start := wrote.start
    rw [size] at start
    have mine : (fs.itable (s.ftable f).ip).lock = true := by rw [(wrote.rewrites.slot _).2, slot]
    apply Safe.bind (finish_safe ready (end_safe ⟨disk, table⟩ pos mine) ⟨disk, table⟩
      wrote.rewrites.slot (wrote.agree n1 (.inl rfl)).type here proc ftable)
    rintro _ u ⟨ready', steady, bitmap, changed⟩
    refine safe_pure ⟨ready', steady, .inr ⟨tot, rfl, wrote.le, ?_, start, ?_⟩⟩
    · rw [bitmap]
      exact (wrote.short all).imp_right And.left
    · rw [changed, bytesOf_wrote wrote sound.disk clean used all, slot]
      simp only [Arrays.put, stored, arrays, Arrays.mk.injEq]
      exact ⟨rfl, rfl⟩

/-- What the loop of `filewrite`, from byte `i` on, has stored when it answers `r`. -/
structure Stored (sb : Super) (f : Fin nfile) (src : Nat → Option UInt8) (count i : Nat)
    (s : State n) (r : Nat) (t : State n) : Prop where
  inside : (arrays s).cursor f ≤ ((arrays s).bytes (inoOf s f)).length →
    r = count ∧ arrays t = (arrays s).put f (inoOf s f) (copied src i (count - i)) ∨
    r < count ∧ ∃ m, m < count - i ∧ arrays t = (arrays s).put f (inoOf s f) (copied src i m) ∧
      (maxfile * bsize < (arrays s).cursor f + (count - i) ∨ Full sb t.fs.bitmap)
  outside : ((arrays s).bytes (inoOf s f)).length < (arrays s).cursor f →
    r = i ∧ arrays t = arrays s

section
variable {src : Nat → Option UInt8} {count i tot r : Nat}

lemma Stored.done : Stored sb f src i i s i s := by
  refine ⟨fun start => .inl ⟨rfl, ?_⟩, fun _ => ⟨rfl, rfl⟩⟩
  rw [Nat.sub_self]
  exact (Arrays.put_nil start).symm

lemma Stored.short (more : i < count) (less : tot < count - i)
    (start : (arrays s).cursor f ≤ ((arrays s).bytes (inoOf s f)).length)
    (stored : arrays t = (arrays s).put f (inoOf s f) (copied src i tot))
    (why : maxfile * bsize < (arrays s).cursor f + (count - i) ∨ Full sb t.fs.bitmap) :
    Stored sb f src count i s i t :=
  ⟨fun _ => .inr ⟨more, tot, less, stored, why⟩, fun past => by omega⟩

lemma Stored.more (all : Readable src count) (le : i + tot ≤ count) (same : inoOf t f = inoOf s f)
    (start : (arrays s).cursor f ≤ ((arrays s).bytes (inoOf s f)).length)
    (stored : arrays t = (arrays s).put f (inoOf s f) (copied src i tot))
    (rest : Stored sb f src count (i + tot) t r u) : Stored sb f src count i s r u := by
  have whole := copied_length all i tot le
  have cursor : (arrays t).cursor f = (arrays s).cursor f + tot := by
    rw [stored, Arrays.put, whole]
    exact update_self ..
  refine ⟨fun _ => ?_, fun past => by omega⟩
  have start' : (arrays t).cursor f ≤ ((arrays t).bytes (inoOf t f)).length := by
    rw [stored, same]
    exact Arrays.put_start start _
  obtain ⟨done, eq⟩ | ⟨fewer, m, less, eq, why⟩ := rest.inside start'
  · refine .inl ⟨done, ?_⟩
    have sum : count - i = tot + (count - (i + tot)) := by omega
    rw [eq, stored, same, Arrays.put_put start, sum, copied_add src i tot _ whole]
  · refine .inr ⟨fewer, tot + m, by omega, ?_, why.imp_left fun long => by omega⟩
    rw [eq, stored, same, Arrays.put_put start, copied_add src i tot _ whole]

lemma writeChunks_safe (ready : Ready sb O refs s) (isIno : (s.ftable f).type = .inode)
    (writable : (s.ftable f).writable = true) (all : Readable src count) (fuel i)
    (le : i ≤ count) (enough : count - i ≤ fuel) :
    Safe E (writeChunks sb f src fuel count i) s fun r t =>
      Ready sb O refs t ∧ Steady s t ∧ Stored sb f src count i s r t := by
  induction fuel generalizing s i with
  | zero =>
    obtain rfl : i = count := by omega
    exact safe_pure ⟨ready, .refl, .done⟩
  | succ fuel ih =>
    unfold writeChunks
    split
    · rename_i more
      generalize size : min (count - i) writeMax = n1
      have pos : 0 < n1 := by
        have : 0 < writeMax := by decide
        omega
      apply Safe.bind (writeOp_safe ready isIno writable fun x lt => all (i + x) (by omega))
      rintro r t ⟨ready', steady, ⟨rfl, same, why⟩ | ⟨tot, rfl, most, full, start, stored⟩⟩
      · rw [if_neg (by omega)]
        refine safe_pure ⟨ready', steady, ⟨fun start => .inr ⟨more, 0, by omega, ?_, .inl ?_⟩, fun _ => ⟨rfl, same⟩⟩⟩
        · rw [same]
          exact (Arrays.put_nil start).symm
        · have long := why.resolve_left (not_lt.mpr start)
          have here : (arrays s).cursor f = (s.ftable f).off := rfl
          omega
      · rw [copied_shift, add_zero] at stored
        split
        · rename_i done
          obtain rfl : tot = n1 := by omega
          obtain ⟨off, file⟩ := steady.file f
          apply (ih ready' (by rw [file]; exact isIno) (by rw [file]; exact writable) (i + tot)
            (by omega) (by omega)).mono
          rintro r u ⟨ready'', steady', rest⟩
          exact ⟨ready'', steady.trans steady', .more all (by omega) (steady.inoOf f) start stored rest⟩
        · rename_i less
          exact safe_pure ⟨ready', steady, .short more (by omega) start stored
            (.inr (full.resolve_left fun done => less (by rw [done])))⟩
    · obtain rfl : i = count := by omega
      exact safe_pure ⟨ready, .refl, .done⟩

end

lemma filewrite_safe (ready : Ready sb O refs s) (isIno : (s.ftable f).type = .inode)
    (writable : (s.ftable f).writable = true) {count : Nat}
    (all : Readable src count) (answer) :
    Safe E (filewrite sb f src count answer) s fun r t =>
      Ready sb O refs t ∧ Steady s t ∧ ∀ full, (Full sb t.fs.bitmap → full = true) →
        (arrays s).Step (inoOf s) (.write f src count, ⟨r, [], full⟩) (arrays t) := by
  apply safe_get
  rw [if_neg (by simp [writable]), isIno, Int.toNat_natCast]
  apply Safe.bind (writeChunks_safe ready isIno writable all count 0 (Nat.zero_le _) (by omega))
  rintro i t ⟨ready', steady, stored⟩
  refine safe_pure ⟨ready', steady, fun full isFull => ?_⟩
  unfold Arrays.Step
  dsimp only
  split
  · rename_i start
    obtain ⟨rfl, eq⟩ | ⟨fewer, m, less, eq, why⟩ := stored.inside start
    · exact .inl ⟨if_pos rfl, eq⟩
    · exact .inr ⟨if_neg (by omega), m, less, eq, why.imp_right isFull⟩
  · rename_i past
    obtain ⟨rfl, eq⟩ := stored.outside (by omega)
    refine ⟨eq, ?_⟩
    by_cases none : count = 0
    · simp [none]
    · rw [if_neg none, if_neg (by omega)]

lemma bytesOf_window {s : Fs} (used : (s.dinode i).type ≠ .free) (off count) :
    ((range (min count ((s.dinode i).size - off))).map fun x =>
      content s.block (s.dinode i) (off + x)) = ((bytesOf s i).drop off).take count := by
  have length := length_bytesOf used
  apply ext_getElem?
  intro x
  by_cases lt : x < min count ((s.dinode i).size - off)
  · rw [getElem?_take_of_lt (by omega), getElem?_drop, bytesOf_getElem? used (by omega)]
    simp [lt]
  · rw [getElem?_eq_none (by simp; omega), getElem?_eq_none]
    rw [length_take, length_drop]
    omega

lemma fileread_safe (ready : Ready sb O refs s) (isIno : (s.ftable f).type = .inode)
    (readable : (s.ftable f).readable = true) {count : Int}
    (fits : (s.fs.dinode (inoOf s f)).size < (s.ftable f).off ∨ (s.ftable f).off + uint count < 2 ^ 32)
    (all : ∀ i, i < uint count → dst i = true) (answer : Int) :
    Safe E (fileread sb f dst count answer) s fun r t =>
      Ready sb O refs t ∧ Steady s t ∧ ∀ full,
        (arrays s).Step (inoOf s) (.read f dst (uint count), ⟨r.1, r.2, full⟩) (arrays t) := by
  have pos := ready.pos f isIno
  have alive := ready.alive f isIno
  have sound := ready.sound.locked alive
  have slot : (locked s.fs (s.ftable f).ip).itable (s.ftable f).ip = { s.fs.itable (s.ftable f).ip with
        lock := true
        valid := true
        copy := s.fs.dinode (inoOf s f) } := update_self ..
  have whole := sound.whole pos (by rw [slot])
  apply safe_get
  rw [if_neg (by simp [readable]), isIno]
  apply Safe.bind (onFs_safe (ilock_eq ready.sound pos (.inl (ready.unlocked f isIno)) (.inl alive)))
  rintro _ _ ⟨_, rfl, rfl, -⟩
  apply safe_bind_eq (onFs_eq (readi_all whole (by rwa [slot]) all))
  rw [slot]
  generalize amount : min (uint count) ((s.fs.dinode (inoOf s f)).size - (s.ftable f).off) = m
  apply Safe.bind (advance_safe f m)
  rintro _ t ⟨here, proc, ftable⟩
  have ends := (iunlock_eq (E := E) sound pos (.inl (by rw [slot]))).mono fun _ v (h : v = _) =>
    (⟨_, _, h⟩ : ∃ m l, v = { unlocked (locked s.fs (s.ftable f).ip) (s.ftable f).ip with
      outstanding := m, lh := l })
  apply Safe.bind (finish_safe ready ends sound (fun _ => ⟨rfl, rfl⟩) (fun _ => rfl) here proc ftable)
  rintro _ u ⟨ready', steady, -, changed⟩
  refine safe_pure ⟨ready', steady, fun full => ?_⟩
  have window := bytesOf_window alive (s.ftable f).off (uint count)
  rw [amount] at window
  refine ⟨window, ?_, ?_⟩
  · rw [length_map, length_range]
  · rw [changed, length_map, length_range, Int.toNat_natCast]
    rfl

lemma call_safe (ready : Ready sb O refs s) {c : Call} (fits : c.Fits s) (answer) :
    ∃ x t, Step sb answer s (c, x) t ∧ Ready sb O refs t ∧
      Steady s t ∧ (arrays s).Step (inoOf s) (c, x) (arrays t) := by
  cases c with
  | read f dst count =>
    obtain ⟨isIno, readable, small, all⟩ := fits
    have arg : uint (count : Int) = count := by
      unfold uint
      omega
    have bound : maxfile * bsize < 2 ^ 31 := by decide
    have most := (ready.sound.disk.whole _ (ready.alive f isIno)).size_le
    have fits : (s.fs.dinode (inoOf s f)).size < (s.ftable f).off ∨ (s.ftable f).off + uint count < 2 ^ 32 := by omega
    obtain ⟨r, t, ran, ready', steady, step⟩ := (fileread_safe ready isIno readable fits (by rwa [arg]) answer).returns
    rw [arg] at step
    exact ⟨⟨r.1, r.2, (range sb.size).all t.fs.bitmap⟩, t, ⟨ran, rfl⟩, ready', steady, step _⟩
  | write f src count =>
    obtain ⟨isIno, writable, all⟩ := fits
    obtain ⟨r, t, ran, ready', steady, step⟩ := (filewrite_safe ready isIno writable all answer).returns
    refine ⟨⟨r, [], (range sb.size).all t.fs.bitmap⟩, t, ⟨?_, rfl⟩, ready', steady, step _ fun full => ?_⟩
    · rw [perform, bind_of_eq ran]
      rfl
    · exact all_eq_true.mpr fun b mem => full b (mem_range.mp mem)

end

/-- Every sequence of reads and writes of open files returns, and does to the files what `Arrays.Step`
does to the arrays, of which none is longer than a file can be. -/
theorem files_refine_arrays {n : Nat} {sb : Super} {orphan : Nat → Prop} {refs : Slot → Nat}
    {s : State n} (ready : Ready sb orphan refs s) (answer : Int) (calls : List Call)
    (fits : ∀ c ∈ calls, c.Fits s) :
    ∃ (xs : List (Call × Answer)) (t : State n), xs.map Prod.fst = calls ∧
      Run (Step sb answer) s xs t ∧ Run (Arrays.Step (inoOf s)) (arrays s) xs (arrays t) ∧
      ∀ i, ((arrays t).bytes i).length ≤ maxfile * bsize := by
  induction calls generalizing s with
  | nil =>
    refine ⟨[], s, rfl, .nil s, .nil _, fun i => ?_⟩
    change (bytesOf s.fs i).length ≤ _
    by_cases free : (s.fs.dinode i).type = .free
    · simp [bytesOf, free]
    · rw [length_bytesOf free]
      exact (ready.sound.disk.whole i free).size_le
  | cons c calls ih =>
    obtain ⟨x, t, ran, ready', steady, step⟩ := call_safe ready (fits c List.mem_cons_self) answer
    obtain ⟨xs, u, same, run, arun, bound⟩ :=
      ih ready' fun d mem => steady.fits (fits d (List.mem_cons_of_mem _ mem))
    have ino := funext steady.inoOf
    rw [ino] at arun
    exact ⟨(c, x) :: xs, u, by rw [List.map_cons, same], .cons ran run, .cons step arun, bound⟩

section
open FsImage

def newInode : Dinode := { Dinode.zero with type := .file, nlink := 1 }

def newFs : Fs := { image with
  dinode := Function.update image.dinode 2 newInode
  itable := Function.update image.itable 1 ⟨2, 1, false, false, Dinode.zero⟩ }

def newFile : State 1 where
  fs := newFs
  ftable f := if f = 0 then ⟨.inode, 1, true, true, 1, 0, 0⟩ else ⟨.none, 0, false, false, 0, 0, 0⟩
  proc _ := ⟨true, 0, fun fd => if fd = 0 then some 0 else none⟩

lemma sound_newFs : Sound super (fun _ => False) newFs (bump cwdRefs 1) := by
  have image_table := (sound_image fun _ => False).table
  have owned : Owned super image.bitmap fun p =>
    if p.inode = 2 then 0 else ptr image.block image.dinode p := by
    have same : (fun p : Place => if p.inode = 2 then 0 else ptr image.block image.dinode p) =
      ptr image.block image.dinode := by
      funext p
      split
      · rename_i here
        rw [ptr_image, if_neg]
        rintro rfl
        exact absurd here (by decide)
      · rfl
    rw [same]
    exact owned_image
  refine ⟨disk_image.setEmpty owned rfl rfl (.inr (by decide)), Table.take ⟨image_table.ref,
    image_table.uniq, image_table.inside, ?_, ?_⟩ rfl (by decide) (fun pos => ?_) fun _ => ?_⟩
  · intro k pos valid
    by_cases hk : k = 0
    · subst hk
      cases valid
    · simp [cwdRefs, hk] at pos
  · intro i _ used zero
    by_cases hi : i = 2
    · subst hi
      exact absurd zero (by decide)
    · have old : newFs.dinode i = image.dinode i := update_of_ne hi ..
      rw [old] at used zero
      by_cases root : i = rootIno
      · subst root
        exact absurd zero (by decide)
      · exact absurd (dinode_other root) used
  · exact absurd pos (by decide)
  · refine ⟨rfl, fun l pos => ?_⟩
    by_cases hl : l = 0
    · subst hl
      decide
    · simp [cwdRefs, hl] at pos

lemma ready_newFile : Ready super (fun _ => False) (bump cwdRefs 1) newFile := by
  have only : ∀ f, (newFile.ftable f).type = .inode → f = 0 := by
    intro f isIno
    by_contra other
    simp [newFile, other] at isIno
  refine ⟨sound_newFs, ?_, ?_, ?_, ?_⟩
  · intro f isIno
    rw [only f isIno]
    decide
  · intro f isIno
    rw [only f isIno]
    decide
  · intro f isIno
    rw [only f isIno]
    decide
  · intro f isIno _
    rw [only f isIno]
    decide

theorem files_refine_arrays_written : ∃ (xs : List (Call × Answer)) (t : State 1),
    xs.map Prod.fst = [.write 0 (fun _ => some 7) 5, .read 0 (fun _ => true) 9] ∧
    Run (Step super 0) newFile xs t ∧
    Run (Arrays.Step (inoOf newFile)) (arrays newFile) xs (arrays t) := by
  have fits : ∀ c ∈ [Call.write 0 (fun _ => some 7) 5, .read 0 (fun _ => true) 9], c.Fits newFile := by
    intro c mem
    simp only [List.mem_cons, List.not_mem_nil, or_false] at mem
    rcases mem with rfl | rfl
    · exact ⟨rfl, rfl, fun _ _ => rfl⟩
    · exact ⟨rfl, rfl, by decide, fun _ _ => rfl⟩
  obtain ⟨xs, t, same, run, arun, -⟩ := files_refine_arrays ready_newFile 0 _ fits
  exact ⟨xs, t, same, run, arun⟩

end

end Xv6.FileBytes
