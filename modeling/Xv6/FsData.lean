import Xv6.FsBlocks
import Xv6.FsTree

/-! What `readi` and `writei` do to the bytes of a file. A file without holes is
read without a change of state; a write changes only bytes of its own range, in
its own file, and may add blocks past the end. -/

namespace Xv6.FsData

open ByteFields Params FsMachine FsTree FsBlocks Total Function List

variable {sb : Super} {s : Fs} {k : Slot}

def Whole (block : Nat → Bytes bsize) (d : Dinode) : Prop :=
  ∀ bn, bn * bsize < d.size → addrOf block d bn ≠ 0

lemma Whole.size_le (whole : Whole block d) : d.size ≤ maxfile * bsize := by
  by_contra past
  exact whole maxfile (by omega) (addrOf_past d (le_rfl))

lemma lt_maxfile_of_addrOf (has : addrOf block d bn ≠ 0) : bn < maxfile := by
  by_contra past
  exact has (addrOf_past d (by omega))

lemma loadAddr_eq (has : (s.itable k).copy.addrs a ≠ 0) : loadAddr sb k a s = .ok ((s.itable k).copy.addrs a, s) := by
  unfold loadAddr
  rw [bind_of_eq rfl, if_neg has]
  rfl

lemma bmap_eq (has : addrOf s.block (s.itable k).copy bn ≠ 0) :
    bmap sb k bn s = .ok (addrOf s.block (s.itable k).copy bn, s) := by
  have high := lt_maxfile_of_addrOf has
  unfold bmap
  split
  · rename_i direct
    rw [addrOf_direct _ direct] at has ⊢
    exact loadAddr_eq has
  · rename_i low
    have ind : (s.itable k).copy.addrs (Fin.last ndirect) ≠ 0 := by
      intro none
      exact has (addrOf_none _ (by omega) none)
    rw [addrOf_entry _ (by omega) high ind] at has ⊢
    unfold maxfile at high
    rw [if_pos (by omega), bind_of_eq (loadAddr_eq ind), if_neg ind, loadEntry, bind_of_eq rfl, if_neg has]
    rfl

lemma bsize_pos : 0 < bsize := by decide

lemma div_mod_add (h : off % bsize + t < bsize) :
    (off + t) / bsize = off / bsize ∧ (off + t) % bsize = off % bsize + t := by
  unfold bsize at *
  omega

lemma peekBytes_content (block d) (fits : off % bsize + m ≤ bsize) :
    peekBytes (block (addrOf block d (off / bsize))) (off % bsize) m =
      (range m).map fun t => content block d (off + t) := by
  apply map_congr_left
  intro t mem
  have lt : t < m := mem_range.mp mem
  obtain ⟨quot, rem⟩ := div_mod_add (show off % bsize + t < bsize by omega)
  rw [content, quot, rem]

section
variable (whole : Whole s.block (s.itable k).copy)
include whole

/-- The loop of `readi` on mapped blocks leaves the state as it is, and gets all
the bytes if the destination takes them. -/
lemma readLoop_eq (dst fuel n off tot got) (fits : off + (n - tot) ≤ (s.itable k).copy.size) :
    ∃ r, readLoop sb k dst fuel n off tot got s = .ok (r, s) ∧
      ((∀ i, i < n → dst i = true) → n - tot ≤ fuel → tot ≤ n → r = ((n : Int), got ++
        (range (n - tot)).map fun t => content s.block (s.itable k).copy (off + t))) := by
  induction fuel generalizing off tot got with
  | zero =>
    refine ⟨_, rfl, fun _ short le => ?_⟩
    have eq : tot = n := by omega
    simp [eq]
  | succ fuel ih =>
    unfold readLoop
    by_cases more : tot < n
    · have below : off / bsize * bsize < (s.itable k).copy.size := by
        have := Nat.div_mul_le_self off bsize
        omega
      have room := Nat.mod_lt off bsize_pos
      rw [if_pos more, bind_of_eq (bmap_eq (whole _ below)), if_neg (whole _ below), bind_of_eq rfl]
      have inBlock : off % bsize + min (n - tot) (bsize - off % bsize) ≤ bsize := by omega
      rw [peekBytes_content s.block (s.itable k).copy inBlock]
      generalize hm : min (n - tot) (bsize - off % bsize) = m
      have le : m ≤ n - tot := by omega
      split
      · rename_i short
        refine ⟨_, rfl, fun all _ _ => ?_⟩
        have taken : ∀ i ∈ range m, dst (tot + i) = true := fun i mem =>
          all (tot + i) (by have := mem_range.mp mem; omega)
        rw [takeWhile_eq_self_iff.mpr taken, length_range] at short
        omega
      · obtain ⟨r, eq, full⟩ := ih (off + m) (tot + m) (got ++ (range m).map fun t =>
          content s.block (s.itable k).copy (off + t)) (by omega)
        refine ⟨r, eq, fun all enough _ => ?_⟩
        rw [full all (by omega) (by omega), append_assoc]
        congr 2
        have sum : n - tot = m + (n - (tot + m)) := by omega
        rw [sum, range_add, map_append, map_map]
        congr 1
        apply map_congr_left
        intro t _
        simp only [comp_apply, add_assoc]
    · rw [if_neg more]
      refine ⟨_, rfl, fun _ _ le => ?_⟩
      have eq : tot = n := by omega
      simp [eq]

lemma readi_eq (dst off n) : ∃ r, readi sb k dst off n s = .ok (r, s) := by
  unfold readi
  rw [bind_of_eq rfl]
  split
  · exact ⟨_, rfl⟩
  · rename_i inside
    split
    · obtain ⟨r, eq, -⟩ := readLoop_eq whole dst ((s.itable k).copy.size - off)
        ((s.itable k).copy.size - off) off 0 [] (by omega)
      exact ⟨r, eq⟩
    · obtain ⟨r, eq, -⟩ := readLoop_eq whole dst n n off 0 [] (by omega)
      exact ⟨r, eq⟩

lemma readi_all (fits : (s.itable k).copy.size < off ∨ off + n < 2 ^ 32) (all : ∀ i, i < n → dst i = true) :
    readi sb k dst off n s = .ok ((((min n ((s.itable k).copy.size - off) : Nat) : Int),
      (range (min n ((s.itable k).copy.size - off))).map fun t =>
        content s.block (s.itable k).copy (off + t)), s) := by
  unfold readi
  rw [bind_of_eq rfl]
  by_cases past : (s.itable k).copy.size < off
  · have none : min n ((s.itable k).copy.size - off) = 0 := by omega
    rw [if_pos (.inl past), none]
    rfl
  rw [if_neg (by omega)]
  have count : (if (s.itable k).copy.size < off + n then (s.itable k).copy.size - off else n) =
    min n ((s.itable k).copy.size - off) := by
    split <;> omega
  rw [count]
  obtain ⟨r, eq, full⟩ : ∃ r, readLoop sb k _ _ _ _ _ _ _ = _ ∧ _ :=
    readLoop_eq whole dst (min n ((s.itable k).copy.size - off))
      (min n ((s.itable k).copy.size - off)) off 0 [] (by omega)
  rw [eq, full (fun i below => all i (by omega)) (by omega) (by omega)]
  simp

end

def rawEnt (block : Nat → Bytes bsize) (d : Dinode) (j : Nat) : Dirent :=
  Dirent.decode ((List.range direntSize).map fun t => content block d (direntSize * j + t))

lemma readDirent_eq (whole : Whole s.block (s.itable k).copy) (below : direntSize * j < (s.itable k).copy.size) :
    readDirent sb k (direntSize * j) s = .ok (if j < (s.itable k).copy.size / direntSize then
      some (rawEnt s.block (s.itable k).copy j) else none, s) := by
  have small : (s.itable k).copy.size ≤ maxfile * bsize := whole.size_le
  have bound : maxfile * bsize < 2 ^ 31 := by decide
  have fits : direntSize * j + direntSize < 2 ^ 32 := by
    unfold direntSize dirsiz at *
    omega
  unfold readDirent
  rw [bind_of_eq (readi_all whole (.inr fits) fun _ _ => rfl)]
  by_cases inside : j < (s.itable k).copy.size / direntSize
  · have all : min direntSize ((s.itable k).copy.size - direntSize * j) = direntSize := by
      unfold direntSize dirsiz at *
      omega
    rw [if_pos inside, all]
    rfl
  · have short : ¬ ((min direntSize ((s.itable k).copy.size - direntSize * j) : Nat) : Int) = direntSize := by
      unfold direntSize dirsiz at *
      omega
    rw [if_neg inside]
    dsimp only
    rw [if_neg short]
    rfl

variable {t u : Fs}

/-- Bytes of other files, and those of file `i` outside `n` bytes from `off` on. -/
def Outside (i off n : Nat) : Nat → Nat → Prop :=
  fun i' x => i' = i → x < off ∨ off + n ≤ x

lemma copied_length_le (src start m) : (copied src start m).length ≤ m := by
  induction m generalizing start with
  | zero => simp [copied]
  | succ m ih =>
    unfold copied
    split
    · simp
    · simpa using ih (start + 1)

lemma copied_get (src start m i) (h : i < (copied src start m).length) :
    src (start + i) = some ((copied src start m).getD i 0) := by
  induction m generalizing start i with
  | zero => simp [copied] at h
  | succ m ih =>
    unfold copied at h ⊢
    split at h
    · simp at h
    · rename_i b here
      cases i with
      | zero => simpa using here
      | succ i =>
        rw [length_cons] at h
        rw [getD_cons_succ, ← ih (start + 1) i (by omega)]
        congr 1
        omega

def Readable (src : Nat → Option UInt8) (n : Nat) : Prop := ∀ x, x < n → (src x).isSome

lemma copied_length (all : Readable src n) (start m) (le : start + m ≤ n) : (copied src start m).length = m := by
  induction m generalizing start with
  | zero => rfl
  | succ m ih =>
    unfold copied
    split
    · rename_i none
      have some := all start (by omega)
      rw [none] at some
      cases some
    · simpa using ih (start + 1) (by omega)

lemma grown_poke (owned : Owned sb s.bitmap (ptr s.block (ino s k))) (alloc : (s.itable k).copy.type ≠ .free)
    (isAddr : addrOf s.block (s.itable k).copy (off / bsize) = addr) (has : addr ≠ 0)
    (le : bytes.length ≤ m) (l) :
    Grown sb k (Outside (s.itable k).inum off m) s { s with
      block := update s.block addr (pokeBytes (s.block addr) (off % bsize) bytes)
      lh := l } := by
  refine .store owned alloc isAddr has ?_
  intro x out quot
  apply poke_outside
  have apart := out rfl
  unfold bsize at *
  omega

lemma content_poke (fits : off % bsize + bytes.length ≤ bsize) (lo : off ≤ x) (hi : x < off + bytes.length)
    (isAddr : addrOf (update block addr (pokeBytes (block addr) (off % bsize) bytes)) d (off / bsize) = addr) :
    content (update block addr (pokeBytes (block addr) (off % bsize) bytes)) d x = bytes.getD (x - off) 0 := by
  have quot : x / bsize = off / bsize := by
    unfold bsize at *
    omega
  have rem : x % bsize = off % bsize + (x - off) := by
    unfold bsize at *
    omega
  rw [content, quot, isAddr, update_self, rem,
    poke_inside _ _ _ (by omega) (by omega) (by omega), Nat.add_sub_cancel_left]

/-- What the loop of `writei` has done when it stops with `r`. The bytes past those
it counts can have changed only if the source could not be read; a source that can
be read is written to its end, but for want of a block. -/
structure Written (sb : Super) (src : Nat → Option UInt8) (n off tot : Nat) (k : Slot) (s : Fs)
    (r : Nat × Nat) (t : Fs) : Prop where
  lo : tot ≤ r.1
  hi : r.1 ≤ n
  reach : r.2 = off + (r.1 - tot)
  grown : ∀ m, (m = n - tot ∨ Readable src n ∧ m = r.1 - tot) →
    Grown sb k (Outside (s.itable k).inum off m) s t
  filled : ∀ bn, bn * bsize < r.2 → addrOf t.block (t.itable k).copy bn ≠ 0
  bytes : ∀ x, off ≤ x → x < r.2 →
    src (tot + (x - off)) = some (content t.block (t.itable k).copy x)
  chunks : Readable src n → r.1 = n ∨ r.2 = off ∨ r.2 % bsize = 0
  short : Readable src n → r.1 = n ∨ Full sb t.bitmap ∧
    ∃ bn, bn * bsize < off + (n - tot) ∧ addrOf s.block (s.itable k).copy bn = 0

lemma Written.stop (le : tot ≤ n) (grown : ∀ m, (m = n - tot ∨ Readable src n ∧ m = 0) →
      Grown sb k (Outside (s.itable k).inum off m) s t)
    (filled : ∀ bn, bn * bsize < off → addrOf t.block (t.itable k).copy bn ≠ 0)
    (why : Readable src n → tot = n ∨ Full sb t.bitmap ∧
      ∃ bn, bn * bsize < off + (n - tot) ∧ addrOf s.block (s.itable k).copy bn = 0) :
    Written sb src n off tot k s (tot, off) t where
  lo := le_rfl
  hi := le
  reach := by simp
  grown := by simpa using grown
  filled := filled
  bytes x lo hi := absurd hi (not_lt.mpr lo)
  chunks _ := .inr (.inl rfl)
  short := why

lemma Written.chunk (more : tot + m ≤ n) (full : (copied src tot m).length = m)
    (alloc : (s.itable k).copy.type ≠ .free)
    (step : ∀ m', m ≤ m' → Grown sb k (Outside (s.itable k).inum off m') s t)
    (mapped : ∀ bn, bn * bsize < off + m → addrOf t.block (t.itable k).copy bn ≠ 0)
    (put : ∀ x, off ≤ x → x < off + m → content t.block (t.itable k).copy x = (copied src tot m).getD (x - off) 0)
    (boundary : tot + m = n ∨ (off + m) % bsize = 0)
    (rest : Written sb src n (off + m) (tot + m) k t r u) : Written sb src n off tot k s r u := by
  have lo := rest.lo
  have reach := rest.reach
  have same := (step m (le_rfl)).inum
  have used : (t.itable k).copy.type ≠ .free := by rwa [(step m (le_rfl)).copyType]
  refine ⟨by omega, rest.hi, by omega, ?_, rest.filled, ?_, ?_, ?_⟩
  · intro m' which
    have size : m ≤ m' := by omega
    have which' : m' - m = n - (tot + m) ∨ Readable src n ∧ m' - m = r.1 - (tot + m) :=
      which.imp (fun h => by omega) (fun h => ⟨h.1, by omega⟩)
    refine (step m' size).trans ((rest.grown _ which').mono ?_)
    intro i x out eq
    have apart := out (eq.trans same)
    omega
  · intro x from_ below
    by_cases first : x < off + m
    · have has : addrOf t.block (t.itable k).copy (x / bsize) ≠ 0 := by
        apply mapped
        have := Nat.div_mul_le_self x bsize
        omega
      rw [(rest.grown _ (.inl rfl)).byte used has (fun _ => .inl first), put x from_ first]
      exact copied_get src tot m _ (by omega)
    · rw [← rest.bytes x (by omega) below]
      congr 1
      omega
  · intro all
    rcases rest.chunks all with done | here | stop
    · exact .inl done
    · rcases boundary with last | aligned
      · exact .inl (by omega)
      · exact .inr (.inr (by rwa [here]))
    · exact .inr (.inr stop)
  · intro all
    refine (rest.short all).imp_right fun ⟨full, bn, below, empty⟩ => ⟨full, bn, by omega, ?_⟩
    by_contra has
    rw [(step m (le_rfl)).addr alloc has] at empty
    exact has empty

lemma bmap_cases (log : Logged E s) (owned : Owned sb s.bitmap (ptr s.block (ino s k)))
    (alloc : (s.itable k).copy.type ≠ .free) (range : bn < maxfile) :
    Safe E (bmap sb k bn) s fun b t => Grown sb k P s t ∧ (b ≠ 0 → addrOf t.block (t.itable k).copy bn = b) ∧
      (b = 0 → Full sb t.bitmap ∧ addrOf s.block (s.itable k).copy bn = 0) := by
  by_cases has : addrOf s.block (s.itable k).copy bn = 0
  · apply (bmap_safe log owned alloc range).mono
    intro b t post
    exact ⟨post.1, post.2.1, fun none => ⟨post.2.2 none, has⟩⟩
  · exact safe_of_eq (bmap_eq has) ⟨.refl owned, fun _ => rfl, fun none => absurd none has⟩

lemma writeLoop_safe (log : Logged E s) (src fuel n off tot) (owned : Owned sb s.bitmap (ptr s.block (ino s k)))
    (alloc : (s.itable k).copy.type ≠ .free) (enough : n - tot ≤ fuel) (le : tot ≤ n)
    (fits : off + (n - tot) ≤ maxfile * bsize)
    (filled : ∀ bn, bn * bsize < off → addrOf s.block (s.itable k).copy bn ≠ 0) :
    Safe E (writeLoop sb k src fuel n off tot) s (Written sb src n off tot k s) := by
  induction fuel generalizing s off tot with
  | zero => exact safe_pure (.stop le (fun _ _ => .refl owned) filled fun _ => .inl (by omega))
  | succ fuel ih =>
    unfold writeLoop
    by_cases more : tot < n
    · rw [if_pos more]
      have here := Nat.div_mul_le_self off bsize
      have range : off / bsize < maxfile := by
        unfold bsize at *
        omega
      apply Safe.bind (bmap_cases (P := fun _ _ => True) log owned alloc range)
      rintro addr t ⟨grown, isAddr, isFull⟩
      have used : (t.itable k).copy.type ≠ .free := by rwa [grown.copyType]
      have filled' : ∀ bn, bn * bsize < off → addrOf t.block (t.itable k).copy bn ≠ 0 := by
        intro bn below
        rw [grown.addr alloc (filled bn below)]
        exact filled bn below
      by_cases none : addr = 0
      · rw [if_pos none]
        refine safe_pure (.stop le (fun _ _ => grown.mono fun _ _ _ => trivial) filled' fun _ => ?_)
        exact .inr ⟨(isFull none).1, off / bsize, by omega, (isFull none).2⟩
      · rw [if_neg none]
        specialize isAddr none
        apply safe_get
        generalize hm : min (n - tot) (bsize - off % bsize) = m
        have room := Nat.mod_lt off bsize_pos
        have short := copied_length_le src tot m
        have poke : ∀ m' l, (copied src tot m).length ≤ m' → Grown sb k (Outside (s.itable k).inum off m') s { t with
            block := update t.block addr (pokeBytes (t.block addr) (off % bsize) (copied src tot m))
            lh := l } := by
          intro m' l le'
          rw [← grown.inum]
          exact (grown.mono fun _ _ _ => trivial).trans (grown_poke grown.owned used isAddr none le' l)
        have moved : ∀ bn, addrOf t.block (t.itable k).copy bn ≠ 0 →
          addrOf (update t.block addr (pokeBytes (t.block addr) (off % bsize)
            (copied src tot m))) (t.itable k).copy bn = addrOf t.block (t.itable k).copy bn :=
          fun bn has => (grown_poke grown.owned used isAddr none (le_rfl) t.lh).addr used has
        apply safe_mod
        by_cases failed : (copied src tot m).length < m
        · rw [if_pos failed]
          refine safe_pure (.stop le ?_ (fun bn below => ?_) fun all => ?_)
          · rintro m' (rfl | ⟨all, -⟩)
            · exact poke _ t.lh (by omega)
            · rw [copied_length all tot m (by omega)] at failed
              omega
          · dsimp only
            rw [moved bn (filled' bn below)]
            exact filled' bn below
          · rw [copied_length all tot m (by omega)] at failed
            omega
        · rw [if_neg failed]
          apply Safe.bind (logWrite_safe (by exact grown.logged log) addr)
          rintro _ _ ⟨l, rfl⟩
          have full : (copied src tot m).length = m := by omega
          have step := fun m' h => poke m' l (full.trans_le h)
          have mapped : ∀ bn, bn * bsize < off + m → addrOf t.block (t.itable k).copy bn ≠ 0 := by
            intro bn below
            by_cases old : bn * bsize < off
            · exact filled' bn old
            · have here : bn = off / bsize := by
                unfold bsize at *
                omega
              rwa [here, isAddr]
          have mapped' : ∀ bn, bn * bsize < off + m → addrOf (update t.block addr
            (pokeBytes (t.block addr) (off % bsize) (copied src tot m))) (t.itable k).copy bn ≠ 0 := by
            intro bn below
            rw [moved bn (mapped bn below)]
            exact mapped bn below
          apply (ih (by exact grown.logged log) (off + m) (tot + m) (step m (le_rfl)).owned used
            (by omega) (by omega) (by omega) mapped').mono
          intro r u rest
          refine .chunk (by omega) full alloc step mapped' ?_ ?_ rest
          · intro x lo hi
            apply content_poke (by omega) lo (by omega)
            rw [moved _ (by rwa [isAddr]), isAddr]
          · unfold bsize at *
            omega
    · rw [if_neg more]
      exact safe_pure (.stop le (fun _ _ => .refl owned) filled fun _ => .inl (by omega))

end Xv6.FsData
