import Xv6.VmProc

/-! The allocator of `user/umalloc.c` and the size of the process under it. A header is 16 bytes, and
sizes are counted in headers. A list that is searched in vain for ever, and the store to a header on a page
that `sbrk` has not left mapped, are `none`. -/

namespace Xv6.Umalloc

open VmMachine VmProc
open Function (update update_self update_of_ne)

structure Heap where
  ptr : Nat → Nat
  size : Nat → Nat
  freep : Nat
  /-- The size of the process. -/
  brk : Nat

/-- `growproc` on the size alone; `grant` tells whether `uvmalloc` finds the pages for a size. -/
def growproc (grant : Nat → Bool) (sz : Nat) (bytes : Int32) : Option Nat :=
  let newsz := addSize sz bytes.toInt
  if 0 < bytes.toInt then if newsz < sz then some sz else if grant newsz then some newsz else none
  else if bytes.toInt < 0 then if sz ≤ newsz then some sz else some newsz
  else some sz

def freeLoop (h : Heap) (bp : Nat) : Nat → Nat → Option Nat
  | 0, _ => none
  | fuel + 1, p =>
    if p < bp ∧ bp < h.ptr p then some p
    else if h.ptr p ≤ p ∧ (p < bp ∨ bp < h.ptr p) then some p
    else freeLoop h bp fuel (h.ptr p)

/-- Enter `b` behind `a`, in one block with it if it starts where `a` ends. -/
def Heap.link (h : Heap) (a b : Nat) : Heap :=
  if a + 16 * h.size a = b then { h with
    size := update h.size a ((h.size a + h.size b) % 2 ^ 32)
    ptr := update h.ptr a (h.ptr b) }
  else { h with ptr := update h.ptr a b }

def free (fuel : Nat) (bp : Nat) (h : Heap) : Option Heap := do
  let p ← freeLoop h bp fuel h.freep
  return { (h.link bp (h.ptr p)).link p bp with freep := p }

def morecore (grant : Nat → Bool) (fuel nu : Nat) (h : Heap) : Option (Nat × Heap) :=
  let nu := if nu < 4096 then 4096 else nu
  match growproc grant h.brk (Int32.ofNat (nu * 16)) with
  | none => some (0, h)
  | some brk =>
    if h.brk + 16 ≤ pgRoundUp brk then do
      let h ← free fuel h.brk { h with brk := brk, size := update h.size h.brk nu }
      return (h.freep, h)
    else none

def mallocLoop (grant : Nat → Bool) (nunits : Nat) : Nat → Nat → Nat → Heap → Option (Nat × Heap)
  | 0, _, _, _ => none
  | fuel + 1, prevp, p, h =>
    if nunits ≤ h.size p then
      if h.size p = nunits then some (p + 16, { h with ptr := update h.ptr prevp (h.ptr p), freep := prevp })
      else
        let rest := h.size p - nunits
        some (p + 16 * rest + 16, { h with
          size := update (update h.size p rest) (p + 16 * rest) nunits
          freep := prevp })
    else if p = h.freep then do
      let (p, h) ← morecore grant fuel nunits h
      if p = 0 then return (0, h) else mallocLoop grant nunits fuel p (h.ptr p) h
    else mallocLoop grant nunits fuel p (h.ptr p) h

def malloc (grant : Nat → Bool) (fuel base nbytes : Nat) (h : Heap) : Option (Nat × Heap) :=
  let nunits := (nbytes + 15) / 16 + 1
  let h := if h.freep = 0 then
    { h with ptr := update h.ptr base base, size := update h.size base 0, freep := base } else h
  mallocLoop grant nunits fuel h.freep (h.ptr h.freep) h

/-- The blocks in `S` lie below the break, and the list does not leave them. -/
def Within (S : Nat → Prop) (h : Heap) : Prop := ∀ a, S a → S (h.ptr a) ∧ a + 16 * h.size a ≤ h.brk

/-- A process at a call of `malloc`: before the first one, or with a free list below the break. -/
structure Ready (base : Nat) (h : Heap) : Prop where
  brk : h.brk ≤ physTop
  base : base ≤ h.brk
  list : h.freep ≠ 0 → ∃ S, Within S h ∧ S h.freep

/-- What `malloc(nbytes)` returns lies below the break, whatever memory the machine has left. -/
def Covered (nbytes : Nat) : Prop :=
  ∀ (grant : Nat → Bool) (fuel base : Nat) (h : Heap), (∀ sz, grant sz = true → sz ≤ physTop) → Ready base h →
    ∀ r h', malloc grant fuel base nbytes h = some (r, h') → r ≠ 0 → r + nbytes ≤ h'.brk

variable {S : Nat → Prop} {h h' : Heap} {grant : Nat → Bool} {fuel p : Nat}

lemma freeLoop_mem (closed : ∀ a, S a → S (h.ptr a)) (mem : S p) (eq : freeLoop h bp fuel p = some r) : S r := by
  induction fuel generalizing p with
  | zero => cases eq
  | succ fuel ih =>
    rw [freeLoop] at eq
    split_ifs at eq
    · exact Option.some.inj eq ▸ mem
    · exact Option.some.inj eq ▸ mem
    · exact ih (closed p mem) eq

lemma link_within {S : Nat → Prop} {h : Heap} {a b : Nat} (ends : ∀ x, S x → x + 16 * h.size x ≤ h.brk)
    (closed : ∀ x, S x → x ≠ a → S (h.ptr x)) (memA : S a) (memB : S b) (next : S (h.ptr b)) :
    Within S (h.link a b) := by
  intro x mem
  unfold Heap.link
  rcases eq_or_ne x a with rfl | ne
  · split_ifs with adjacent
    · refine ⟨by simpa using next, ?_⟩
      have := ends b memB
      simp only [update_self]
      omega
    · exact ⟨by simpa using memB, ends x mem⟩
  · split_ifs
    · simpa [update_of_ne ne] using ⟨closed x mem ne, ends x mem⟩
    · simpa [update_of_ne ne] using ⟨closed x mem ne, ends x mem⟩

lemma link_brk : (h.link a b).brk = h.brk := by
  unfold Heap.link
  split_ifs <;> rfl

lemma free_within (within : Within S h) (mem : S h.freep) (own : bp + 16 * h.size bp ≤ h.brk)
    (eq : free fuel bp h = some h') : h'.brk = h.brk ∧ ∃ S, Within S h' ∧ S h'.freep := by
  obtain ⟨p, found, rest⟩ := Option.bind_eq_some_iff.mp eq
  cases rest
  have memP := freeLoop_mem (fun a mem => (within a mem).1) mem found
  have next := (within p memP).1
  -- the block that is freed joins the others
  have first : Within (fun a => S a ∨ a = bp) (h.link bp (h.ptr p)) := by
    refine link_within ?_ ?_ (.inr rfl) (.inl next) (.inl (within _ next).1)
    · rintro x (mem | rfl)
      · exact (within x mem).2
      · exact own
    · rintro x (mem | rfl) ne
      · exact .inl (within x mem).1
      · exact absurd rfl ne
  exact ⟨link_brk.trans link_brk, _, link_within (fun x mem => (first x mem).2) (fun x mem _ => (first x mem).1)
    (.inl memP) (.inr rfl) (first bp (.inr rfl)).1, .inl memP⟩

lemma morecore_within (most : ∀ sz, grant sz = true → sz ≤ physTop) (small : nu * 16 < 2 ^ 31)
    (brk : h.brk ≤ physTop) (within : Within S h) (mem : S h.freep)
    (eq : morecore grant fuel nu h = some (r, h')) (ne : r ≠ 0) :
    r = h'.freep ∧ h'.brk ≤ physTop ∧ ∃ S, Within S h' ∧ S h'.freep := by
  rw [morecore] at eq
  generalize units : (if nu < 4096 then 4096 else nu) = nu' at eq
  have few : 0 < nu' ∧ nu' * 16 < 2 ^ 31 := by split_ifs at units <;> omega
  have int : (Int32.ofNat (nu' * 16)).toInt = (nu' * 16 : Nat) := Int32.toInt_ofNat_of_lt few.2
  have sum : addSize h.brk (nu' * 16 : Nat) = h.brk + nu' * 16 := by
    unfold addSize
    unfold physTop kernBase at brk
    omega
  rw [growproc, int, sum, if_pos (by omega), if_neg (by omega)] at eq
  by_cases granted : grant (h.brk + nu' * 16) = true
  · rw [if_pos granted] at eq
    dsimp only at eq
    split_ifs at eq
    obtain ⟨h1, freed, rest⟩ := Option.bind_eq_some_iff.mp eq
    cases rest
    have grown : Within S { h with brk := h.brk + nu' * 16, size := update h.size h.brk nu' } := by
      refine fun a mem => ⟨(within a mem).1, ?_⟩
      rcases eq_or_ne a h.brk with rfl | ne
      · simp only [update_self]
        omega
      · simp only [update_of_ne ne]
        exact (within a mem).2.trans (Nat.le_add_right _ _)
    obtain ⟨same, list⟩ := free_within grown mem (by simp only [update_self]; omega) freed
    exact ⟨rfl, same ▸ most _ granted, list⟩
  · rw [if_neg granted] at eq
    exact absurd (Prod.mk.inj (Option.some.inj eq)).1.symm ne

lemma mallocLoop_within (most : ∀ sz, grant sz = true → sz ≤ physTop)
    (small : nunits * 16 < 2 ^ 31) (brk : h.brk ≤ physTop) (within : Within S h) (mem : S h.freep) (memP : S p)
    (eq : mallocLoop grant nunits fuel prevp p h = some (r, h')) (ne : r ≠ 0) :
    r + 16 * nunits ≤ h'.brk + 16 := by
  induction fuel generalizing prevp p h S with
  | zero => cases eq
  | succ fuel ih =>
    rw [mallocLoop] at eq
    have inside := (within p memP).2
    split_ifs at eq with large exact_ last
    · cases eq
      dsimp only
      omega
    · cases eq
      dsimp only
      omega
    · obtain ⟨⟨p1, h1⟩, more, rest⟩ := Option.bind_eq_some_iff.mp eq
      dsimp only at rest
      split_ifs at rest with null
      · exact absurd (Prod.mk.inj (Option.some.inj rest)).1.symm ne
      · obtain ⟨rfl, brk1, S1, within1, mem1⟩ := morecore_within most small brk within mem more null
        exact ih brk1 within1 mem1 (within1 _ mem1).1 rest
    · exact ih brk within mem (within p memP).1 eq

lemma malloc_within (small : nbytes < 2 ^ 31 - 31) (most : ∀ sz, grant sz = true → sz ≤ physTop) (ready : Ready base h)
    (eq : malloc grant fuel base nbytes h = some (r, h')) (ne : r ≠ 0) : r + nbytes ≤ h'.brk := by
  suffices r + 16 * ((nbytes + 15) / 16 + 1) ≤ h'.brk + 16 by omega
  rw [malloc] at eq
  by_cases first : h.freep = 0
  · rw [if_pos first] at eq
    refine mallocLoop_within (S := (· = base)) most (by omega) ?_ ?_ rfl (update_self ..) eq ne
    · exact ready.brk
    · rintro _ rfl
      simpa using ready.base
  · rw [if_neg first] at eq
    obtain ⟨S, within, mem⟩ := ready.list first
    exact mallocLoop_within most (by omega) ready.brk within mem (within _ mem).1 eq ne

/-- A process of 2056 bytes, before its first call. -/
def small : Heap := ⟨fun _ => 0, fun _ => 0, 0, 2056⟩

lemma growproc_small (nunits) (large : 2 ^ 27 ≤ nunits) (uint : nunits ≤ 2 ^ 28 + 1) :
    ∃ brk, growproc (· ≤ 2072) 2056 (Int32.ofNat (nunits * 16)) = some brk ∧ 0 < brk ∧ brk ≤ 2072 := by
  have int : (Int32.ofNat (nunits * 16)).toInt = nunits * 16 - 2 ^ 32 := by
    rw [Int32.toInt_ofNat', show Int32.size = 2 ^ 32 from rfl, Int.bmod_def]
    omega
  unfold growproc addSize
  rw [int]
  dsimp only
  split_ifs <;> first | exact ⟨_, rfl, by omega, by omega⟩ | (simp at *; omega)

lemma malloc_small (large : 2 ^ 31 - 31 ≤ nbytes) (uint : nbytes < 2 ^ 32) :
    ∃ h', malloc (· ≤ 2072) 2 64 nbytes small = some (2072, h') ∧ h'.brk ≤ 2072 := by
  unfold malloc
  generalize units : (nbytes + 15) / 16 + 1 = nunits
  obtain ⟨brk, eq, pos, le⟩ := growproc_small nunits (by omega) (by omega)
  have mapped : 2072 ≤ pgRoundUp brk := by
    unfold pgRoundUp pgsize
    omega
  have apart : 2056 + 16 * nunits ≠ 64 := by omega
  simp [-Int32.ofNat_mul, mallocLoop, morecore, free, freeLoop, Heap.link, small, eq, mapped, apart,
    show ¬ nunits < 4096 by omega, show nunits ≠ 0 by omega, le]

theorem malloc_covers_iff (nbytes : UInt32) : Covered nbytes.toNat ↔ nbytes.toNat < 2 ^ 31 - 31 := by
  constructor
  · intro covered
    by_contra large
    obtain ⟨h', eq, le⟩ := malloc_small (not_lt.mp large) nbytes.toNat_lt
    have ready : Ready 64 small := ⟨by decide, by decide, fun ne => absurd rfl ne⟩
    have := covered _ 2 64 small (fun sz le => (of_decide_eq_true le).trans (by decide)) ready _ _ eq (by decide)
    omega
  · intro few grant fuel base h most ready r h' eq ne
    exact malloc_within few most ready eq ne

/-- `malloc(0xffffffff)` asks `sbrk` for 16 bytes. -/
theorem malloc_uncovered : (malloc (fun _ => true) 2 4096 (2 ^ 32 - 1) ⟨fun _ => 0, fun _ => 0, 0, 16384⟩).map
    (fun x => (x.1, x.2.brk)) = some (16400, 16400) := by
  decide +kernel

end Xv6.Umalloc
