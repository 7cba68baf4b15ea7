import Xv6.PageExec

/-! What memory itself says about the pages of a process. The page tables are read
word by word from the root on; the owner that the ghost state gives to a page is
the role that the page has in memory. -/

namespace Xv6.PageRoles

open ByteFields VmMachine VmProc PageTable PageOwner PageWalk PageFree PageUvm PageProc

variable {n : Nat}

def entryPage (mem : Nat → Bytes pgsize) (page j : Nat) : Option Nat :=
  if pteAt (mem page) j &&& pteV ≠ 0 then some (pte2pa (pteAt (mem page) j)) else none

def rootAt (root v : Nat) : Option Nat := if v = 0 then some root else none

def tablePage (mem : Nat → Bytes pgsize) (root l v : Nat) : Option Nat :=
  match l with
  | 2 => rootAt root v
  | 1 => (rootAt root (v / 512)).bind fun page => entryPage mem page (v % 512)
  | 0 => ((rootAt root (v / 512 / 512)).bind fun page => entryPage mem page (v / 512 % 512)).bind
      fun page => entryPage mem page (v % 512)
  | _ => none

def mappedPage (mem : Nat → Bytes pgsize) (root u : Nat) : Option Nat :=
  (tablePage mem root 0 (u / 512)).bind fun page => entryPage mem page (u % 512)

/-- What a page can be to a process. -/
inductive Role
  | trapframe
  | table (l v : Nat)
  | user (u : Nat)

def Has (s : Kernel n) (p : Fin n) (x : Nat) : Role → Prop
  | .trapframe => (s.proc p).state ≠ .unused ∧ (s.proc p).trapframe = x
  | .table l v => (s.proc p).state ≠ .unused ∧
      tablePage s.mem (s.proc p).pagetable l v = some x
  | .user u => (s.proc p).state ≠ .unused ∧ u ≠ trapframePage ∧ u ≠ trampolinePage ∧
      mappedPage s.mem (s.proc p).pagetable u = some x

section
variable (h : Laid mem sp)
include h

lemma entryPage_table (whole : sp.hole = none) (hx : sp.table (l + 1) v = some x) (hj : j < 512) :
    entryPage mem x j = sp.table l (v * 512 + j) := by
  unfold entryPage
  rw [h.node l v x j hx hj (by simp [whole])]
  cases here : sp.table l (v * 512 + j) with
  | none => simp
  | some y =>
    rw [Option.elim_some, if_pos (tablePte_valid y), pte2pa_tablePte (h.addr _ _ _ here)]

lemma rootAt_eq (hroot : sp.table 2 0 = some root) (v) : rootAt root v = sp.table 2 v := by
  unfold rootAt
  split_ifs with zero
  · rw [zero, hroot]
  · cases here : sp.table 2 v with
    | none => rfl
    | some x => exact absurd ((h.top 2 v x here).2 rfl) zero

lemma parent_bind (whole : sp.hole = none) (low : l < 2) (v) :
    ((sp.table (l + 1) (v / 512)).bind fun page => entryPage mem page (v % 512)) = sp.table l v := by
  cases above : sp.table (l + 1) (v / 512) with
  | none =>
    cases here : sp.table l v with
    | none => rfl
    | some x =>
      have up := h.up l v x here low
      simp [above] at up
  | some x =>
    rw [Option.bind_some, entryPage_table h whole above (Nat.mod_lt _ (by decide)), Nat.div_add_mod']

lemma tablePage_eq (whole : sp.hole = none) (hroot : sp.table 2 0 = some root)
    (l v) : tablePage mem root l v = sp.table l v := by
  have middle : ∀ v, ((rootAt root (v / 512)).bind fun page => entryPage mem page (v % 512)) = sp.table 1 v := by
    intro v
    rw [rootAt_eq h hroot]
    exact parent_bind h whole (by decide) v
  match l with
  | 2 => exact rootAt_eq h hroot v
  | 1 => exact middle v
  | 0 =>
    refine (congrArg (Option.bind · _) (middle (v / 512))).trans ?_
    exact parent_bind h whole (by decide) v
  | l + 3 =>
    cases here : sp.table (l + 3) v with
    | none => rfl
    | some x =>
      have top := (h.top _ _ _ here).1
      omega

lemma mappedPage_eq (whole : sp.hole = none) (hroot : sp.table 2 0 = some root) (u) :
    mappedPage mem root u = (sp.leaf u).map Leaf.pa := by
  unfold mappedPage
  rw [tablePage_eq h whole hroot]
  cases below : sp.table 0 (u / 512) with
  | none =>
    cases here : sp.leaf u with
    | none => rfl
    | some leaf =>
      have up := h.leafUp u (by simp [here])
      simp [below] at up
  | some x =>
    rw [Option.bind_some]
    unfold entryPage
    rw [h.leaves (u / 512) x (u % 512) below (Nat.mod_lt _ (by decide)), Nat.div_add_mod']
    cases here : sp.leaf u with
    | none => simp
    | some leaf =>
      obtain ⟨addr, flags⟩ := h.leafOk u leaf here
      rw [Option.elim_some, if_pos (leafPte_valid flags), pte2pa_leafPte addr flags]
      rfl

end

variable {p : Fin n}

def ownerOf (p : Fin n) : Role → Owner n
  | .trapframe => .trapframe p
  | .table l v => .table (some p) l v
  | .user u => .user (some p) u

lemma ownerOf_inj (h : ownerOf p r = ownerOf q r') : (p, r) = (q, r') := by
  cases r <;> cases r' <;> simp_all [ownerOf]

lemma frames_none (tfp : u ≠ trapframePage) (trp : u ≠ trampolinePage) : frames B tf u = none := by
  unfold frames trampolineLeaf
  rw [Function.update_of_ne tfp, Function.update_of_ne trp]

lemma has_iff (h : Sound B g s) (inv : Inv B g args) (r : Role) : Has s p x r ↔ g.owner x = ownerOf p r := by
  have settled := inv.settled p
  have proc := sound_proc h
  cases r with
  | trapframe =>
    simp only [Has, ownerOf, proc]
    refine ⟨?_, fun own => ?_⟩
    · rintro ⟨used, e⟩
      rw [← e]
      exact (settled.live used).2.1
    · obtain ⟨e, pos⟩ := (settled.slot.frame x).mp own
      exact ⟨fun idle => pos (e.trans (settled.unused idle).1), e.symm⟩
  | table l v =>
    simp only [Has, ownerOf, proc]
    rw [h.tables]
    by_cases idle : (g.rest.proc p).state = .unused
    · obtain ⟨-, -, -, absent, -⟩ := settled.vacant idle
      simp [idle, Ghost.table, absent.1]
    · obtain ⟨-, -, sp, hsp, whole, hroot, -⟩ := settled.live idle
      rw [tablePage_eq (h.laid _ sp hsp) whole hroot]
      simp [idle, Ghost.table, hsp]
  | user u =>
    simp only [Has, ownerOf, proc]
    by_cases idle : (g.rest.proc p).state = .unused
    · obtain ⟨-, -, -, absent, -⟩ := settled.vacant idle
      simp [idle, absent.2 x u]
    · obtain ⟨-, -, table⟩ := settled.live idle
      have small := HasTable.size_le ⟨h, table⟩
      obtain ⟨sp, hsp, whole, hroot, cov⟩ := table
      rw [mappedPage_eq (h.laid _ sp hsp) whole hroot]
      refine ⟨?_, fun own => ?_⟩
      · rintro ⟨_, tfp, trp, found⟩
        obtain ⟨leaf, hl, rfl⟩ := Option.map_eq_some_iff.mp found
        by_cases below : Below (g.rest.proc p).sz u
        · obtain ⟨leaf', hl', own, -⟩ := cov.own u below
          rw [hl] at hl'
          rwa [Option.some.inj hl']
        · rw [cov.fixed u below, frames_none tfp trp] at hl
          exact absurd hl (by simp)
      · obtain ⟨below, leaf, hl, rfl⟩ := cov.only x u own
        have high : ∀ v, trapframePage ≤ v → u ≠ v := by
          rintro v le rfl
          exact not_below small le below
        exact ⟨idle, high _ le_rfl, high _ (by decide), by simp [hl]⟩

lemma mappedPage_iff (h : Sound B g s) (inv : Inv B g args) (used : (s.proc p).state ≠ .unused) (u) :
    (mappedPage s.mem (s.proc p).pagetable u).isSome ↔
      u * pgsize < pgRoundUp (s.proc p).sz ∨ u = trapframePage ∨ u = trampolinePage := by
  rw [sound_proc h] at used ⊢
  obtain ⟨-, -, table⟩ := (inv.settled p).live used
  have small := HasTable.size_le ⟨h, table⟩
  obtain ⟨sp, hsp, whole, hroot, cov⟩ := table
  have below : u * pgsize < pgRoundUp (g.rest.proc p).sz ↔ Below (g.rest.proc p).sz u := by
    rw [pgRoundUp_eq small, ← below_pages]
    rfl
  rw [mappedPage_eq (h.laid _ sp hsp) whole hroot, Option.isSome_map, below]
  by_cases user : Below (g.rest.proc p).sz u
  · obtain ⟨leaf, hl, -⟩ := cov.own u user
    simp [hl, user]
  · rw [cov.fixed u user]
    by_cases tfp : u = trapframePage
    · simp [tfp, frames]
    · by_cases trp : u = trampolinePage
      · have order : trampolinePage ≠ trapframePage := by decide
        simp [trp, frames, trampolineLeaf, order]
      · simp [frames_none tfp trp, user, tfp, trp]

lemma mappedPage_frames (h : Sound B g s) (inv : Inv B g args) (used : (s.proc p).state ≠ .unused) :
    mappedPage s.mem (s.proc p).pagetable trapframePage = some (s.proc p).trapframe ∧
      mappedPage s.mem (s.proc p).pagetable trampolinePage = some B.trampoline := by
  rw [sound_proc h] at used ⊢
  obtain ⟨-, -, table⟩ := (inv.settled p).live used
  have small := HasTable.size_le ⟨h, table⟩
  obtain ⟨sp, hsp, whole, hroot, cov⟩ := table
  have order : trampolinePage ≠ trapframePage := by decide
  rw [mappedPage_eq (h.laid _ sp hsp) whole hroot, mappedPage_eq (h.laid _ sp hsp) whole hroot,
    cov.fixed _ (not_below small le_rfl), cov.fixed _ (not_below small (by decide))]
  simp [frames, trampolineLeaf, order]

end Xv6.PageRoles
