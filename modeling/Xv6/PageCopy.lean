import Xv6.PageUvm

/-! The kernel's access to user memory: `walkaddr`, `copyout`, `copyin` and their callers in
`exec`. -/

namespace Xv6.PageCopy

open VmMachine VmProc PageTable PageOwner PageWalk PageUvm Total

variable {n : Nat} {B : Board} {g : Ghost n} {s : Kernel n} {id : TableId n} {P S : Nat → Prop}
  {F : Nat → Option Leaf} {root : Nat}

lemma walk_entry (h : HasTable B g s id root P S F) (hsp : g.space id = some sp) (low : va < maxVa) :
    Returns (walk B root va false) s fun r t => t = s ∧
      (r = none ∧ sp.leaf (va / pgsize) = none ∨ ∃ b i, r = some (b, i) ∧
        pteAt (s.mem b) i = (sp.leaf (va / pgsize)).elim 0 leafPte) := by
  have laid := h.sound.laid id sp hsp
  refine (walk_lookup h low).mono ?_
  rintro r t ⟨same, found⟩
  rw [found sp hsp]
  refine ⟨same, ?_⟩
  cases hb : sp.table 0 (va / pgsize / 512) with
  | some b => exact .inr ⟨b, px 0 va, rfl, laid.leaf_entry hb⟩
  | none =>
    refine .inl ⟨rfl, ?_⟩
    cases here : sp.leaf (va / pgsize) with
    | none => rfl
    | some leaf =>
      have up := laid.leafUp (va / pgsize) (by simp [here])
      simp [hb] at up

lemma leafPte_pteU (h : LeafFlags leaf.flags) : leafPte leaf &&& pteU = leaf.flags &&& pteU := by
  rw [leafPte_eq h.1, and_flags (or_pteV_lt h.1) (by decide), (clear_pteU leaf.flags h.1).2.1]

lemma owner_of_pteU (h : HasTable B g s id root P S F) (res : Reserved F)
    (hsp : g.space id = some sp) (hl : sp.leaf u = some leaf)
    (user : leaf.flags &&& pteU ≠ 0) : g.owner leaf.pa = .user id u := by
  obtain ⟨sp', hsp', -, -, cov⟩ := h.space
  obtain rfl : sp' = sp := Option.some.inj (hsp'.symm.trans hsp)
  by_cases hu : S u
  · obtain ⟨leaf', hl', own, -⟩ := cov.own u hu
    rw [hl] at hl'
    rwa [Option.some.inj hl']
  · rw [cov.fixed u hu] at hl
    exact absurd (res u leaf hl).2 user

/-- The address is 0 or that of a user page; it is not 0 for a virtual page in
`S` if all of these have `PTE_U`. -/
lemma walkaddr_returns (h : HasTable B g s id root P S F) (res : Reserved F) (va) :
    Returns (walkaddr B root va) s fun r t => t = s ∧ (r = 0 ∨ ∃ u, g.owner r = .user id u) ∧
      (va < maxVa → S (va / pgsize) → (∀ flags, P flags → flags &&& pteU ≠ 0) → r ≠ 0) := by
  obtain ⟨sp, hsp, -, -, cov⟩ := h.space
  have laid := h.sound.laid id sp hsp
  unfold walkaddr
  split_ifs with high
  · exact returns_pure ⟨rfl, .inl rfl, fun low => absurd high (by omega)⟩
  · refine (walk_entry h hsp (by omega)).bind ?_
    rintro r t ⟨rfl, ⟨rfl, bare⟩ | ⟨b, i, rfl, word⟩⟩
    · refine returns_pure ⟨rfl, .inl rfl, fun _ hu => ?_⟩
      obtain ⟨leaf, hl, -⟩ := cov.own _ hu
      simp [bare] at hl
    · dsimp only
      refine readPte_bind ?_
      cases hl : sp.leaf (va / pgsize) with
      | none =>
        rw [hl, Option.elim_none] at word
        rw [word, Nat.zero_and, if_pos rfl]
        refine returns_pure ⟨rfl, .inl rfl, fun _ hu => ?_⟩
        obtain ⟨leaf, hl', -⟩ := cov.own _ hu
        simp [hl] at hl'
      | some leaf =>
        obtain ⟨addr, flags⟩ := laid.leafOk _ leaf hl
        rw [hl, Option.elim_some] at word
        rw [word, if_neg (leafPte_valid flags), leafPte_pteU flags, pte2pa_leafPte addr flags]
        split_ifs with kernel
        · refine returns_pure ⟨rfl, .inl rfl, fun _ hu user => ?_⟩
          obtain ⟨leaf', hl', -, ok⟩ := cov.own _ hu
          rw [hl] at hl'
          rw [← Option.some.inj hl'] at ok
          exact absurd kernel (user _ ok)
        · have own := owner_of_pteU h res hsp hl kernel
          refine returns_pure ⟨rfl, .inr ⟨_, own⟩, fun _ _ _ => ?_⟩
          exact managed_pos (h.sound.managed_of (by simp [own]))

section

lemma copyoutFrom_returns (table : Table g id root P S F) (res : Reserved F) :
    ∀ {dstva : Nat} {src : List UInt8} {s : Kernel n}, Sound B g s →
      Returns (copyoutFrom B root fuel dstva src) s fun _ => Sound B g := by
  induction fuel with
  | zero => exact fun sound => returns_pure sound
  | succ fuel ih =>
    intro dstva src s sound
    have h : HasTable B g s id root P S F := ⟨sound, table⟩
    obtain ⟨sp, hsp, -, -, -⟩ := table
    unfold copyoutFrom
    dsimp only
    split_ifs with done high
    · exact returns_pure sound
    · exact returns_pure sound
    · refine (walk_entry h hsp (by omega)).bind ?_
      rintro r t ⟨rfl, ⟨rfl, -⟩ | ⟨b, i, rfl, word⟩⟩
      · exact returns_pure sound
      · dsimp only
        refine readPte_bind ?_
        split_ifs with denied
        · exact returns_pure sound
        · refine returns_modify_bind (ih ?_)
          cases hl : sp.leaf (pgRoundDown dstva / pgsize) with
          | none =>
            rw [hl, Option.elim_none] at word
            simp [word] at denied
          | some leaf =>
            obtain ⟨addr, flags⟩ := (sound.laid id sp hsp).leafOk _ leaf hl
            rw [hl, Option.elim_some] at word
            rw [word, leafPte_pteU flags] at denied
            push Not at denied
            have own := owner_of_pteU h res hsp hl denied.2.1
            rw [word, pte2pa_leafPte addr flags]
            exact sound.store _ (by simp [own])

lemma copyout_returns (h : HasTable B g s id root P S F) (res : Reserved F) (dstva src) :
    Returns (copyout B root dstva src) s fun _ => Sound B g :=
  copyoutFrom_returns h.space res h.sound

variable (h : HasTable B g s id root P S F) (res : Reserved F)

include h res in
lemma copyinFrom_returns : ∀ {srcva len : Nat} {dst : List UInt8},
    Returns (copyinFrom B root fuel srcva len dst) s fun _ t => t = s := by
  induction fuel with
  | zero => exact returns_pure rfl
  | succ fuel ih =>
    intro srcva len dst
    unfold copyinFrom
    split_ifs with done
    · exact returns_pure rfl
    · refine (walkaddr_returns h res _).bind ?_
      rintro r t ⟨rfl, -⟩
      split_ifs with unmapped
      · exact returns_pure rfl
      · exact returns_get_bind ih

include h res in
lemma copyin_returns (srcva len) : Returns (copyin B root srcva len) s fun _ t => t = s :=
  copyinFrom_returns h res

include h res in
lemma copyinstrFrom_returns : ∀ {srcva max : Nat} {dst : List UInt8},
    Returns (copyinstrFrom B root fuel srcva max dst) s fun _ t => t = s := by
  induction fuel with
  | zero => exact returns_pure rfl
  | succ fuel ih =>
    intro srcva max dst
    unfold copyinstrFrom
    split_ifs with done
    · exact returns_pure rfl
    · refine (walkaddr_returns h res _).bind ?_
      rintro r t ⟨rfl, -⟩
      split_ifs with unmapped
      · exact returns_pure rfl
      · refine returns_get_bind ?_
        dsimp only
        split_ifs
        · exact returns_pure rfl
        · exact ih

include h res in
lemma copyinstr_returns (srcva max) : Returns (copyinstr B root srcva max) s fun _ t => t = s :=
  copyinstrFrom_returns h res

include res in
lemma fetchaddr_returns (addr) (h : HasTable B g s id (s.proc p).pagetable P S F) :
    Returns (fetchaddr B p addr) s fun _ t => t = s := by
  refine returns_get_bind ?_
  dsimp only
  split_ifs
  · exact returns_pure rfl
  · exact (copyin_returns h res addr 8).bind fun _ _ same => returns_pure same

include res in
lemma fetchstr_returns (addr max) (h : HasTable B g s id (s.proc p).pagetable P S F) :
    Returns (fetchstr B p addr max) s fun _ t => t = s :=
  returns_get_bind (copyinstr_returns h res addr max)

end

variable {size : Nat}

lemma loadsegFrom_returns (table : Table g id root P (Below size) F) (res : Reserved F)
    (user : ∀ flags, P flags → flags &&& pteU ≠ 0)
    (inside : va + sz ≤ size) :
    ∀ {i : Nat} {s : Kernel n}, Sound B g s →
      Returns (loadsegFrom B file root va offset sz fuel i) s fun _ => Sound B g := by
  induction fuel with
  | zero => exact fun sound => returns_pure sound
  | succ fuel ih =>
    intro i s sound
    have h : HasTable B g s id root P (Below size) F := ⟨sound, table⟩
    have small := HasTable.size_le h
    unfold loadsegFrom
    split_ifs with more
    · refine (walkaddr_returns h res _).bind ?_
      rintro r t ⟨rfl, got, found⟩
      have below : Below size ((va + i) / pgsize) := by
        unfold Below pgsize
        omega
      have low : physTop < maxVa := by decide
      have pos := found (by omega) below user
      rw [if_neg pos]
      obtain ⟨u, own⟩ := got.resolve_left pos
      refine returns_modify_bind ?_
      have stored := fun page => sound.store (x := r) page (by simp [own])
      split_ifs
      · exact ih (stored _)
      · exact returns_pure (stored _)
    · exact returns_pure sound

lemma loadseg_returns (h : HasTable B g s id root P (Below size) F) (res : Reserved F)
    (user : ∀ flags, P flags → flags &&& pteU ≠ 0)
    (inside : va + sz ≤ size) :
    Returns (loadseg B file root va offset sz) s fun _ => Sound B g :=
  loadsegFrom_returns h.space res user inside h.sound

lemma pushArgs_returns (table : Table g id root P S F) (res : Reserved F) :
    ∀ {sp : Nat} {ustack : List Nat} {s : Kernel n}, Sound B g s →
      Returns (pushArgs B root stackbase argv sp ustack) s fun _ => Sound B g := by
  induction argv with
  | nil => exact fun sound => returns_pure sound
  | cons arg argv ih =>
    intro sp ustack s sound
    unfold pushArgs
    split_ifs with many
    · exact returns_pure sound
    · dsimp only
      split_ifs with short
      · exact returns_pure sound
      · refine (copyout_returns ⟨sound, table⟩ res _ _).bind fun copied t sound' => ?_
        split_ifs
        · exact ih sound'
        · exact returns_pure sound'

lemma pushStack_returns (h : HasTable B g s id root P S F) (res : Reserved F) (sz argv) :
    Returns (pushStack B root sz argv) s fun _ => Sound B g := by
  refine (pushArgs_returns h.space res h.sound).bind fun r t sound => ?_
  cases r with
  | none => exact returns_pure sound
  | some pushed =>
    obtain ⟨sp, ustack⟩ := pushed
    dsimp only
    split_ifs with short
    · exact returns_pure sound
    · exact (copyout_returns ⟨sound, h.space⟩ res _ _).bind fun _ _ sound' => returns_pure sound'

end Xv6.PageCopy
