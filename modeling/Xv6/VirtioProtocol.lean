import Mathlib.Data.Fintype.Card
import Xv6.Runs
import Xv6.VirtioMachine
import Xv6.Window

/-! The protocol between the disk driver and the device. A descriptor is free or in the
chain of one request. -/

namespace Xv6.VirtioProtocol

open VirtioMachine Runs Function List Option

variable {B : Type}

def head16 (i : Idx) : UInt16 := UInt16.ofNat i

def head32 (i : Idx) : UInt32 := (head16 i).toUInt32

lemma toNat_head16 (i : Idx) : (head16 i).toNat = i.val := by
  have := i.isLt
  unfold num at this
  rw [head16, UInt16.toNat_ofNat']
  omega

lemma slot_head16 (i : Idx) : slot (head16 i) = i := by
  rw [slot, toNat_head16]
  exact Fin.ofNat_val_eq_self i

lemma head16_injective : Injective head16 := by
  intro i j h
  rw [← slot_head16 i, h, slot_head16]

lemma toNat_head32 (i : Idx) : (head32 i).toNat = i.val := by rw [head32, UInt16.toNat_toUInt32, toNat_head16]

def Counts (x : UInt16) (n : Nat) : Prop := x.toNat = n % 2 ^ 16

lemma Counts.succ (h : Counts x n) : Counts (x + 1) (n + 1) := by
  unfold Counts at *
  rw [UInt16.toNat_add, h]
  exact Nat.mod_add_mod _ _ _

lemma Counts.slot (h : Counts x n) : slot x = Fin.ofNat num n := by
  rw [VirtioMachine.slot, h]
  exact Window.ofNat_mod (by decide) n

lemma Counts.eq_iff (hx : Counts x a) (hy : Counts y b) (le : a ≤ b) (near : b ≤ a + num) : x = y ↔ b = a := by
  have small : b < a + 2 ^ 16 := by
    unfold num at near
    omega
  rw [← UInt16.toNat_inj, hx, hy, eq_comm]
  exact Window.mod_eq_iff le small

@[simps]
def taking (d : Disk B) (i : Idx) : Disk B where
  __ := d
  free := Function.update d.free i false

@[simps]
def giving (d : Disk B) (i : Idx) : Disk B where
  __ := d
  desc := Function.update d.desc i emptyDesc
  free := Function.update d.free i true

def holding (d : Disk B) (i₀ i₁ i₂ : Idx) : Disk B := taking (taking (taking d i₀) i₁) i₂

def released (d : Disk B) (i₀ i₁ i₂ : Idx) : Disk B where
  __ := d
  infoB := Function.update d.infoB i₀ none
  desc := Function.update (Function.update (Function.update d.desc i₀ emptyDesc) i₁ emptyDesc)
    i₂ emptyDesc
  free := Function.update (Function.update (Function.update d.free i₀ true) i₁ true) i₂ true

lemma allocDesc_some (h : allocDesc d = some (i, d')) : d.free i = true ∧ d' = taking d i := by
  obtain ⟨j, found, eq⟩ := map_eq_some_iff.mp h
  cases eq
  exact ⟨find?_some found, rfl⟩

lemma freeDesc_held {d : Disk B} (held : d.free i = false) : freeDesc d i = .ok (giving d i) := by
  simp only [freeDesc, i.isLt, dif_pos, held, Bool.false_eq_true, if_false]
  rfl

lemma disk_eq {d d' : Disk B} (free : d'.free = d.free) (same : { d' with free := d.free } =
    { d with desc := d'.desc }) : d' = { d with desc := d'.desc } := by
  rw [← same, ← free]

lemma alloc3Desc_spec (d : Disk B) : (∃ desc, alloc3Desc d = .ok (none, { d with desc := desc }) ∧
      ∀ i, d.free i = false → desc i = d.desc i) ∨
    ∃ i0 i1 i2, alloc3Desc d = .ok (some (i0, i1, i2), holding d i0 i1 i2) ∧
      d.free i0 = true ∧ d.free i1 = true ∧ d.free i2 = true ∧ i0 ≠ i1 ∧ i0 ≠ i2 ∧ i1 ≠ i2 := by
  unfold alloc3Desc
  cases h0 : allocDesc d with
  | none => exact .inl ⟨d.desc, rfl, fun _ _ => rfl⟩
  | some r0 =>
    obtain ⟨i0, d0⟩ := r0
    obtain ⟨free0, rfl⟩ := allocDesc_some h0
    have away0 : ∀ i, d.free i = false → i ≠ i0 := by
      rintro i held rfl
      rw [free0] at held
      cases held
    dsimp only
    cases h1 : allocDesc (taking d i0) with
    | none =>
      left
      dsimp only
      rw [freeDesc_held (by simp)]
      refine ⟨(giving (taking d i0) i0).desc, congrArg (fun d => Except.ok (none, d))
        (disk_eq ?_ rfl), fun i held => ?_⟩
      · change update (update d.free i0 false) i0 true = d.free
        rw [update_idem, ← free0, update_eq_self]
      · simp [away0 i held]
    | some r1 =>
      obtain ⟨i1, d1⟩ := r1
      obtain ⟨free1, rfl⟩ := allocDesc_some h1
      have ne : i1 ≠ i0 := by
        rintro rfl
        simp at free1
      rw [taking_free, update_of_ne ne] at free1
      have away1 : ∀ i, d.free i = false → i ≠ i1 := by
        rintro i held rfl
        rw [free1] at held
        cases held
      dsimp only
      cases h2 : allocDesc (taking (taking d i0) i1) with
      | none =>
        left
        rw [freeDesc_held (by simp [ne.symm])]
        dsimp only [bind, Except.bind]
        rw [freeDesc_held (by simp [ne])]
        refine ⟨(giving (giving (taking (taking d i0) i1) i0) i1).desc,
          congrArg (fun d => Except.ok (none, d)) (disk_eq ?_ rfl), fun i held => ?_⟩
        · funext i
          by_cases hi1 : i = i1
          · simp [hi1, free1]
          · by_cases hi0 : i = i0
            · simp [hi0, ne.symm, free0]
            · simp [hi0, hi1]
        · simp [away0 i held, away1 i held]
      | some r2 =>
        obtain ⟨i2, d2⟩ := r2
        obtain ⟨free2, rfl⟩ := allocDesc_some h2
        have ne1 : i2 ≠ i1 := by
          rintro rfl
          simp at free2
        have ne0 : i2 ≠ i0 := by
          rintro rfl
          simp [ne1] at free2
        rw [taking_free, update_of_ne ne1, taking_free, update_of_ne ne0] at free2
        exact .inr ⟨i0, i1, i2, rfl, free0, free1, free2, ne.symm, ne0.symm, ne1.symm⟩

structure Chained (d : Disk B) (b : B) (i₀ i₁ i₂ : Idx) : Prop where
  distinct : i₀ ≠ i₁ ∧ i₀ ≠ i₂ ∧ i₁ ≠ i₂
  held : d.free i₀ = false ∧ d.free i₁ = false ∧ d.free i₂ = false
  first : (d.desc i₀).flags &&& descNext ≠ 0 ∧ (d.desc i₀).next = head16 i₁
  second : (d.desc i₁).flags &&& descNext ≠ 0 ∧ (d.desc i₁).next = head16 i₂ ∧
    (d.desc i₁).addr = .data b
  third : (d.desc i₂).flags &&& descNext = 0 ∧ (d.desc i₂).addr = .status i₀
  info : d.infoB i₀ = some b

def chainOf : Place → List Idx
  | .waiting i₀ i₁ i₂ => [i₀, i₁, i₂]
  | _ => []

structure Chains (d : Disk B) (place : B → Place) : Prop where
  chained : ∀ b i₀ i₁ i₂, place b = .waiting i₀ i₁ i₂ → Chained d b i₀ i₁ i₂
  excl : ∀ b b' i, i ∈ chainOf (place b) → i ∈ chainOf (place b') → b = b'
  used : ∀ i, d.free i = false → ∃ b, i ∈ chainOf (place b)

variable {d d' : Disk B} {b : B} {i0 i1 i2 : Idx}

lemma Chained.congr (h : Chained d b i0 i1 i2) (free : ∀ i, d.free i = false → d'.free i = false)
    (desc : ∀ i ∈ [i0, i1, i2], d'.desc i = d.desc i) (info : d'.infoB i0 = d.infoB i0) :
    Chained d' b i0 i1 i2 where
  distinct := h.distinct
  held := ⟨free _ h.held.1, free _ h.held.2.1, free _ h.held.2.2⟩
  first := by
    rw [desc i0 (by simp)]
    exact h.first
  second := by
    rw [desc i1 (by simp)]
    exact h.second
  third := by
    rw [desc i2 (by simp)]
    exact h.third
  info := info.trans h.info

lemma Chained.not_free (h : Chained d b i0 i1 i2) (mem : i ∈ [i0, i1, i2]) : d.free i = false := by
  simp only [mem_cons, not_mem_nil, or_false] at mem
  rcases mem with rfl | rfl | rfl
  · exact h.held.1
  · exact h.held.2.1
  · exact h.held.2.2

lemma Chains.congr (h : Chains d place) (free : d'.free = d.free) (desc : d'.desc = d.desc)
    (info : d'.infoB = d.infoB) : Chains d' place where
  chained b i0 i1 i2 at_ := (h.chained b i0 i1 i2 at_).congr (fun i held => by rw [free, held])
    (fun i _ => congrFun desc i) (congrFun info _)
  excl := h.excl
  used i held := h.used i (by rwa [← free])

lemma Chains.not_free (h : Chains d place) (mem : i ∈ chainOf (place b)) : d.free i = false := by
  cases hp : place b with
  | waiting i0 i1 i2 =>
    rw [hp] at mem
    exact (h.chained b i0 i1 i2 hp).not_free mem
  | out => simp [hp, chainOf] at mem
  | allocating w => simp [hp, chainOf] at mem

section
variable [DecidableEq B]

lemma chainOf_update (before : chainOf (place b) = chainOf p) (b' : B) :
    chainOf (update place b p b') = chainOf (place b') := by
  rcases eq_or_ne b' b with rfl | ne
  · rw [update_self, before]
  · rw [update_of_ne ne]

lemma Chains.sleep (h : Chains d place) (idle : chainOf (place b) = [])
    (free : d'.free = d.free) (desc : ∀ i, d.free i = false → d'.desc i = d.desc i)
    (info : d'.infoB = d.infoB) : Chains d' (update place b (.allocating write)) := by
  have same := chainOf_update (p := .allocating write) idle
  refine ⟨fun b' j0 j1 j2 hp => ?_, fun b1 b2 i h1 h2 => ?_, fun i held => ?_⟩
  · have ne : b' ≠ b := by
      rintro rfl
      simp at hp
    rw [update_of_ne ne] at hp
    have old := h.chained b' j0 j1 j2 hp
    exact old.congr (fun i held => by rw [free, held]) (fun i mem => desc i (old.not_free mem)) (congrFun info _)
  · rw [same] at h1 h2
    exact h.excl b1 b2 i h1 h2
  · rw [free] at held
    obtain ⟨b', mem⟩ := h.used i held
    exact ⟨b', by rwa [same]⟩

lemma Chains.submit (h : Chains d place) (blockno) (idle : chainOf (place b) = [])
    (write) (free : d.free i0 = true ∧ d.free i1 = true ∧ d.free i2 = true)
    (ne : i0 ≠ i1 ∧ i0 ≠ i2 ∧ i1 ≠ i2) :
    Chains (submit blockno (holding d i0 i1 i2) b write i0 i1 i2) (update place b (.waiting i0 i1 i2)) := by
  have new : ∀ i, i ∈ [i0, i1, i2] → d.free i = true := by
    intro i mem
    simp only [mem_cons, not_mem_nil, or_false] at mem
    rcases mem with rfl | rfl | rfl
    · exact free.1
    · exact free.2.1
    · exact free.2.2
  have apart : ∀ b' i, i ∈ chainOf (place b') → i ≠ i0 ∧ i ≠ i1 ∧ i ≠ i2 := by
    intro b' i mem
    have held := h.not_free mem
    refine ⟨?_, ?_, ?_⟩ <;> rintro rfl
    · rw [free.1] at held
      cases held
    · rw [free.2.1] at held
      cases held
    · rw [free.2.2] at held
      cases held
  refine ⟨fun b' j0 j1 j2 hp => ?_, fun b1 b2 i h1 h2 => ?_, fun i held => ?_⟩
  · rcases eq_or_ne b' b with rfl | other
    · rw [update_self] at hp
      cases hp
      refine ⟨ne, ?_, ?_, ?_, ?_, ?_⟩
      · simp [VirtioMachine.submit, holding, update_apply]
      · simp [VirtioMachine.submit, ne.1, ne.2.1, head16, descNext]
      · have flags : ((if write then 0 else descWrite) ||| descNext) &&& descNext ≠ 0 := by
          cases write <;> decide
        simpa [VirtioMachine.submit, ne.2.2, head16] using flags
      · have flags : descWrite &&& descNext = 0 := by decide
        simpa [VirtioMachine.submit] using flags
      · simp [VirtioMachine.submit]
    · rw [update_of_ne other] at hp
      have old := h.chained b' j0 j1 j2 hp
      have mem : ∀ i ∈ [j0, j1, j2], i ≠ i0 ∧ i ≠ i1 ∧ i ≠ i2 := fun i mem => apart b' i (by rw [hp]; exact mem)
      refine old.congr (fun i held => ?_) (fun i hi => ?_) ?_
      · simp only [VirtioMachine.submit, holding, taking_free, update_apply]
        split_ifs <;> first | rfl | exact held
      · obtain ⟨n0, n1, n2⟩ := mem i hi
        simp [VirtioMachine.submit, holding, n0, n1, n2]
      · simp [VirtioMachine.submit, holding, (mem j0 (by simp)).1]
  · rcases eq_or_ne b1 b with rfl | n1 <;> rcases eq_or_ne b2 b1 with rfl | n2
    · rfl
    · rw [update_self] at h1
      rw [update_of_ne n2] at h2
      have held := h.not_free h2
      rw [new i h1] at held
      cases held
    · rfl
    · rw [update_of_ne n1] at h1
      rcases eq_or_ne b2 b with rfl | n3
      · rw [update_self] at h2
        have held := h.not_free h1
        rw [new i h2] at held
        cases held
      · rw [update_of_ne n3] at h2
        exact h.excl b1 b2 i h1 h2
  · by_cases mine : i ∈ [i0, i1, i2]
    · exact ⟨b, by rwa [update_self]⟩
    · have old : d.free i = false := by
        simp only [mem_cons, not_mem_nil, or_false, not_or] at mine
        simpa [VirtioMachine.submit, holding, mine.1, mine.2.1, mine.2.2] using held
      obtain ⟨b', mem⟩ := h.used i old
      have other : b' ≠ b := by
        rintro rfl
        rw [idle] at mem
        cases mem
      exact ⟨b', by rwa [update_of_ne other]⟩

omit [DecidableEq B] in
lemma freeChain_chained (h : Chained d b i0 i1 i2) (fuel) :
    freeChain (fuel + 3) { d with infoB := update d.infoB i0 none } i0 = .ok (released d i0 i1 i2) := by
  obtain ⟨n01, n02, n12⟩ := h.distinct
  have at0 := Fin.ofNat_val_eq_self i0
  have at1 := Fin.ofNat_val_eq_self i1
  have at2 := Fin.ofNat_val_eq_self i2
  simp only [freeChain]
  rw [freeDesc_held (by exact h.held.1), at0]
  dsimp only
  rw [if_pos h.first.1, h.first.2, toNat_head16, freeDesc_held (by simpa [n01.symm] using h.held.2.1), at1]
  rw [giving_desc, update_of_ne n01.symm]
  dsimp only
  rw [if_pos h.second.1, h.second.2.1, toNat_head16,
    freeDesc_held (by simpa [n02.symm, n12.symm] using h.held.2.2), at2]
  rw [giving_desc, update_of_ne n12.symm, giving_desc, update_of_ne n02.symm]
  dsimp only
  rw [if_neg (by simp [h.third.1])]
  rfl

lemma Chains.finish (h : Chains d place) (at_ : place b = .waiting i0 i1 i2) :
    Chains (released d i0 i1 i2) (update place b .out) := by
  have mine : chainOf (place b) = [i0, i1, i2] := by rw [at_]; rfl
  have apart : ∀ b' i, b' ≠ b → i ∈ chainOf (place b') → i ≠ i0 ∧ i ≠ i1 ∧ i ≠ i2 := by
    intro b' i other mem
    refine ⟨?_, ?_, ?_⟩ <;> rintro rfl <;> exact other (h.excl _ _ _ mem (by rw [mine]; simp))
  have rest : ∀ b', b' ≠ b → chainOf (update place b .out b') = chainOf (place b') := by
    intro b' other
    rw [update_of_ne other]
  have gone : chainOf (update place b .out b) = [] := by rw [update_self]; rfl
  refine ⟨fun b' j0 j1 j2 hp => ?_, fun b1 b2 i h1 h2 => ?_, fun i held => ?_⟩
  · have other : b' ≠ b := by
      rintro rfl
      simp at hp
    rw [update_of_ne other] at hp
    have old := h.chained b' j0 j1 j2 hp
    have away : ∀ i ∈ [j0, j1, j2], i ≠ i0 ∧ i ≠ i1 ∧ i ≠ i2 := fun i mem =>
      apart b' i other (by rw [hp]; exact mem)
    refine ⟨old.distinct, ⟨?_, ?_, ?_⟩, ?_, ?_, ?_, ?_⟩
    · obtain ⟨a0, a1, a2⟩ := away j0 (by simp)
      simpa [released, a0, a1, a2] using old.held.1
    · obtain ⟨a0, a1, a2⟩ := away j1 (by simp)
      simpa [released, a0, a1, a2] using old.held.2.1
    · obtain ⟨a0, a1, a2⟩ := away j2 (by simp)
      simpa [released, a0, a1, a2] using old.held.2.2
    · obtain ⟨a0, a1, a2⟩ := away j0 (by simp)
      simpa [released, a0, a1, a2] using old.first
    · obtain ⟨a0, a1, a2⟩ := away j1 (by simp)
      simpa [released, a0, a1, a2] using old.second
    · obtain ⟨a0, a1, a2⟩ := away j2 (by simp)
      simpa [released, a0, a1, a2] using old.third
    · simpa [released, (away j0 (by simp)).1] using old.info
  · have n1 : b1 ≠ b := by
      rintro rfl
      rw [gone] at h1
      cases h1
    have n2 : b2 ≠ b := by
      rintro rfl
      rw [gone] at h2
      cases h2
    rw [rest _ n1] at h1
    rw [rest _ n2] at h2
    exact h.excl b1 b2 i h1 h2
  · have hi : i ≠ i0 ∧ i ≠ i1 ∧ i ≠ i2 := by
      refine ⟨?_, ?_, ?_⟩ <;> rintro rfl <;> simp [released, update_apply] at held
    have old : d.free i = false := by simpa [released, hi.1, hi.2.1, hi.2.2] using held
    obtain ⟨b', mem⟩ := h.used i old
    have other : b' ≠ b := by
      rintro rfl
      rw [mine] at mem
      simp [hi.1, hi.2.1, hi.2.2] at mem
    exact ⟨b', by rwa [rest _ other]⟩

end

/-- The heads ever submitted and completed, how far the device has looked at the
first and the driver at the second, and the heads at the device. -/
structure Ledger where
  subs : List Idx
  seen : Nat
  devs : List Idx
  comps : List Idx
  handled : Nat

def Ledger.queued (L : Ledger) : List Idx := L.subs.drop L.seen

def Ledger.done (L : Ledger) : List Idx := L.comps.drop L.handled

def Ledger.stages (L : Ledger) : List Idx := L.queued ++ (L.devs ++ L.done)

structure Rings (d : Disk B) (seen : UInt16) (taken : List UInt16) (L : Ledger) : Prop where
  availIdx : Counts d.availIdx L.subs.length
  seen : Counts seen L.seen
  avail : Window.Shows d.availRing (L.subs.map head16) L.seen
  usedAt : Counts d.usedAt L.comps.length
  usedIdx : Counts d.usedIdx L.handled
  used : Window.Shows d.usedRing (L.comps.map head32) L.handled
  taken : taken = L.devs.map head16
  nodup : L.stages.Nodup

variable {seen : UInt16} {taken : List UInt16} {L : Ledger} {h : Idx}

lemma Rings.congr (r : Rings d seen taken L) (availIdx : d'.availIdx = d.availIdx)
    (availRing : d'.availRing = d.availRing) (usedAt : d'.usedAt = d.usedAt)
    (usedRing : d'.usedRing = d.usedRing) (usedIdx : d'.usedIdx = d.usedIdx) :
    Rings d' seen taken L where
  __ := r
  availIdx := availIdx ▸ r.availIdx
  avail := availRing ▸ r.avail
  usedAt := usedAt ▸ r.usedAt
  usedIdx := usedIdx ▸ r.usedIdx
  used := usedRing ▸ r.used

lemma Rings.seen_le (r : Rings d seen taken L) : L.seen ≤ L.subs.length ∧ L.subs.length ≤ L.seen + num := by
  have le := r.avail.le
  have fits := r.avail.fits
  rw [length_map] at le fits
  exact ⟨le, fits⟩

lemma Rings.handled_le (r : Rings d seen taken L) : L.handled ≤ L.comps.length ∧ L.comps.length ≤ L.handled + num := by
  have le := r.used.le
  have fits := r.used.fits
  rw [length_map] at le fits
  exact ⟨le, fits⟩

lemma room (nodup : (h :: l).Nodup) : l.length < num := by
  have le := nodup.length_le_card
  exact le

def Ledger.submit (L : Ledger) (h : Idx) : Ledger := { L with subs := L.subs ++ [h] }

section
variable (r : Rings d seen taken L)
include r

lemma Rings.queued_submit (h : Idx) : (L.submit h).queued = L.queued ++ [h] :=
  drop_append_of_le_length r.seen_le.1

lemma Rings.stages_submit (h : Idx) : (L.submit h).stages.Perm (h :: L.stages) := by
  unfold Ledger.stages
  rw [r.queued_submit, append_assoc]
  exact perm_middle

lemma Rings.submit (new : h ∉ L.stages)
    (ring : d'.availRing = update d.availRing (slot d.availIdx) (head16 h))
    (idx : d'.availIdx = d.availIdx + 1) (usedAt : d'.usedAt = d.usedAt)
    (usedRing : d'.usedRing = d.usedRing) (usedIdx : d'.usedIdx = d.usedIdx) :
    Rings d' seen taken (L.submit h) := by
  have nodup : (L.submit h).stages.Nodup := (r.stages_submit h).nodup_iff.mpr (nodup_cons.mpr ⟨new, r.nodup⟩)
  have free : L.subs.length < L.seen + num := by
    have few : (h :: L.queued).Nodup := by
      refine nodup_cons.mpr ⟨fun mem => new (mem_append_left _ mem), ?_⟩
      exact (nodup_append.mp r.nodup).1
    have := room few
    rw [Ledger.queued, length_drop] at this
    omega
  refine ⟨?_, r.seen, ?_, usedAt ▸ r.usedAt, usedIdx ▸ r.usedIdx, usedRing ▸ r.used, r.taken, nodup⟩
  · rw [idx]
    simpa [Ledger.submit] using r.availIdx.succ
  · have pushed := r.avail.push (by simpa using free) (head16 h)
    rw [ring, r.availIdx.slot]
    simpa [Ledger.submit] using pushed

def Ledger.take (L : Ledger) (h : Idx) : Ledger := { L with seen := L.seen + 1, devs := L.devs ++ [h] }

lemma Rings.take (more : seen ≠ d.availIdx) :
    ∃ h, L.queued = h :: (L.take h).queued ∧ d.availRing (slot seen) = head16 h ∧
      Rings d (seen + 1) (taken ++ [d.availRing (slot seen)]) (L.take h) ∧
      (L.take h).stages.Perm L.stages := by
  have bounds := r.seen_le
  have lt : L.seen < L.subs.length := by
    have ne : L.subs.length ≠ L.seen := fun eq => more ((r.seen.eq_iff r.availIdx bounds.1 bounds.2).mpr eq)
    omega
  obtain ⟨shows, first⟩ := r.avail.pop (by simpa using lt)
  obtain ⟨h, hh⟩ : ∃ h, L.subs[L.seen]? = some h := ⟨_, getElem?_eq_getElem lt⟩
  have entry : d.availRing (slot seen) = head16 h := by
    rw [getElem?_map, hh, map_some] at first
    rw [r.seen.slot]
    exact (some.inj first).symm
  have split : L.queued = h :: (L.take h).queued := by
    have eq := drop_eq_getElem_cons lt
    rw [getElem?_eq_getElem lt] at hh
    rw [Ledger.queued, eq, some.inj hh]
    rfl
  have perm : (L.take h).stages.Perm L.stages := by
    unfold Ledger.stages
    rw [split]
    simp only [Ledger.take, append_assoc, cons_append]
    refine (List.Perm.append_left _ perm_middle).trans perm_middle
  refine ⟨h, split, entry, ⟨r.availIdx, r.seen.succ, shows, r.usedAt, r.usedIdx, r.used, ?_,
    perm.nodup_iff.mpr r.nodup⟩, perm⟩
  rw [entry, r.taken]
  simp [Ledger.take]

def Ledger.complete (L : Ledger) (h : Idx) : Ledger :=
  { L with devs := L.devs.erase h, comps := L.comps ++ [h] }

lemma Rings.done_complete (h : Idx) : (L.complete h).done = L.done ++ [h] :=
  drop_append_of_le_length r.handled_le.1

lemma Rings.complete (mem : h ∈ L.devs) (d' : Disk B)
    (availRing : d'.availRing = d.availRing) (availIdx : d'.availIdx = d.availIdx)
    (usedAt : d'.usedAt = d.usedAt + 1)
    (usedRing : d'.usedRing = update d.usedRing (slot d.usedAt) (head32 h))
    (usedIdx : d'.usedIdx = d.usedIdx) :
    Rings d' seen (taken.erase (head16 h)) (L.complete h) ∧ (L.complete h).stages.Perm L.stages := by
  have perm : (L.complete h).stages.Perm L.stages := by
    unfold Ledger.stages
    rw [r.done_complete]
    refine List.Perm.append_left _ ?_
    have front : (L.devs.erase h ++ (L.done ++ [h])).Perm (h :: (L.devs.erase h ++ L.done)) := by
      rw [← append_assoc]
      exact perm_append_singleton ..
    exact front.trans ((perm_cons_erase mem).symm.append_right L.done)
  have nodup := perm.nodup_iff.mpr r.nodup
  have free : L.comps.length < L.handled + num := by
    have parts := (nodup_append.mp (nodup_append.mp r.nodup).2.1)
    have few : (h :: L.done).Nodup := by
      refine nodup_cons.mpr ⟨fun done => ?_, parts.2.1⟩
      exact parts.2.2 h mem h done rfl
    have := room few
    rw [Ledger.done, length_drop] at this
    omega
  refine ⟨⟨availIdx ▸ r.availIdx, r.seen, availRing ▸ r.avail, ?_, usedIdx ▸ r.usedIdx, ?_, ?_, nodup⟩, perm⟩
  · rw [usedAt]
    simpa [Ledger.complete] using r.usedAt.succ
  · have pushed := r.used.push (by simpa using free) (head32 h)
    rw [usedRing, r.usedAt.slot]
    simpa [Ledger.complete] using pushed
  · rw [r.taken]
    exact (map_erase head16_injective L.devs).symm

def Ledger.handle (L : Ledger) : Ledger := { L with handled := L.handled + 1 }

lemma Rings.handle (more : d.usedIdx ≠ d.usedAt) (d' : Disk B)
    (availRing : d'.availRing = d.availRing) (availIdx : d'.availIdx = d.availIdx)
    (usedAt : d'.usedAt = d.usedAt) (usedRing : d'.usedRing = d.usedRing)
    (usedIdx : d'.usedIdx = d.usedIdx + 1) :
    ∃ h, L.done = h :: L.handle.done ∧ d.usedRing (slot d.usedIdx) = head32 h ∧ Rings d' seen taken L.handle := by
  have bounds := r.handled_le
  have lt : L.handled < L.comps.length := by
    have ne : L.comps.length ≠ L.handled := fun eq => more ((r.usedIdx.eq_iff r.usedAt bounds.1 bounds.2).mpr eq)
    omega
  obtain ⟨shows, first⟩ := r.used.pop (by simpa using lt)
  obtain ⟨h, hh⟩ : ∃ h, L.comps[L.handled]? = some h := ⟨_, getElem?_eq_getElem lt⟩
  have entry : d.usedRing (slot d.usedIdx) = head32 h := by
    rw [getElem?_map, hh, map_some] at first
    rw [r.usedIdx.slot]
    exact (some.inj first).symm
  have split : L.done = h :: L.handle.done := by
    have eq := drop_eq_getElem_cons lt
    rw [getElem?_eq_getElem lt] at hh
    rw [Ledger.done, eq, some.inj hh]
    rfl
  have nodup : L.handle.stages.Nodup := by
    refine r.nodup.sublist ?_
    refine List.Sublist.append_left (List.Sublist.append_left ?_ _) _
    rw [split]
    exact sublist_cons_self ..
  refine ⟨h, split, entry, ⟨availIdx ▸ r.availIdx, r.seen, availRing ▸ r.avail, usedAt ▸ r.usedAt, ?_,
    usedRing ▸ shows, r.taken, nodup⟩⟩
  rw [usedIdx]
  exact r.usedIdx.succ

end

variable [DecidableEq B]

/-- Which buffers the device has served since the last call on them began. -/
def note (s : State B) (served : B → Bool) : Act B → B → Bool
  | .rw b _ => Function.update served b false
  | .complete x =>
    match (second s.disk x).addr with
    | .data b => Function.update served b true
    | _ => served
  | _ => served

structure Inv (s : State B) (served : B → Bool) (L : Ledger) : Prop where
  chains : Chains s.disk s.place
  rings : Rings s.disk s.seen s.taken L
  flying : ∀ h, h ∈ L.stages ↔ ∃ b i₁ i₂, s.place b = .waiting h i₁ i₂ ∧ s.flag b = true
  status : ∀ h ∈ L.done, s.disk.infoStatus h = 0
  served : ∀ b i₀ i₁ i₂, s.place b = .waiting i₀ i₁ i₂ → i₀ ∉ L.queued → i₀ ∉ L.devs →
    served b = true

variable {s t : State B} {served served' : B → Bool}

omit [DecidableEq B] in
lemma Inv.not_free (inv : Inv s served L) (mem : h ∈ L.stages) : s.disk.free h = false := by
  obtain ⟨b, i1, i2, at_, -⟩ := (inv.flying h).mp mem
  exact (inv.chains.chained b h i1 i2 at_).held.1

omit [DecidableEq B] in
lemma Inv.done_served (inv : Inv s served L) (at_ : s.place b = .waiting i0 i1 i2)
    (done : i0 ∈ L.done) : served b = true := by
  have parts := nodup_append.mp inv.rings.nodup
  refine inv.served b i0 i1 i2 at_ (fun queued => ?_) fun dev => ?_
  · exact parts.2.2 i0 queued i0 (mem_append_right _ done) rfl
  · exact (nodup_append.mp parts.2.1).2.2 i0 dev i0 done rfl

lemma Inv.enter (inv : Inv s served L) (served' blockno write)
    (idle : chainOf (s.place b) = []) (others : ∀ b', b' ≠ b → served' b' = served b') :
    ∃ t L', VirtioMachine.enter blockno s b write = .ok t ∧ Inv t served' L' ∧ L.queued <+: L'.queued := by
  have notMine : ∀ h j1 j2, s.place b ≠ .waiting h j1 j2 := by
    intro h j1 j2 eq
    rw [eq] at idle
    cases idle
  unfold VirtioMachine.enter
  rcases alloc3Desc_spec s.disk with ⟨desc, ran, same⟩ | ⟨i0, i1, i2, ran, f0, f1, f2, ne⟩
  · rw [ran]
    refine ⟨_, L, rfl, ⟨inv.chains.sleep idle rfl same rfl, inv.rings.congr rfl rfl rfl rfl rfl,
      fun h => ?_, inv.status, fun b' j0 j1 j2 hp => ?_⟩, prefix_refl _⟩
    · rw [inv.flying]
      constructor <;> rintro ⟨b', j1, j2, hp, flag⟩
      · have other : b' ≠ b := by
          rintro rfl
          exact notMine _ _ _ hp
        exact ⟨b', j1, j2, by simpa [other] using hp, flag⟩
      · have other : b' ≠ b := by
          rintro rfl
          simp at hp
        exact ⟨b', j1, j2, by simpa [other] using hp, flag⟩
    · have other : b' ≠ b := by
        rintro rfl
        simp at hp
      rw [others b' other]
      exact inv.served b' j0 j1 j2 (by simpa [other] using hp)
  · rw [ran]
    have new : i0 ∉ L.stages := by
      intro mem
      have held := inv.not_free mem
      rw [f0] at held
      cases held
    have stages := inv.rings.stages_submit i0
    have queued := inv.rings.queued_submit i0
    refine ⟨_, L.submit i0, rfl, ⟨inv.chains.submit blockno idle write ⟨f0, f1, f2⟩ ne,
      inv.rings.submit new rfl rfl rfl rfl rfl, fun h => ?_, fun h mem => ?_,
      fun b' j0 j1 j2 hp out1 out2 => ?_⟩, by rw [queued]; exact prefix_append ..⟩
    · rw [stages.mem_iff, mem_cons, inv.flying]
      constructor
      · rintro (rfl | ⟨b', j1, j2, hp, flag⟩)
        · exact ⟨b, i1, i2, by simp, by simp⟩
        · have other : b' ≠ b := by
            rintro rfl
            exact notMine _ _ _ hp
          exact ⟨b', j1, j2, by simpa [other] using hp, by simpa [other] using flag⟩
      · rintro ⟨b', j1, j2, hp, flag⟩
        rcases eq_or_ne b' b with rfl | other
        · dsimp only at hp
          rw [update_self] at hp
          cases hp
          exact .inl rfl
        · exact .inr ⟨b', j1, j2, by simpa [other] using hp, by simpa [other] using flag⟩
    · have done := mem
      have ne0 : h ≠ i0 := by
        rintro rfl
        exact new (mem_append_right _ (mem_append_right _ done))
      simp only [VirtioMachine.submit, update_of_ne ne0]
      exact inv.status h done
    · dsimp only at hp
      rcases eq_or_ne b' b with rfl | other
      · rw [update_self] at hp
        cases hp
        rw [queued] at out1
        simp at out1
      · rw [update_of_ne other] at hp
        rw [others b' other]
        refine inv.served b' j0 j1 j2 hp (fun mem => out1 ?_) out2
        rw [queued]
        exact mem_append_left _ mem

lemma Inv.finish (inv : Inv s served L) (at_ : s.place b = .waiting i0 i1 i2) :
    ∃ t, VirtioMachine.finish s b i0 = .ok t ∧ Inv t served L ∧
      (t.place b = .out → s.flag b = false ∧ served b = true) := by
  unfold VirtioMachine.finish
  cases flag : s.flag b with
  | true =>
    rw [if_pos rfl]
    refine ⟨s, rfl, inv, fun out => ?_⟩
    rw [at_] at out
    cases out
  | false =>
    have fuel : num + 1 = 6 + 3 := rfl
    rw [if_neg (by simp), fuel]
    dsimp only
    rw [freeChain_chained (inv.chains.chained b i0 i1 i2 at_) 6]
    -- the head is on its way no more: its buffer would still be marked
    have gone : i0 ∉ L.stages := by
      intro mem
      obtain ⟨b', j1, j2, hp, marked⟩ := (inv.flying i0).mp mem
      have same : b' = b := inv.chains.excl b' b i0 (by simp [hp, chainOf]) (by simp [at_, chainOf])
      rw [same, flag] at marked
      cases marked
    have mine : served b = true := by
      refine inv.served b i0 i1 i2 at_ (fun mem => gone (mem_append_left _ mem)) fun mem => ?_
      exact gone (mem_append_right _ (mem_append_left _ mem))
    refine ⟨_, rfl, ⟨inv.chains.finish at_, inv.rings.congr rfl rfl rfl rfl rfl, fun h => ?_,
      inv.status, fun b' j0 j1 j2 hp => ?_⟩, fun _ => ⟨rfl, mine⟩⟩
    · rw [inv.flying]
      constructor <;> rintro ⟨b', j1, j2, hp, marked⟩
      · have other : b' ≠ b := by
          rintro rfl
          rw [flag] at marked
          cases marked
        exact ⟨b', j1, j2, by simpa [other] using hp, marked⟩
      · have other : b' ≠ b := by
          rintro rfl
          simp at hp
        exact ⟨b', j1, j2, by simpa [other] using hp, marked⟩
    · have other : b' ≠ b := by
        rintro rfl
        simp at hp
      exact inv.served b' j0 j1 j2 (by simpa [other] using hp)

lemma Inv.intr (inv : Inv s served L) (more : s.disk.usedIdx ≠ s.disk.usedAt) :
    ∃ b i0 i1 i2 t, s.place b = .waiting i0 i1 i2 ∧
      s.disk.usedRing (slot s.disk.usedIdx) = head32 i0 ∧ s.disk.infoB i0 = some b ∧
      s.flag b = true ∧ served b = true ∧ VirtioMachine.intr s = .ok t ∧
      t.flag = update s.flag b false ∧ Inv t served L.handle := by
  obtain ⟨h, split, entry, rings⟩ := inv.rings.handle more
    { s.disk with usedIdx := s.disk.usedIdx + 1 } rfl rfl rfl rfl rfl
  have done : h ∈ L.done := by
    rw [split]
    exact mem_cons_self
  have stage : h ∈ L.stages := mem_append_right _ (mem_append_right _ done)
  obtain ⟨b, i1, i2, at_, flag⟩ := (inv.flying h).mp stage
  have info := (inv.chains.chained b h i1 i2 at_).info
  have lt : (head32 h).toNat < num := by
    rw [toNat_head32]
    exact h.isLt
  have here : (⟨(head32 h).toNat, lt⟩ : Idx) = h := Fin.ext (toNat_head32 h)
  have ran : VirtioMachine.intr s = .ok { s with
    flag := update s.flag b false
    disk := { s.disk with usedIdx := s.disk.usedIdx + 1 } } := by
    unfold VirtioMachine.intr
    simp [entry, lt, here, inv.status h done, info]
  refine ⟨b, h, i1, i2, _, at_, entry, info, flag, inv.done_served at_ done, ran, rfl,
    ⟨inv.chains.congr rfl rfl rfl, rings, fun h' => ?_, fun h' mem => ?_, inv.served⟩⟩
  · have parts : h' ∈ L.stages ↔ h' = h ∨ h' ∈ L.handle.stages := by
      have queued : L.handle.queued = L.queued := rfl
      have devs : L.handle.devs = L.devs := rfl
      simp only [Ledger.stages, split, queued, devs, mem_append, mem_cons]
      tauto
    have apart : h ∉ L.handle.stages := by
      have nodup := inv.rings.nodup
      have perm : L.stages.Perm (h :: L.handle.stages) := by
        unfold Ledger.stages
        rw [split, ← append_assoc, ← append_assoc]
        exact perm_middle
      exact (nodup_cons.mp (perm.nodup_iff.mp nodup)).1
    constructor
    · intro mem
      obtain ⟨b', j1, j2, hp, marked⟩ := (inv.flying h').mp (parts.mpr (.inr mem))
      have other : b' ≠ b := by
        rintro rfl
        rw [at_] at hp
        cases hp
        exact apart mem
      exact ⟨b', j1, j2, hp, by simpa [other] using marked⟩
    · rintro ⟨b', j1, j2, hp, marked⟩
      dsimp only at hp marked
      have other : b' ≠ b := by
        rintro rfl
        simp at marked
      have old := (inv.flying h').mpr ⟨b', j1, j2, hp, by simpa [other] using marked⟩
      rcases parts.mp old with rfl | rest
      · exact absurd (inv.chains.excl b' b h' (by simp [hp, chainOf]) (by simp [at_, chainOf])) other
      · exact rest
  · exact inv.status h' (by rw [split]; exact mem_cons_of_mem _ mem)

omit [DecidableEq B] in
lemma Chained.follow (c : Chained d b i0 i1 i2) :
    (VirtioMachine.second d (head16 i0)).addr = .data b ∧ (VirtioMachine.third d (head16 i0)).addr = .status i0 := by
  have at1 : VirtioMachine.second d (head16 i0) = d.desc i1 := by
    rw [VirtioMachine.second, slot_head16, c.first.2, slot_head16]
  refine ⟨by rw [at1, c.second.2.2], ?_⟩
  rw [VirtioMachine.third, at1, c.second.2.1, slot_head16, c.third.2]

lemma Inv.complete (inv : Inv s served L) (mem : x ∈ s.taken) :
    ∃ L', Inv (VirtioMachine.complete s x) (note s served (.complete x)) L' ∧ L'.queued = L.queued := by
  rw [inv.rings.taken] at mem
  obtain ⟨h, dev, rfl⟩ := mem_map.mp mem
  have stage : h ∈ L.stages := mem_append_right _ (mem_append_left _ dev)
  obtain ⟨b, i1, i2, at_, flag⟩ := (inv.flying h).mp stage
  obtain ⟨data, status⟩ := (inv.chains.chained b h i1 i2 at_).follow
  have noted : note s served (.complete (head16 h)) = update served b true := by simp [note, data]
  obtain ⟨rings, perm⟩ := inv.rings.complete dev (VirtioMachine.complete s (head16 h)).disk rfl rfl rfl rfl rfl
  have done := inv.rings.done_complete h
  refine ⟨L.complete h, ⟨inv.chains.congr rfl rfl rfl, rings, fun h' => ?_, fun h' mem' => ?_,
    fun b' j0 j1 j2 hp out1 out2 => ?_⟩, rfl⟩
  · rw [perm.mem_iff]
    exact inv.flying h'
  · simp only [VirtioMachine.complete, status]
    rcases eq_or_ne h' h with rfl | ne
    · exact update_self ..
    · rw [update_of_ne ne]
      rw [done, mem_append, mem_singleton] at mem'
      exact inv.status h' (mem'.resolve_right ne)
  · rw [noted]
    rcases eq_or_ne b' b with rfl | other
    · exact update_self ..
    · rw [update_of_ne other]
      refine inv.served b' j0 j1 j2 hp out1 fun mem' => out2 ?_
      refine (mem_erase_of_ne ?_).mpr mem'
      rintro rfl
      exact other (inv.chains.excl b' b j0 (by simp [show s.place b' = _ from hp, chainOf]) (by simp [at_, chainOf]))

omit [DecidableEq B] in
lemma Inv.take (inv : Inv s served L) (more : s.seen ≠ s.disk.availIdx) :
    ∃ L', Inv { s with seen := s.seen + 1, taken := s.taken ++ [s.disk.availRing (slot s.seen)] } served L' := by
  obtain ⟨h, split, -, rings, perm⟩ := inv.rings.take more
  refine ⟨L.take h, inv.chains, rings, fun h' => ?_, inv.status, fun b j0 j1 j2 hp out1 out2 => ?_⟩
  · rw [perm.mem_iff]
    exact inv.flying h'
  · refine inv.served b j0 j1 j2 hp (fun mem => ?_) fun mem => out2 (mem_append_left _ mem)
    rw [split, mem_cons] at mem
    rcases mem with rfl | later
    · exact out2 (mem_append_right _ (mem_singleton_self _))
    · exact out1 later

omit [DecidableEq B] in
lemma inv_start (served) : Inv (start B) served ⟨[], 0, [], [], 0⟩ where
  chains := ⟨nofun, nofun, nofun⟩
  rings := ⟨rfl, rfl, Window.shows_nil _, rfl, rfl, Window.shows_nil _, rfl, nodup_nil⟩
  flying h := by
    refine ⟨nofun, ?_⟩
    rintro ⟨b, i1, i2, at_, -⟩
    cases at_
  status := nofun
  served := nofun

/-- Every step that is enabled is taken without a panic. Only the device takes entries
out of the avail ring, and none is overwritten there. -/
lemma Inv.next (inv : Inv s served L) (blockno) (hs : next blockno s a = some r) :
    ∃ t L', r = .ok t ∧ Inv t (note s served a) L' ∧ (a ≠ .take → L.queued <+: L'.queued) := by
  cases a with
  | rw b write =>
    simp only [VirtioMachine.next] at hs
    split at hs <;> try contradiction
    rename_i out
    obtain ⟨t, L', ran, inv', kept⟩ := inv.enter (update served b false) blockno
      write (by rw [out]; rfl) fun b' other => update_of_ne other ..
    exact ⟨t, L', (some.inj hs).symm.trans ran, inv', fun _ => kept⟩
  | retry b =>
    simp only [VirtioMachine.next] at hs
    split at hs <;> try contradiction
    rename_i write here
    obtain ⟨t, L', ran, inv', kept⟩ := inv.enter served blockno write (by rw [here]; rfl) fun _ _ => rfl
    exact ⟨t, L', (some.inj hs).symm.trans ran, inv', fun _ => kept⟩
  | finish b =>
    simp only [VirtioMachine.next] at hs
    split at hs <;> try contradiction
    rename_i i0 i1 i2 here
    obtain ⟨t, ran, inv', -⟩ := inv.finish here
    exact ⟨t, L, (some.inj hs).symm.trans ran, inv', fun _ => prefix_refl _⟩
  | intr =>
    simp only [VirtioMachine.next] at hs
    split at hs <;> try contradiction
    rename_i more
    obtain ⟨b, i0, i1, i2, t, -, -, -, -, -, ran, -, inv'⟩ := inv.intr more
    exact ⟨t, L.handle, (some.inj hs).symm.trans ran, inv', fun _ => prefix_refl _⟩
  | take =>
    simp only [VirtioMachine.next] at hs
    split at hs <;> try contradiction
    rename_i more
    obtain ⟨L', inv'⟩ := inv.take more
    exact ⟨_, L', (some.inj hs).symm, inv', fun ne => absurd rfl ne⟩
  | complete x =>
    simp only [VirtioMachine.next] at hs
    split at hs <;> try contradiction
    rename_i mem
    obtain ⟨L', inv', same⟩ := inv.complete mem
    exact ⟨_, L', (some.inj hs).symm, inv', fun _ => by rw [same]⟩

/-- The entries of the avail ring that the device has not taken, oldest first. -/
def untaken (s : State B) : List UInt16 :=
  (List.range (s.disk.availIdx - s.seen).toNat).map fun j =>
    s.disk.availRing (slot (s.seen + UInt16.ofNat j))

omit [DecidableEq B] in
lemma Inv.untaken_eq (inv : Inv s served L) : untaken s = L.queued.map head16 := by
  have bounds := inv.rings.seen_le
  have small : L.subs.length < L.seen + 2 ^ 16 := by
    have := bounds.2
    unfold num at this
    omega
  have count : (s.disk.availIdx - s.seen).toNat = L.subs.length - L.seen := by
    rw [UInt16.toNat_sub, inv.rings.availIdx, inv.rings.seen]
    exact Window.distance bounds.1 small
  apply ext_getElem?
  intro j
  rw [untaken, count, getElem?_map, Ledger.queued, map_drop, getElem?_drop]
  by_cases hj : j < L.subs.length - L.seen
  · have at_ := getElem?_eq_getElem (l := L.subs.map head16) (i := L.seen + j) (by rw [length_map]; omega)
    have counts : Counts (s.seen + UInt16.ofNat j) (L.seen + j) := by
      unfold Counts
      rw [UInt16.toNat_add, inv.rings.seen, UInt16.toNat_ofNat']
      exact (Nat.add_mod _ _ _).symm
    rw [getElem?_range hj, map_some, counts.slot, at_, inv.rings.avail.slot _ _ (by omega) at_]
  · rw [getElem?_eq_none (by simpa using hj), getElem?_eq_none (by simp; omega)]
    rfl

lemma inv_of_run (run : Run (Recorded (Step blockno) note) (start B, fun _ => false) as (s, served)) :
    ∃ L, Inv s served L := by
  refine run.invariant (fun p : State B × (B → Bool) => ∃ L, Inv p.1 p.2 L) ?_ ⟨_, inv_start fun _ => false⟩
  rintro ⟨s, g⟩ a ⟨t, g'⟩ ⟨L, inv⟩ ⟨hs, rfl⟩
  obtain ⟨t', L', eq, inv', -⟩ := inv.next blockno hs
  cases eq
  exact ⟨L', inv'⟩

theorem virtio_protocol {B : Type} [DecidableEq B] {blockno : B → UInt32} {as : List (Act B)}
    {s : State B} {served : B → Bool}
    (run : Run (Recorded (Step blockno) note) (start B, fun _ => false) as (s, served)) :
    (∀ i, s.disk.free i = true ∧ (∀ b, i ∉ chainOf (s.place b)) ∨
      s.disk.free i = false ∧ ∃ b, i ∈ chainOf (s.place b) ∧ ∀ b', i ∈ chainOf (s.place b') → b' = b) ∧
    (∀ b i₀ i₁ i₂, s.place b = .waiting i₀ i₁ i₂ → Chained s.disk b i₀ i₁ i₂) ∧
    (∀ a t, Step blockno s a t → a ≠ .take → untaken s <+: untaken t) ∧
    (s.disk.usedIdx ≠ s.disk.usedAt → ∃ b i₀ i₁ i₂ t, s.place b = .waiting i₀ i₁ i₂ ∧
      s.disk.usedRing (slot s.disk.usedIdx) = head32 i₀ ∧ s.disk.infoB i₀ = some b ∧
      s.flag b = true ∧ served b = true ∧ Step blockno s .intr t ∧
      t.flag = Function.update s.flag b false) ∧
    (∀ b t, Step blockno s (.finish b) t → t.place b = .out → served b = true) ∧
    (∀ a e, next blockno s a ≠ some (.error e)) := by
  obtain ⟨L, inv⟩ := inv_of_run run
  refine ⟨fun i => ?_, inv.chains.chained, fun a t hs other => ?_, fun more => ?_,
    fun b t hs out => ?_, fun a e hs => ?_⟩
  · cases free : s.disk.free i with
    | true =>
      refine .inl ⟨rfl, fun b mem => ?_⟩
      have held := inv.chains.not_free mem
      rw [free] at held
      cases held
    | false =>
      obtain ⟨b, mem⟩ := inv.chains.used i free
      exact .inr ⟨rfl, b, mem, fun b' mem' => inv.chains.excl b' b i mem' mem⟩
  · obtain ⟨t', L', eq, inv', kept⟩ := inv.next blockno hs
    cases eq
    rw [inv.untaken_eq, inv'.untaken_eq]
    exact (kept other).map head16
  · obtain ⟨b, i₀, i₁, i₂, t, at_, entry, info, flag, done, ran, cleared, -⟩ := inv.intr more
    refine ⟨b, i₀, i₁, i₂, t, at_, entry, info, flag, done, ?_, cleared⟩
    simp only [Step, VirtioMachine.next, if_neg more, ran]
  · simp only [Step, VirtioMachine.next] at hs
    split at hs <;> try contradiction
    rename_i i₀ i₁ i₂ here
    obtain ⟨t', ran, -, post⟩ := inv.finish here
    rw [ran] at hs
    cases hs
    exact (post out).2
  · obtain ⟨t, L', eq, -⟩ := inv.next blockno hs
    cases eq

/-- One request for the buffer `()`: submitted, taken, completed and handled. -/
def oneRequest : List (Act Unit) := [.rw () false, .take, .complete 0, .intr, .finish ()]

theorem virtio_protocol_one_request :
    ∃ s served, Run (Recorded (Step fun _ => 7) note) (start Unit, fun _ => false) oneRequest (s, served) ∧
      ∀ i, s.disk.free i = true := by
  have ran : ((exec (fun s a => (next (fun _ => 7) s a).bind Except.toOption) (start Unit)
    oneRequest).map fun s => (List.finRange num).all s.disk.free) = some true := by
    decide +kernel
  obtain ⟨s, hs, all⟩ := Option.map_eq_some_iff.mp ran
  have plain : Run (Step fun _ => 7) (start Unit) oneRequest s := by
    refine (run_of_exec _ hs).mono fun s a t step => ?_
    obtain ⟨r, first, second⟩ := Option.bind_eq_some_iff.mp step
    cases r with
    | error e => cases second
    | ok u =>
      cases second
      exact first
  obtain ⟨served, run⟩ : ∃ served, Run (Recorded (Step fun _ => 7) note)
    (start Unit, fun _ => false) oneRequest (s, served) := plain.recorded _
  refine ⟨s, served, run, fun i => ?_⟩
  rcases (virtio_protocol run).1 i with ⟨free, -⟩ | ⟨held, -⟩
  · exact free
  · have free := List.all_eq_true.mp all i (List.mem_finRange i)
    rw [free] at held
    cases held

end Xv6.VirtioProtocol
