import Mathlib.Algebra.Order.Ring.Nat
import Mathlib.Data.List.FinRange

/-! The driver of `kernel/virtio_disk.c`, its interrupt handler and the device. A buffer is locked by
the process that calls `virtio_disk_rw` on it, so calls are told apart by their buffers `B`. Steps
are the critical sections of `vdisk_lock`, the rounds of the handler's loop, and the device's own:
take an entry of the avail ring, complete a request it has taken. A sleeping process may go on at
any time and tests its condition again, and other sections may come between the rounds of the
handler: both only add runs. -/

namespace Xv6.VirtioMachine

def num : Nat := 8

instance : NeZero num := ⟨by decide⟩

abbrev Idx := Fin num

def descNext : UInt16 := 1
def descWrite : UInt16 := 2

/-- The addresses that the driver puts in a descriptor. -/
inductive Addr (B : Type)
  | null
  | ops (i : Idx)
  | data (b : B)
  | status (i : Idx)

structure Desc (B : Type) where
  addr : Addr B
  len : UInt32
  flags : UInt16
  next : UInt16

structure Req where
  type : UInt32
  reserved : UInt32
  sector : UInt64

/-- `struct disk` and the rings it points to; `usedAt` is `used->idx` and `usedIdx`
is `used_idx`. -/
structure Disk (B : Type) where
  desc : Idx → Desc B
  availIdx : UInt16
  availRing : Idx → UInt16
  usedAt : UInt16
  usedRing : Idx → UInt32
  free : Idx → Bool
  usedIdx : UInt16
  infoB : Idx → Option B
  infoStatus : Idx → UInt8
  ops : Idx → Req

/-- Where a call of `virtio_disk_rw` sleeps: for descriptors, or for its request with
the chain `idx`. -/
inductive Place
  | out
  | allocating (write : Bool)
  | waiting (i₀ i₁ i₂ : Idx)

/-- `flag b` is `b->disk`. The device has looked at the avail ring as far as `seen`,
and `taken` lists the heads it works on. -/
structure State (B : Type) where
  disk : Disk B
  flag : B → Bool
  place : B → Place
  seen : UInt16
  taken : List UInt16

variable {B : Type} [DecidableEq B]

def slot (x : UInt16) : Idx := Fin.ofNat num x.toNat

def allocDesc (d : Disk B) : Option (Idx × Disk B) :=
  ((List.finRange num).find? d.free).map fun i => (i, { d with free := Function.update d.free i false })

def emptyDesc : Desc B := ⟨.null, 0, 0, 0⟩

def freeDesc (d : Disk B) (i : Nat) : Except String (Disk B) :=
  if h : i < num then
    if d.free ⟨i, h⟩ then .error "free_desc 2"
    else .ok { d with
      desc := Function.update d.desc ⟨i, h⟩ emptyDesc
      free := Function.update d.free ⟨i, h⟩ true }
  else .error "free_desc 1"

/-- The loop of `free_chain`. Each round frees a descriptor or panics, so `fuel` of
more than `NUM` is never used up. -/
def freeChain : Nat → Disk B → Nat → Except String (Disk B)
  | 0, _, _ => .error "free_chain: fuel"
  | fuel + 1, d, i =>
    let desc := d.desc (Fin.ofNat num i)
    match freeDesc d i with
    | .error e => .error e
    | .ok d => if desc.flags &&& descNext ≠ 0 then freeChain fuel d desc.next.toNat else .ok d

/-- The three rounds of `alloc3_desc`, with what each gives back when it fails. -/
def alloc3Desc (d : Disk B) : Except String (Option (Idx × Idx × Idx) × Disk B) :=
  match allocDesc d with
  | none => .ok (none, d)
  | some (i₀, d) =>
    match allocDesc d with
    | none => do
      let d ← freeDesc d i₀
      return (none, d)
    | some (i₁, d) =>
      match allocDesc d with
      | none => do
        let d ← freeDesc d i₀
        let d ← freeDesc d i₁
        return (none, d)
      | some (i₂, d) => .ok (some (i₀, i₁, i₂), d)

section
variable (blockno : B → UInt32)

def header (b : B) (write : Bool) : Req where
  type := if write then 1 else 0
  reserved := 0
  sector := (blockno b * 2).toUInt64

/-- The part of `virtio_disk_rw` from the allocation of the chain to the wait. -/
def submit (d : Disk B) (b : B) (write : Bool) (i₀ i₁ i₂ : Idx) : Disk B :=
  { d with
    ops := Function.update d.ops i₀ (header blockno b write)
    desc := Function.update (Function.update (Function.update d.desc
      i₀ ⟨.ops i₀, 16, descNext, UInt16.ofNat i₁⟩)
      i₁ ⟨.data b, 1024, (if write then 0 else descWrite) ||| descNext, UInt16.ofNat i₂⟩)
      i₂ ⟨.status i₀, 1, descWrite, 0⟩
    infoStatus := Function.update d.infoStatus i₀ 0xff
    infoB := Function.update d.infoB i₀ (some b)
    availRing := Function.update d.availRing (slot d.availIdx) (UInt16.ofNat i₀)
    availIdx := d.availIdx + 1 }

/-- `virtio_disk_rw` from `acquire`, or from the return of the first `sleep`. -/
def enter (s : State B) (b : B) (write : Bool) : Except String (State B) :=
  match alloc3Desc s.disk with
  | .error e => .error e
  | .ok (none, d) => .ok { s with disk := d, place := Function.update s.place b (.allocating write) }
  | .ok (some (i₀, i₁, i₂), d) => .ok { s with
      disk := submit blockno d b write i₀ i₁ i₂
      flag := Function.update s.flag b true
      place := Function.update s.place b (.waiting i₀ i₁ i₂) }

def finish (s : State B) (b : B) (i₀ : Idx) : Except String (State B) :=
  if s.flag b then .ok s
  else
    match freeChain (num + 1) { s.disk with infoB := Function.update s.disk.infoB i₀ none } i₀ with
    | .error e => .error e
    | .ok d => .ok { s with disk := d, place := Function.update s.place b .out }

def intr (s : State B) : Except String (State B) :=
  let id := (s.disk.usedRing (slot s.disk.usedIdx)).toNat
  if h : id < num then
    if s.disk.infoStatus ⟨id, h⟩ ≠ 0 then .error "virtio_disk_intr status"
    else
      match s.disk.infoB ⟨id, h⟩ with
      | none => .error "kerneltrap"
      | some b => .ok { s with
          flag := Function.update s.flag b false
          disk := { s.disk with usedIdx := s.disk.usedIdx + 1 } }
  else .error "kerneltrap"

end

def second (d : Disk B) (x : UInt16) : Desc B := d.desc (slot (d.desc (slot x)).next)

def third (d : Disk B) (x : UInt16) : Desc B := d.desc (slot (second d x).next)

/-- The device has done the request at `x`: it stores status `0` where the chain says,
and enters the head in the used ring. -/
def complete (s : State B) (x : UInt16) : State B :=
  { s with
    taken := s.taken.erase x
    disk := { s.disk with
      infoStatus := match (third s.disk x).addr with
        | .status i => Function.update s.disk.infoStatus i 0
        | _ => s.disk.infoStatus
      usedRing := Function.update s.disk.usedRing (slot s.disk.usedAt) x.toUInt32
      usedAt := s.disk.usedAt + 1 } }

inductive Act (B : Type)
  | rw (b : B) (write : Bool)
  | retry (b : B)
  | finish (b : B)
  | intr
  | take
  | complete (x : UInt16)

def next (blockno : B → UInt32) (s : State B) : Act B → Option (Except String (State B))
  | .rw b write =>
    match s.place b with
    | .out => some (enter blockno s b write)
    | _ => none
  | .retry b =>
    match s.place b with
    | .allocating write => some (enter blockno s b write)
    | _ => none
  | .finish b =>
    match s.place b with
    | .waiting i₀ _ _ => some (VirtioMachine.finish s b i₀)
    | _ => none
  | .intr => if s.disk.usedIdx = s.disk.usedAt then none else some (VirtioMachine.intr s)
  | .take =>
    if s.seen = s.disk.availIdx then none
    else some (.ok { s with
      seen := s.seen + 1
      taken := s.taken ++ [s.disk.availRing (slot s.seen)] })
  | .complete x => if x ∈ s.taken then some (.ok (VirtioMachine.complete s x)) else none

def Step (blockno : B → UInt32) (s : State B) (a : Act B) (t : State B) : Prop :=
  next blockno s a = some (.ok t)

/-- After `virtio_disk_init`: the memory of the rings is zeroed and all descriptors
are free. -/
def start (B : Type) : State B where
  disk :=
    { desc := fun _ => emptyDesc
      availIdx := 0
      availRing := fun _ => 0
      usedAt := 0
      usedRing := fun _ => 0
      free := fun _ => true
      usedIdx := 0
      infoB := fun _ => none
      infoStatus := fun _ => 0
      ops := fun _ => ⟨0, 0, 0⟩ }
  flag _ := false
  place _ := .out
  seen := 0
  taken := []

end Xv6.VirtioMachine
