import Xv6.ByteFields
import Xv6.ProcMachine

/-! Physical memory, the page allocator of `kernel/kalloc.c` and the Sv39 page tables of
`kernel/vm.c`. Memory maps page addresses to pages of bytes; a page-table entry is a little-endian
word in such a page, and the list of free pages is threaded through the pages. -/

namespace Xv6.VmMachine

open ByteFields ProcMachine

def pgsize : Nat := 4096
def kernBase : Nat := 0x80000000
def physTop : Nat := kernBase + 128 * 1024 * 1024
def maxVa : Nat := 2 ^ 38
def trampolineVa : Nat := maxVa - pgsize
def trapframeVa : Nat := trampolineVa - pgsize

/-- `PGROUNDUP`, in 64-bit arithmetic. -/
def pgRoundUp (sz : Nat) : Nat := (sz + (pgsize - 1)) % 2 ^ 64 / pgsize * pgsize

def pgRoundDown (a : Nat) : Nat := a / pgsize * pgsize

def pteV : Nat := 1
def pteR : Nat := 2
def pteW : Nat := 4
def pteX : Nat := 8
def pteU : Nat := 16

def pa2pte (pa : Nat) : Nat := pa / 4096 * 1024
def pte2pa (pte : Nat) : Nat := pte / 1024 * 4096
def pteFlags (pte : Nat) : Nat := pte &&& 0x3FF

/-- `PX`: the index into the page-table page of the given level. -/
def px (level va : Nat) : Nat := va / pgsize / 512 ^ level % 512

/-- The machine a kernel runs on: the linker's `end` and `trampoline`, and the
calls of `kalloc` that are made to fail. -/
structure Board where
  end_ : Nat
  trampoline : Nat
  refuse : Nat → Bool
  trampoline_aligned : trampoline % pgsize = 0
  kernBase_le : kernBase ≤ trampoline
  trampoline_lt : trampoline + pgsize ≤ end_
  end_le : end_ ≤ physTop

structure Proc (n : Nat) where
  state : ProcState
  parent : Option (Fin n)
  xstate : Int32
  trapframe : Nat
  pagetable : Nat
  sz : Nat
  name : List UInt8

/-- `calls` counts the calls of `kalloc`. `held` lists the pages that the kernel
took at boot and keeps, `pipes` the pages of live pipes. -/
structure Kernel (n : Nat) where
  mem : Nat → Bytes pgsize
  freelist : Nat
  calls : Nat
  proc : Fin n → Proc n
  held : List Nat
  pipes : List Nat

abbrev K (n : Nat) (α : Type) := StateT (Kernel n) (Except String) α

variable {n : Nat}

def Kernel.store (s : Kernel n) (pa : Nat) (page : Bytes pgsize) : Kernel n :=
  { s with mem := Function.update s.mem pa page }

def fill (c : UInt8) : Bytes pgsize := fun _ => c

def memset (pa : Nat) (c : UInt8) : K n Unit :=
  modify fun s => s.store pa (fill c)

def pteAt (page : Bytes pgsize) (i : Nat) : Nat := field page (8 * i) 8

def readPte (pagetable i : Nat) : K n Nat := do
  let s ← get
  return pteAt (s.mem pagetable) i

def writePte (pagetable i pte : Nat) : K n Unit :=
  modify fun s => s.store pagetable (setField (s.mem pagetable) (8 * i) 8 pte)

section
variable (board : Board)

/-- The page goes to the head of the list; its first word is the link. -/
def kfree (pa : Nat) : K n Unit := do
  if pa % pgsize ≠ 0 ∨ pa < board.end_ ∨ physTop ≤ pa then throw "kfree"
  let s ← get
  set { s.store pa (setField (fill 1) 0 8 s.freelist) with freelist := pa }

def kalloc : K n Nat := do
  let s ← get
  let s := { s with calls := s.calls + 1 }
  if board.refuse (s.calls - 1) ∨ s.freelist = 0 then
    set s
    return 0
  else
    set { s.store s.freelist (fill 5) with freelist := field (s.mem s.freelist) 0 8 }
    return s.freelist

def freerangeFrom : Nat → Nat → K n Unit
  | 0, _ => pure ()
  | m + 1, p => do
    kfree board p
    freerangeFrom m (p + pgsize)

def kinit : K n Unit :=
  freerangeFrom board ((physTop - pgRoundUp board.end_) / pgsize) (pgRoundUp board.end_)

end

section
variable (board : Board)

def walkFrom (va : Nat) (alloc : Bool) : Nat → Nat → K n (Option Nat)
  | 0, pagetable => pure (some pagetable)
  | level + 1, pagetable => do
    let pte ← readPte pagetable (px (level + 1) va)
    if pte &&& pteV ≠ 0 then walkFrom va alloc level (pte2pa pte)
    else if alloc then
      let page ← kalloc board
      if page = 0 then return none
      else
        memset page 0
        writePte pagetable (px (level + 1) va) (pa2pte page ||| pteV)
        walkFrom va alloc level page
    else return none

def walk (pagetable va : Nat) (alloc : Bool) : K n (Option (Nat × Nat)) := do
  if maxVa ≤ va then throw "walk"
  let table ← walkFrom board va alloc 2 pagetable
  return table.map fun table => (table, px 0 va)

def walkaddr (pagetable va : Nat) : K n Nat := do
  if maxVa ≤ va then return 0
  else
    match ← walk board pagetable va false with
    | none => return 0
    | some (table, i) =>
      let pte ← readPte table i
      if pte &&& pteV = 0 then return 0
      else if pte &&& pteU = 0 then return 0
      else return pte2pa pte

def mapFrom (pagetable last perm : Nat) : Nat → Nat → Nat → K n Bool
  | 0, _, _ => throw "mappages: fuel"
  | fuel + 1, a, pa => do
    match ← walk board pagetable a true with
    | none => return false
    | some (table, i) =>
      let pte ← readPte table i
      if pte &&& pteV ≠ 0 then throw "mappages: remap"
      writePte table i (pa2pte pa ||| perm ||| pteV)
      if a = last then return true
      else mapFrom pagetable last perm fuel (a + pgsize) (pa + pgsize)

/-- True for the source's 0 and false for -1. -/
def mappages (pagetable va size pa perm : Nat) : K n Bool := do
  if va % pgsize ≠ 0 then throw "mappages: va not aligned"
  if size % pgsize ≠ 0 then throw "mappages: size not aligned"
  if size = 0 then throw "mappages: size"
  mapFrom board pagetable (va + size - pgsize) perm (size / pgsize) va pa

def unmapFrom (pagetable : Nat) (doFree : Bool) : Nat → Nat → K n Unit
  | 0, _ => pure ()
  | m + 1, a => do
    match ← walk board pagetable a false with
    | none => throw "uvmunmap: walk"
    | some (table, i) =>
      let pte ← readPte table i
      if pte &&& pteV = 0 then throw "uvmunmap: not mapped"
      if pteFlags pte = pteV then throw "uvmunmap: not a leaf"
      if doFree then kfree board (pte2pa pte)
      writePte table i 0
      unmapFrom pagetable doFree m (a + pgsize)

def uvmunmap (pagetable va npages : Nat) (doFree : Bool) : K n Unit := do
  if va % pgsize ≠ 0 then throw "uvmunmap: not aligned"
  unmapFrom board pagetable doFree npages va

def uvmcreate : K n Nat := do
  let pagetable ← kalloc board
  if pagetable = 0 then return 0
  else
    memset pagetable 0
    return pagetable

/-- A store through the null pointer that `kalloc` may return is a fault. -/
def uvmfirst (pagetable : Nat) (src : List UInt8) : K n Unit := do
  if pgsize ≤ src.length then throw "uvmfirst: more than a page"
  let mem ← kalloc board
  if mem = 0 then throw "kerneltrap"
  memset mem 0
  let _ ← mappages board pagetable 0 pgsize mem (pteW ||| pteR ||| pteX ||| pteU)
  modify fun s => s.store mem (pokeBytes (s.mem mem) 0 src)

def uvmdealloc (pagetable oldsz newsz : Nat) : K n Nat := do
  if oldsz ≤ newsz then return oldsz
  else
    if pgRoundUp newsz < pgRoundUp oldsz then
      uvmunmap board pagetable (pgRoundUp newsz) ((pgRoundUp oldsz - pgRoundUp newsz) / pgsize) true
    return newsz

def allocFrom (pagetable oldsz newsz xperm : Nat) : Nat → Nat → K n Nat
  | 0, _ => return newsz
  | fuel + 1, a =>
    if a < newsz then do
      let mem ← kalloc board
      if mem = 0 then
        let _ ← uvmdealloc board pagetable a oldsz
        return 0
      else
        memset mem 0
        let mapped ← mappages board pagetable a pgsize mem (pteR ||| pteU ||| xperm)
        if mapped then allocFrom pagetable oldsz newsz xperm fuel (a + pgsize)
        else
          kfree board mem
          let _ ← uvmdealloc board pagetable a oldsz
          return 0
    else return newsz

def uvmalloc (pagetable oldsz newsz xperm : Nat) : K n Nat :=
  if newsz < oldsz then return oldsz
  else
    let start := pgRoundUp oldsz
    allocFrom board pagetable start newsz xperm ((newsz - start) / pgsize + 1) start

def freeEntries (child : Nat → K n Unit) (pagetable : Nat) : Nat → Nat → K n Unit
  | 0, _ => pure ()
  | m + 1, i => do
    let pte ← readPte pagetable i
    if pte &&& pteV ≠ 0 ∧ pte &&& (pteR ||| pteW ||| pteX) = 0 then
      child (pte2pa pte)
      writePte pagetable i 0
    else if pte &&& pteV ≠ 0 then throw "freewalk: leaf"
    freeEntries child pagetable m (i + 1)

def freewalk : Nat → Nat → K n Unit
  | 0, _ => throw "freewalk: depth"
  | depth + 1, pagetable => do
    freeEntries (freewalk depth) pagetable 512 0
    kfree board pagetable

def uvmfree (pagetable sz : Nat) : K n Unit := do
  if 0 < sz then uvmunmap board pagetable 0 (pgRoundUp sz / pgsize) true
  freewalk board 3 pagetable

def copyFrom (old new sz : Nat) : Nat → Nat → K n Bool
  | 0, _ => return true
  | fuel + 1, i =>
    if i < sz then do
      match ← walk board old i false with
      | none => throw "uvmcopy: pte should exist"
      | some (table, index) =>
        let pte ← readPte table index
        if pte &&& pteV = 0 then throw "uvmcopy: page not present"
        let mem ← kalloc board
        if mem = 0 then
          uvmunmap board new 0 (i / pgsize) true
          return false
        else
          modify fun s => s.store mem (s.mem (pte2pa pte))
          let mapped ← mappages board new i pgsize mem (pteFlags pte)
          if mapped then copyFrom old new sz fuel (i + pgsize)
          else
            kfree board mem
            uvmunmap board new 0 (i / pgsize) true
            return false
    else return true

def uvmcopy (old new sz : Nat) : K n Bool :=
  copyFrom board old new sz (sz / pgsize + 1) 0

def uvmclear (pagetable va : Nat) : K n Unit := do
  match ← walk board pagetable va false with
  | none => throw "uvmclear"
  | some (table, i) =>
    let pte ← readPte table i
    writePte table i (pte - (pte &&& pteU))

end

end Xv6.VmMachine
