import Xv6.VmMachine

/-! The parts of `kernel/proc.c`, `kernel/exec.c`, `kernel/sysfile.c` and `kernel/syscall.c` that
allocate, copy and free user memory; a step is a complete system call. Files are given by their
contents, and `exec` brings the file system it sees with it. -/

namespace Xv6.VmProc

open ByteFields Params ProcMachine VmMachine

variable {n : Nat}

section
variable (board : Board)

def copyoutFrom (pagetable : Nat) : Nat → Nat → List UInt8 → K n Bool
  | 0, _, _ => return true
  | fuel + 1, dstva, src =>
    if src.isEmpty then return true
    else do
      let va0 := pgRoundDown dstva
      if maxVa ≤ va0 then return false
      else
        match ← walk board pagetable va0 false with
        | none => return false
        | some (table, i) =>
          let pte ← readPte table i
          if pte &&& pteV = 0 ∨ pte &&& pteU = 0 ∨ pte &&& pteW = 0 then return false
          else
            let count := pgsize - (dstva - va0)
            modify fun s => s.store (pte2pa pte)
              (pokeBytes (s.mem (pte2pa pte)) (dstva - va0) (src.take count))
            copyoutFrom pagetable fuel (va0 + pgsize) (src.drop count)

def copyout (pagetable dstva : Nat) (src : List UInt8) : K n Bool :=
  copyoutFrom board pagetable src.length dstva src

def copyinFrom (pagetable : Nat) : Nat → Nat → Nat → List UInt8 → K n (Option (List UInt8))
  | 0, _, _, dst => return some dst
  | fuel + 1, srcva, len, dst =>
    if len = 0 then return some dst
    else do
      let va0 := pgRoundDown srcva
      let pa0 ← walkaddr board pagetable va0
      if pa0 = 0 then return none
      else
        let count := min (pgsize - (srcva - va0)) len
        let s ← get
        copyinFrom pagetable fuel (va0 + pgsize) (len - count)
          (dst ++ peekBytes (s.mem pa0) (srcva - va0) count)

def copyin (pagetable srcva len : Nat) : K n (Option (List UInt8)) :=
  copyinFrom board pagetable len srcva len []

def copyinstrFrom (pagetable : Nat) : Nat → Nat → Nat → List UInt8 → K n (Option (List UInt8))
  | 0, _, _, _ => return none
  | fuel + 1, srcva, max, dst =>
    if max = 0 then return none
    else do
      let va0 := pgRoundDown srcva
      let pa0 ← walkaddr board pagetable va0
      if pa0 = 0 then return none
      else
        let count := min (pgsize - (srcva - va0)) max
        let s ← get
        let chunk := peekBytes (s.mem pa0) (srcva - va0) count
        let text := chunk.takeWhile (· ≠ 0)
        if text.length < chunk.length then return some (dst ++ text)
        else copyinstrFrom pagetable fuel (va0 + pgsize) (max - count) (dst ++ chunk)

def copyinstr (pagetable srcva max : Nat) : K n (Option (List UInt8)) :=
  copyinstrFrom board pagetable max srcva max []

def leNum : List UInt8 → Nat
  | [] => 0
  | c :: cs => c.toNat + 256 * leNum cs

def leAt (bytes : List UInt8) (off w : Nat) : Nat := leNum ((bytes.drop off).take w)

def fetchaddr (p : Fin n) (addr : Nat) : K n (Option Nat) := do
  let s ← get
  let sz := (s.proc p).sz
  if sz ≤ addr ∨ sz < addr + 8 then return none
  else
    let bytes ← copyin board (s.proc p).pagetable addr 8
    return bytes.map fun bytes => leAt bytes 0 8

def fetchstr (p : Fin n) (addr max : Nat) : K n (Option (List UInt8)) := do
  let s ← get
  copyinstr board (s.proc p).pagetable addr max

end

section
variable (board : Board)

def Kernel.setProc (s : Kernel n) (p : Fin n) (proc : VmMachine.Proc n) : Kernel n :=
  { s with proc := Function.update s.proc p proc }

def assign (p : Fin n) (f : VmMachine.Proc n → VmMachine.Proc n) : K n Unit :=
  modify fun s => Kernel.setProc s p (f (s.proc p))

def procPagetable (p : Fin n) : K n Nat := do
  let pagetable ← uvmcreate board
  if pagetable = 0 then return 0
  else
    let mapped ← mappages board pagetable trampolineVa pgsize board.trampoline (pteR ||| pteX)
    if mapped then
      let s ← get
      let mapped ← mappages board pagetable trapframeVa pgsize (s.proc p).trapframe (pteR ||| pteW)
      if mapped then return pagetable
      else
        uvmunmap board pagetable trampolineVa 1 false
        uvmfree board pagetable 0
        return 0
    else
      uvmfree board pagetable 0
      return 0

def procFreepagetable (pagetable sz : Nat) : K n Unit := do
  uvmunmap board pagetable trampolineVa 1 false
  uvmunmap board pagetable trapframeVa 1 false
  uvmfree board pagetable sz

def freeproc (p : Fin n) : K n Unit := do
  let s ← get
  (if (s.proc p).trapframe ≠ 0 then kfree board (s.proc p).trapframe else pure ())
  assign p fun proc => { proc with trapframe := 0 }
  let s ← get
  (if (s.proc p).pagetable ≠ 0 then procFreepagetable board (s.proc p).pagetable (s.proc p).sz
    else pure ())
  assign p fun proc => { proc with
    pagetable := 0, sz := 0, parent := none, name := [], xstate := 0, state := .unused }

def findUnused (s : Kernel n) : Option (Fin n) :=
  (List.finRange n).find? fun p => (s.proc p).state = .unused

def allocproc : K n (Option (Fin n)) := do
  let s ← get
  match findUnused s with
  | none => return none
  | some p =>
    assign p fun proc => { proc with state := .used }
    let trapframe ← kalloc board
    assign p fun proc => { proc with trapframe := trapframe }
    if trapframe = 0 then
      freeproc board p
      return none
    else
      let pagetable ← procPagetable board p
      assign p fun proc => { proc with pagetable := pagetable }
      if pagetable = 0 then
        freeproc board p
        return none
      else return some p

/-- Offsets of the registers `epc`, `sp`, `a0` and `a1` in `struct trapframe`,
and its size. -/
def tfEpc : Nat := 24
def tfSp : Nat := 48
def tfA0 : Nat := 112
def tfA1 : Nat := 120
def tfSize : Nat := 288

def setTrapframe (trapframe off value : Nat) : K n Unit :=
  modify fun s => s.store trapframe (setField (s.mem trapframe) off 8 value)

def fork (p : Fin n) : K n (Option (Fin n)) := do
  match ← allocproc board with
  | none => return none
  | some np =>
    let s ← get
    let copied ← uvmcopy board (s.proc p).pagetable (s.proc np).pagetable (s.proc p).sz
    if copied then
      assign np fun proc => { proc with sz := (s.proc p).sz }
      modify fun t => t.store (s.proc np).trapframe
        (pokeBytes (t.mem (s.proc np).trapframe) 0
          (peekBytes (t.mem (s.proc p).trapframe) 0 tfSize))
      setTrapframe (s.proc np).trapframe tfA0 0
      assign np fun proc => { proc with name := (s.proc p).name }
      assign np fun proc => { proc with parent := some p }
      assign np fun proc => { proc with state := .runnable }
      return some np
    else
      freeproc board np
      return none

def addSize (sz : Nat) (bytes : Int) : Nat := (((sz : Int) + bytes) % 2 ^ 64).toNat

/-- True for the source's 0 and false for -1. -/
def growproc (p : Fin n) (bytes : Int32) : K n Bool := do
  let s ← get
  let proc := s.proc p
  if 0 < bytes.toInt then
    let sz ← uvmalloc board proc.pagetable proc.sz (addSize proc.sz bytes.toInt) pteW
    if sz = 0 then return false
    else
      assign p fun proc => { proc with sz := sz }
      return true
  else if bytes.toInt < 0 then
    let sz ← uvmdealloc board proc.pagetable proc.sz (addSize proc.sz bytes.toInt)
    assign p fun proc => { proc with sz := sz }
    return true
  else return true

def exit (initproc p : Fin n) (status : Int32) : K n Unit := do
  if p = initproc then throw "init exiting"
  modify fun s => { s with proc := fun q =>
    if (s.proc q).parent = some p then { s.proc q with parent := some initproc } else s.proc q }
  assign p fun proc => { proc with xstate := status, state := .zombie }

def findZombie (s : Kernel n) (p : Fin n) : Option (Fin n) :=
  (List.finRange n).find? fun q => (s.proc q).parent = some p ∧ (s.proc q).state = .zombie

/-- Without a zombie child the source fails or sleeps, which changes nothing. -/
def wait (p : Fin n) (addr : Nat) : K n (Option (Fin n)) := do
  let s ← get
  match findZombie s p with
  | none => return none
  | some q =>
    let bits := (s.proc q).xstate.toUInt32.toNat
    let status := (List.range 4).map fun i => UInt8.ofNat (bits / 256 ^ i)
    let delivered ← if addr = 0 then pure true
      else copyout board (s.proc p).pagetable addr status
    if delivered then
      freeproc board q
      return some q
    else return none

end

section
variable (board : Board)

def elfMagic : Nat := 0x464C457F
def elfProgLoad : Nat := 1
def elfHeaderSize : Nat := 64
def progHeaderSize : Nat := 56
def maxArg : Nat := 32
def maxPath : Nat := 128
def userStack : Nat := 1

def readi (file : List UInt8) (off count : Nat) : List UInt8 :=
  if file.length < off ∨ (off + count) % 2 ^ 32 < off then [] else (file.drop off).take count

def flags2perm (flags : Nat) : Nat :=
  (if flags &&& 1 ≠ 0 then pteX else 0) ||| (if flags &&& 2 ≠ 0 then pteW else 0)

def loadsegFrom (file : List UInt8) (pagetable va offset sz : Nat) : Nat → Nat → K n Bool
  | 0, _ => return true
  | fuel + 1, i =>
    if i < sz then do
      let pa ← walkaddr board pagetable (va + i)
      if pa = 0 then throw "loadseg: address should exist"
      let count := min (sz - i) pgsize
      let data := readi file ((offset + i) % 2 ^ 32) count
      modify fun s => s.store pa (pokeBytes (s.mem pa) 0 data)
      if data.length = count then loadsegFrom file pagetable va offset sz fuel (i + pgsize)
      else return false
    else return true

def loadseg (file : List UInt8) (pagetable va offset sz : Nat) : K n Bool :=
  loadsegFrom board file pagetable va offset sz (sz / pgsize + 1) 0

/-- The loop over the program headers, `m` of them left. The result tells
whether all were loaded, and the size reached. -/
def loadSegments (file : List UInt8) (pagetable : Nat) : Nat → Nat → Nat → K n (Bool × Nat)
  | 0, _, sz => return (true, sz)
  | m + 1, off, sz => do
    let ph := readi file off progHeaderSize
    let next := (off + progHeaderSize) % 2 ^ 32
    let vaddr := leAt ph 16 8
    let filesz := leAt ph 32 8
    let memsz := leAt ph 40 8
    let top := (vaddr + memsz) % 2 ^ 64
    if ph.length ≠ progHeaderSize then return (false, sz)
    else if leAt ph 0 4 ≠ elfProgLoad then loadSegments file pagetable m next sz
    else if memsz < filesz then return (false, sz)
    else if top < vaddr then return (false, sz)
    else if vaddr % pgsize ≠ 0 then return (false, sz)
    else
      let sz1 ← uvmalloc board pagetable sz top (flags2perm (leAt ph 4 4))
      if sz1 = 0 then return (false, sz)
      else
        let loaded ← loadseg board file pagetable vaddr (leAt ph 8 8 % 2 ^ 32) (filesz % 2 ^ 32)
        if loaded then loadSegments file pagetable m next sz1
        else return (false, sz1)

def sub64 (a b : Nat) : Nat := (a + 2 ^ 64 - b % 2 ^ 64) % 2 ^ 64

def lowerSp (sp count : Nat) : Nat := sub64 sp count / 16 * 16

/-- Push the argument strings; the result is the stack pointer and the addresses
of the strings, first argument first. -/
def pushArgs (pagetable stackbase : Nat) :
    List (List UInt8) → Nat → List Nat → K n (Option (Nat × List Nat))
  | [], sp, ustack => return some (sp, ustack)
  | arg :: argv, sp, ustack =>
    if maxArg ≤ ustack.length then return none
    else do
      let sp := lowerSp sp (arg.length + 1)
      if sp < stackbase then return none
      else
        let copied ← copyout board pagetable sp (arg ++ [0])
        if copied then pushArgs pagetable stackbase argv sp (ustack ++ [sp])
        else return none

def wordBytes (words : List Nat) : List UInt8 :=
  words.flatMap fun w => (List.range 8).map fun i => UInt8.ofNat (w / 256 ^ i)

def pushStack (pagetable sz : Nat) (argv : List (List UInt8)) : K n (Option Nat) := do
  let stackbase := sub64 sz (userStack * pgsize)
  match ← pushArgs board pagetable stackbase argv sz [] with
  | none => return none
  | some (sp, ustack) =>
    let sp := lowerSp sp ((ustack.length + 1) * 8)
    if sp < stackbase then return none
    else
      let copied ← copyout board pagetable sp (wordBytes (ustack ++ [0]))
      return if copied then some sp else none

def lastName (path : List UInt8) : List UInt8 :=
  ((path.reverse.takeWhile (· ≠ 47)).reverse).take 15

def execBad (pagetable sz : Nat) : K n Int := do
  procFreepagetable board pagetable sz
  return -1

def execCommit (p : Fin n) (path : List UInt8) (argv : List (List UInt8)) (entry pagetable : Nat)
    (sz : Nat) : K n Int := do
  let s ← get
  let oldsz := (s.proc p).sz
  let trapframe := (s.proc p).trapframe
  let sz := pgRoundUp sz
  let sz1 ← uvmalloc board pagetable sz (sz + (userStack + 1) * pgsize) pteW
  if sz1 = 0 then execBad board pagetable sz
  else
    uvmclear board pagetable (sub64 sz1 ((userStack + 1) * pgsize))
    match ← pushStack board pagetable sz1 argv with
    | none => execBad board pagetable sz1
    | some sp =>
      setTrapframe trapframe tfA1 sp
      assign p fun proc => { proc with name := lastName path }
      let s ← get
      let oldpagetable := (s.proc p).pagetable
      assign p fun proc => { proc with pagetable := pagetable, sz := sz1 }
      setTrapframe trapframe tfEpc entry
      setTrapframe trapframe tfSp sp
      procFreepagetable board oldpagetable oldsz
      return argv.length

def exec (fs : List UInt8 → Option (List UInt8)) (p : Fin n) (path : List UInt8)
    (argv : List (List UInt8)) : K n Int := do
  match fs path with
  | none => return -1
  | some file =>
    let elf := readi file 0 elfHeaderSize
    if elf.length ≠ elfHeaderSize then return -1
    else if leAt elf 0 4 ≠ elfMagic then return -1
    else
      let pagetable ← procPagetable board p
      if pagetable = 0 then return -1
      else
        let (loaded, sz) ←
          loadSegments board file pagetable (leAt elf 56 2) (leAt elf 32 8 % 2 ^ 32) 0
        if loaded then execCommit board p path argv (leAt elf 24 8) pagetable sz
        else execBad board pagetable sz

/-- The loop of `sys_exec` that fetches the arguments into pages of their own;
the result tells whether all were fetched, and the pages taken. -/
def fetchArgs (p : Fin n) (uargv : Nat) :
    Nat → List Nat → List (List UInt8) → K n (Bool × List Nat × List (List UInt8))
  | 0, pages, argv => return (false, pages, argv)
  | m + 1, pages, argv => do
    match ← fetchaddr board p ((uargv + 8 * argv.length) % 2 ^ 64) with
    | none => return (false, pages, argv)
    | some uarg =>
      if uarg = 0 then return (true, pages, argv)
      else
        let page ← kalloc board
        if page = 0 then return (false, pages, argv)
        else
          match ← fetchstr board p uarg pgsize with
          | none => return (false, pages ++ [page], argv)
          | some arg =>
            modify fun s => s.store page (pokeBytes (s.mem page) 0 (arg ++ [0]))
            fetchArgs p uargv m (pages ++ [page]) (argv ++ [arg])

def freeArgs : List Nat → K n Unit
  | [] => pure ()
  | page :: pages => do
    kfree board page
    freeArgs pages

def sysExec (fs : List UInt8 → Option (List UInt8)) (p : Fin n) (upath uargv : Nat) :
    K n Int := do
  match ← fetchstr board p upath maxPath with
  | none => return -1
  | some path =>
    let (fetched, pages, argv) ← fetchArgs board p uargv maxArg [] []
    let ret ← if fetched then exec board fs p path argv else pure (-1)
    freeArgs board pages
    return ret

end

section
variable (board : Board)

/-- The kernel takes `m` pages for its own page table, the kernel stacks and the
disk driver. -/
def takePages : Nat → K n Unit
  | 0 => pure ()
  | m + 1 => do
    let page ← kalloc board
    if page = 0 then throw "panic: kalloc"
    modify fun s => { s with held := page :: s.held }
    takePages m

def userinit (initcode : List UInt8) : K n (Fin n) := do
  match ← allocproc board with
  | none => throw "kerneltrap"
  | some p =>
    let s ← get
    uvmfirst board (s.proc p).pagetable initcode
    assign p fun proc => { proc with sz := pgsize }
    setTrapframe (s.proc p).trapframe tfEpc 0
    setTrapframe (s.proc p).trapframe tfSp pgsize
    assign p fun proc => { proc with name := "initcode".toUTF8.toList }
    assign p fun proc => { proc with state := .runnable }
    return p

def reset (mem : Nat → Bytes pgsize) : Kernel n where
  mem := mem
  freelist := 0
  calls := 0
  proc _ :=
    { state := .unused, parent := none, xstate := 0, trapframe := 0, pagetable := 0, sz := 0,
      name := [] }
  held := []
  pipes := []

def bootKernel (m : Nat) (initcode : List UInt8) : K n (Fin n) := do
  kinit board
  takePages board m
  userinit board initcode

def pipealloc : K n Bool := do
  let page ← kalloc board
  if page = 0 then return false
  else
    modify fun s => { s with pipes := page :: s.pipes }
    return true

def pipefree (page : Nat) : K n Unit := do
  kfree board page
  modify fun s => { s with pipes := s.pipes.erase page }

/-- Complete system calls, and what user code and traps do to memory. -/
inductive Act (n : Nat)
  | fork (p : Fin n)
  | exec (p : Fin n) (fs : List UInt8 → Option (List UInt8)) (upath uargv : Nat)
  | sbrk (p : Fin n) (bytes : Int32)
  | exit (p : Fin n) (status : Int32)
  | wait (p : Fin n) (addr : Nat)
  | pipe
  | pipeClose (page : Nat)
  | store (p : Fin n) (va : Nat) (data : List UInt8)
  | trap (p : Fin n) (registers : List UInt8)

def Act.caller : Act n → Option (Fin n)
  | .fork p | .exec p _ _ _ | .sbrk p _ | .exit p _ | .wait p _ | .store p _ _ | .trap p _ => some p
  | .pipe | .pipeClose _ => none

def perform (initproc : Fin n) : Act n → K n Unit
  | .fork p => do let _ ← fork board p
  | .exec p fs upath uargv => do let _ ← sysExec board fs p upath uargv
  | .sbrk p bytes => do let _ ← growproc board p bytes
  | .exit p status => exit initproc p status
  | .wait p addr => do let _ ← wait board p addr
  | .pipe => do let _ ← pipealloc board
  | .pipeClose page => pipefree board page
  | .store p va data => do
    let s ← get
    let _ ← copyout board (s.proc p).pagetable va data
  | .trap p registers =>
    modify fun s => s.store (s.proc p).trapframe
      (pokeBytes (s.mem (s.proc p).trapframe) 0 (registers.take tfSize))

def Enabled (s : Kernel n) (a : Act n) : Prop :=
  (∀ p, a.caller = some p → (s.proc p).state = .runnable) ∧
  ∀ page, a = .pipeClose page → page ∈ s.pipes

def Step (initproc : Fin n) (s : Kernel n) (a : Act n) (t : Kernel n) : Prop :=
  Enabled s a ∧ perform board initproc a s = .ok ((), t)

/-- The kernel is up and `initproc` has its first page. `uvmfirst` does not look
at the result of `mappages`; without that page there is no first instruction. -/
def Booted (initproc : Fin n) (s : Kernel n) : Prop :=
  ∃ mem m initcode pa t, bootKernel board m initcode (reset mem) = .ok (initproc, s) ∧
    walkaddr board (s.proc initproc).pagetable 0 s = .ok (pa, t) ∧ pa ≠ 0

end

end Xv6.VmProc
