import Xv6.FsCalls

/-! The open file table of `kernel/file.c`, the ends of `kernel/pipe.c`, and the calls that move
references to files: `open`, `pipe`, `dup`, `close`, `fork` and `exit`. A step is a complete call
by one process. Of the file system only the counts of references to in-memory inodes are kept;
what a path lookup finds, the page that `kalloc` returns and whether the copies to the caller
succeed are part of the step. -/

namespace Xv6.FdMachine

open FsMachine (FType)
open FsCalls (nfile nofile ndev oRdonly oWronly oRdwr oCreate)

inductive FdType
  | none
  | pipe
  | inode
  | device
  deriving DecidableEq, Repr

structure File (I P : Type) where
  type : FdType
  ref : Nat
  readable : Bool
  writable : Bool
  pipe : Option P
  ip : Option I
  off : Nat
  major : Int16

structure Pipe where
  readopen : Bool
  writeopen : Bool
  deriving DecidableEq, Repr

structure Proc (I : Type) where
  live : Bool
  cwd : Option I
  ofile : Fin nofile → Option (Fin nfile)

/-- `page` has the pages that hold a pipe. No function reads `allocs` and `frees`,
which count the calls of `kalloc` and `kfree` for each page. -/
structure State (n : Nat) (I P : Type) where
  ftable : Fin nfile → File I P
  proc : Fin n → Proc I
  iref : I → Nat
  page : P → Option Pipe
  allocs : P → Nat
  frees : P → Nat

abbrev M (n : Nat) (I P : Type) := StateT (State n I P) (Except String)

variable {n : Nat} {I P : Type} [DecidableEq I] [DecidableEq P]

def putFile (s : State n I P) (f : Fin nfile) (file : File I P) : State n I P :=
  { s with ftable := Function.update s.ftable f file }

def putProc (s : State n I P) (p : Fin n) (proc : Proc I) : State n I P :=
  { s with proc := Function.update s.proc p proc }

def putOfile (s : State n I P) (p : Fin n) (fd : Fin nofile) (f : Option (Fin nfile)) :
    State n I P :=
  putProc s p { s.proc p with ofile := Function.update (s.proc p).ofile fd f }

def putIref (s : State n I P) (i : I) (ref : Nat) : State n I P :=
  { s with iref := Function.update s.iref i ref }

def filealloc : M n I P (Option (Fin nfile)) := do
  let s ← get
  match (List.finRange nfile).find? fun f => (s.ftable f).ref = 0 with
  | none => return none
  | some f =>
    set (putFile s f { s.ftable f with ref := 1 })
    return some f

def filedup (f : Fin nfile) : M n I P Unit := do
  let s ← get
  if (s.ftable f).ref < 1 then throw "filedup"
  else set (putFile s f { s.ftable f with ref := (s.ftable f).ref + 1 })

def iput (i : I) : M n I P Unit :=
  modify fun s => putIref s i (s.iref i - 1)

def idup (i : I) : M n I P Unit :=
  modify fun s => putIref s i (s.iref i + 1)

def kfree (x : P) : M n I P Unit :=
  modify fun s => { s with
    page := Function.update s.page x none
    frees := Function.update s.frees x (s.frees x + 1) }

def closeEnd (pi : Pipe) (writable : Bool) : Pipe :=
  if writable then { pi with writeopen := false } else { pi with readopen := false }

/-- A page that no longer holds the pipe has no defined behaviour in the source. -/
def pipeclose (x : P) (writable : Bool) : M n I P Unit := do
  let s ← get
  match s.page x with
  | none => throw "pipeclose: freed page"
  | some pi =>
    set { s with page := Function.update s.page x (some (closeEnd pi writable)) }
    if (closeEnd pi writable).readopen = false ∧ (closeEnd pi writable).writeopen = false then
      kfree x
    else pure ()

def fileclose (f : Fin nfile) : M n I P Unit := do
  let s ← get
  let ff := s.ftable f
  if ff.ref < 1 then throw "fileclose"
  else if 0 < ff.ref - 1 then set (putFile s f { ff with ref := ff.ref - 1 })
  else
    set (putFile s f { ff with ref := 0, type := .none })
    match ff.type with
    | .none => pure ()
    | .pipe =>
      match ff.pipe with
      | none => throw "fileclose: null pipe"
      | some x => pipeclose x ff.writable
    | .inode | .device =>
      match ff.ip with
      | none => throw "fileclose: null inode"
      | some i => iput i

/-- The label `bad` of `pipealloc`. There the page was not allocated at any jump. -/
def pipeBad (f0 f1 : Option (Fin nfile)) : M n I P (Option (Fin nfile × Fin nfile)) := do
  (match f0 with
  | none => pure ()
  | some f0 => fileclose f0)
  (match f1 with
  | none => pure ()
  | some f1 => fileclose f1)
  return none

/-- The state once `kalloc` returned `x` and the pipe in it is initialised. -/
def putPipe (s : State n I P) (x : P) : State n I P :=
  { s with
    page := Function.update s.page x (some ⟨true, true⟩)
    allocs := Function.update s.allocs x (s.allocs x + 1) }

def readEnd (file : File I P) (x : P) : File I P :=
  { file with type := .pipe, readable := true, writable := false, pipe := some x }

def writeEnd (file : File I P) (x : P) : File I P :=
  { file with type := .pipe, readable := false, writable := true, pipe := some x }

/-- The page that `kalloc` returns is `page`. -/
def pipealloc (page : Option P) : M n I P (Option (Fin nfile × Fin nfile)) := do
  match ← filealloc with
  | none => pipeBad none none
  | some f0 =>
    match ← filealloc with
    | none => pipeBad (some f0) none
    | some f1 =>
      match page with
      | none => pipeBad (some f0) (some f1)
      | some x =>
        modify fun s => putPipe s x
        modify fun s => putFile s f0 (readEnd (s.ftable f0) x)
        modify fun s => putFile s f1 (writeEnd (s.ftable f1) x)
        return some (f0, f1)

def fdalloc (p : Fin n) (f : Fin nfile) : M n I P (Option (Fin nofile)) := do
  let s ← get
  match (List.finRange nofile).find? fun fd => (s.proc p).ofile fd = none with
  | none => return none
  | some fd =>
    set (putOfile s p fd (some f))
    return some fd

lemma toNat_lt {fd : Int} (h : 0 ≤ fd ∧ fd < nofile) : fd.toNat < nofile := by omega

def argfd (p : Fin n) (fd : Int) : M n I P (Option (Fin nofile × Fin nfile)) := do
  let s ← get
  if h : 0 ≤ fd ∧ fd < nofile then
    let slot : Fin nofile := ⟨fd.toNat, toNat_lt h⟩
    return ((s.proc p).ofile slot).map fun f => (slot, f)
  else return none

def sysDup (p : Fin n) (fd : Int) : M n I P Int := do
  match ← argfd p fd with
  | none => return -1
  | some (_, f) =>
    match ← fdalloc p f with
    | none => return -1
    | some fd =>
      filedup f
      return fd.val

def sysClose (p : Fin n) (fd : Int) : M n I P Int := do
  match ← argfd p fd with
  | none => return -1
  | some (fd, f) =>
    modify fun s => putOfile s p fd none
    fileclose f
    return 0

structure Found (I : Type) where
  ip : I
  type : FType
  major : Int16

def opening (file : File I P) (ip : Found I) (omode : Nat) : File I P :=
  { file with
    type := if ip.type = .device then .device else .inode
    major := if ip.type = .device then ip.major else file.major
    off := if ip.type = .device then file.off else 0
    ip := some ip.ip
    readable := omode &&& oWronly = 0
    writable := omode &&& oWronly ≠ 0 ∨ omode &&& oRdwr ≠ 0 }

def openFound (p : Fin n) (omode : Nat) (ip : Found I) : M n I P Int := do
  idup ip.ip
  if omode &&& oCreate = 0 ∧ ip.type = .dir ∧ omode ≠ oRdonly then
    iput ip.ip
    return -1
  else if ip.type = .device ∧ (ip.major < 0 ∨ ndev ≤ ip.major) then
    iput ip.ip
    return -1
  else
    match ← filealloc with
    | none =>
      iput ip.ip
      return -1
    | some f =>
      match ← fdalloc p f with
      | none =>
        fileclose f
        iput ip.ip
        return -1
      | some fd =>
        modify fun s => putFile s f (opening (s.ftable f) ip omode)
        return fd.val

def sysOpen (p : Fin n) (omode : Nat) (found : Option (Found I)) : M n I P Int :=
  match found with
  | none => return -1
  | some ip => openFound p omode ip

def sysPipe (p : Fin n) (page : Option P) (copied : Bool) : M n I P Int := do
  match ← pipealloc page with
  | none => return -1
  | some (rf, wf) =>
    match ← fdalloc p rf with
    | none =>
      fileclose rf
      fileclose wf
      return -1
    | some fd0 =>
      match ← fdalloc p wf with
      | none =>
        modify fun s => putOfile s p fd0 none
        fileclose rf
        fileclose wf
        return -1
      | some fd1 =>
        if copied then return 0
        else
          modify fun s => putOfile s p fd0 none
          modify fun s => putOfile s p fd1 none
          fileclose rf
          fileclose wf
          return -1

def dupFiles (p np : Fin n) : List (Fin nofile) → M n I P Unit
  | [] => pure ()
  | fd :: fds => do
    let s ← get
    (match (s.proc p).ofile fd with
    | none => pure ()
    | some f => do
      filedup f
      modify fun s => putOfile s np fd (some f))
    dupFiles p np fds

/-- `fork` into the slot that `allocproc` found; there is none if `allocproc` or
`uvmcopy` fails. A successful call returns a pid, which is left out. -/
def fork (p : Fin n) (child : Option (Fin n)) : M n I P Int := do
  match child with
  | none => return -1
  | some np =>
    dupFiles p np (List.finRange nofile)
    let s ← get
    (match (s.proc p).cwd with
    | none => throw "idup: null inode"
    | some i => idup i)
    modify fun s => putProc s np { s.proc np with live := true, cwd := (s.proc p).cwd }
    return 0

def closeFiles (p : Fin n) : List (Fin nofile) → M n I P Unit
  | [] => pure ()
  | fd :: fds => do
    let s ← get
    (match (s.proc p).ofile fd with
    | none => pure ()
    | some f => do
      fileclose f
      modify fun s => putOfile s p fd none)
    closeFiles p fds

def exit (p : Fin n) : M n I P Int := do
  closeFiles p (List.finRange nofile)
  let s ← get
  (match (s.proc p).cwd with
  | none => throw "iput: null inode"
  | some i => iput i)
  modify fun s => putProc s p { s.proc p with live := false, cwd := none }
  return 0

inductive Act (n : Nat) (I P : Type)
  | sysOpen (p : Fin n) (omode : Nat) (found : Option (Found I))
  | sysPipe (p : Fin n) (page : Option P) (copied : Bool)
  | sysDup (p : Fin n) (fd : Int)
  | sysClose (p : Fin n) (fd : Int)
  | fork (p : Fin n) (child : Option (Fin n))
  | exit (p : Fin n)

def Act.proc : Act n I P → Fin n
  | .sysOpen p _ _ | .sysPipe p _ _ | .sysDup p _ | .sysClose p _ | .fork p _ | .exit p => p

def perform : Act n I P → M n I P Int
  | .sysOpen p omode found => sysOpen p omode found
  | .sysPipe p page copied => sysPipe p page copied
  | .sysDup p fd => sysDup p fd
  | .sysClose p fd => sysClose p fd
  | .fork p child => fork p child
  | .exit p => exit p

/-- A call is made by a live process. `allocproc` finds a slot that is not in use, and
`kalloc` returns a free page. -/
def Enabled (s : State n I P) (a : Act n I P) : Prop :=
  (s.proc a.proc).live = true ∧
    match a with
    | .fork _ (some np) => (s.proc np).live = false
    | .sysPipe _ (some x) _ => s.page x = none
    | _ => True

instance (s : State n I P) (a : Act n I P) : Decidable (Enabled s a) := by
  unfold Enabled
  split <;> infer_instance

def next (s : State n I P) (a : Act n I P) : Option (State n I P) :=
  if Enabled s a then
    match perform a s with
    | .ok (_, t) => some t
    | .error _ => none
  else none

def Step (s : State n I P) (a : Act n I P) (t : State n I P) : Prop :=
  next s a = some t

/-- The first process, in the directory `root` and without files. -/
def start (first : Fin n) (root : I) : State n I P where
  ftable _ := ⟨.none, 0, false, false, none, none, 0, 0⟩
  proc p := if p = first then ⟨true, some root, fun _ => none⟩ else ⟨false, none, fun _ => none⟩
  iref i := if i = root then 1 else 0
  page _ := none
  allocs _ := 0
  frees _ := 0

end Xv6.FdMachine
