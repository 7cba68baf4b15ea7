import Xv6.FsMachine

/-! The open files of `kernel/file.c`, the file calls of `kernel/sysfile.c` and what `fork`, `exit`
and `exec` do to files. A step is a complete call by one process. Pipes are left out, and a
device's own routine is an answer that the caller brings. A path that cannot be fetched is `none`. -/

namespace Xv6.FsCalls

open Params FsMachine

def nfile : Nat := 100
def nofile : Nat := 16
def ndev : Int16 := 10

instance : NeZero nfile := ⟨by decide⟩
instance : NeZero nofile := ⟨by decide⟩

def oRdonly : Nat := 0x000
def oWronly : Nat := 0x001
def oRdwr : Nat := 0x002
def oCreate : Nat := 0x200
def oTrunc : Nat := 0x400

inductive FdType
  | none
  | inode
  | device
  deriving DecidableEq, Repr

structure File where
  type : FdType
  ref : Nat
  readable : Bool
  writable : Bool
  ip : Slot
  off : Nat
  major : Int16

structure Proc where
  live : Bool
  cwd : Slot
  ofile : Fin nofile → Option (Fin nfile)

structure State (n : Nat) where
  fs : Fs
  ftable : Fin nfile → File
  proc : Fin n → Proc

abbrev M (n : Nat) := StateT (State n) (Except String)

variable {n : Nat}

/-- Run a function of `fs.c`, which reaches neither open files nor processes. -/
def onFs {α : Type} (f : F α) : M n α := fun s =>
  match f s.fs with
  | .ok (a, fs) => .ok (a, { s with fs := fs })
  | .error e => .error e

section

def modFile (f : Fin nfile) (g : File → File) : M n Unit :=
  modify fun s => { s with ftable := Function.update s.ftable f (g (s.ftable f)) }

def modProc (p : Fin n) (g : Proc → Proc) : M n Unit :=
  modify fun s => { s with proc := Function.update s.proc p (g (s.proc p)) }

def setOfile (p : Fin n) (fd : Fin nofile) (f : Option (Fin nfile)) : M n Unit :=
  modProc p fun proc => { proc with ofile := Function.update proc.ofile fd f }

def filealloc : M n (Option (Fin nfile)) := do
  let s ← get
  match (List.finRange nfile).find? fun f => (s.ftable f).ref = 0 with
  | none => return none
  | some f =>
    modFile f fun file => { file with ref := 1 }
    return some f

def filedup (f : Fin nfile) : M n Unit := do
  let s ← get
  if (s.ftable f).ref < 1 then throw "filedup"
  else modFile f fun file => { file with ref := file.ref + 1 }

variable (sb : Super)

def fileclose (f : Fin nfile) : M n Unit := do
  let s ← get
  let ff := s.ftable f
  if ff.ref < 1 then throw "fileclose"
  else if 1 < ff.ref then modFile f fun file => { file with ref := file.ref - 1 }
  else
    modFile f fun file => { file with ref := 0, type := .none }
    if ff.type = .none then pure ()
    else onFs do
      beginOp
      iput sb ff.ip
      endOp

def filestat (f : Fin nfile) (ok : Bool) : M n Int := do
  let s ← get
  if (s.ftable f).type = .none then return -1
  else
    onFs do
      ilock (s.ftable f).ip
      iunlock (s.ftable f).ip
    return if ok then 0 else -1

/-- `int` as `uint`. -/
def uint (i : Int) : Nat := (i % 2 ^ 32).toNat

def fileread (f : Fin nfile) (dst : Nat → Bool) (count answer : Int) : M n (Int × List UInt8) := do
  let s ← get
  let file := s.ftable f
  if file.readable = false then return (-1, [])
  else
    match file.type with
    | .none => throw "fileread"
    | .device => return (if file.major < 0 ∨ ndev ≤ file.major then -1 else answer, [])
    | .inode =>
      onFs (ilock file.ip)
      let (r, bytes) ← onFs (readi sb file.ip dst file.off (uint count))
      (if 0 < r then modFile f fun file => { file with off := file.off + r.toNat } else pure ())
      onFs (iunlock file.ip)
      return (r, bytes)

def writeMax : Nat := (maxOpBlocks - 1 - 1 - 2) / 2 * bsize

/-- The body of the loop of `filewrite`: one operation that writes `n1` bytes. -/
def writeOp (f : Fin nfile) (src : Nat → Option UInt8) (n1 : Nat) : M n Int := do
  let s ← get
  let file := s.ftable f
  onFs do
    beginOp
    ilock file.ip
  let r ← onFs (writei sb file.ip src file.off n1)
  (if 0 < r then modFile f fun file => { file with off := file.off + r.toNat } else pure ())
  onFs do
    iunlock file.ip
    endOp
  return r

/-- The loop of `filewrite`; the result is how much was written by whole operations. -/
def writeChunks (f : Fin nfile) (src : Nat → Option UInt8) : Nat → Nat → Nat → M n Nat
  | 0, _, i => return i
  | fuel + 1, count, i =>
    if i < count then do
      let n1 := min (count - i) writeMax
      let r ← writeOp sb f (fun j => src (i + j)) n1
      if r = n1 then writeChunks f src fuel count (i + n1) else return i
    else return i

def filewrite (f : Fin nfile) (src : Nat → Option UInt8) (count answer : Int) : M n Int := do
  let s ← get
  let file := s.ftable f
  if file.writable = false then return -1
  else
    match file.type with
    | .none => throw "filewrite"
    | .device => return if file.major < 0 ∨ ndev ≤ file.major then -1 else answer
    | .inode =>
      let i ← writeChunks sb f src count.toNat count.toNat 0
      return if (i : Int) = count then count else -1

end

section
variable (sb : Super)

def fdalloc (p : Fin n) (f : Fin nfile) : M n (Option (Fin nofile)) := do
  let s ← get
  match (List.finRange nofile).find? fun fd => (s.proc p).ofile fd = none with
  | none => return none
  | some fd =>
    setOfile p fd (some f)
    return some fd

def cwdOf (p : Fin n) : M n Slot := do
  let s ← get
  return (s.proc p).cwd

def argfd (p : Fin n) (fd : Int) : M n (Option (Fin nofile × Fin nfile)) := do
  let s ← get
  if h : 0 ≤ fd ∧ fd < nofile then
    let slot : Fin nofile := ⟨fd.toNat, by omega⟩
    return ((s.proc p).ofile slot).map fun f => (slot, f)
  else return none

def sysDup (p : Fin n) (fd : Int) : M n Int := do
  match ← argfd p fd with
  | none => return -1
  | some (_, f) =>
    match ← fdalloc p f with
    | none => return -1
    | some fd =>
      filedup f
      return fd.val

def sysRead (p : Fin n) (fd : Int) (dst : Nat → Bool) (count answer : Int) : M n Int := do
  match ← argfd p fd with
  | none => return -1
  | some (_, f) => do
    let (r, _) ← fileread sb f dst count answer
    return r

def sysWrite (p : Fin n) (fd : Int) (src : Nat → Option UInt8) (count answer : Int) :
    M n Int := do
  match ← argfd p fd with
  | none => return -1
  | some (_, f) => filewrite sb f src count answer

def sysClose (p : Fin n) (fd : Int) : M n Int := do
  match ← argfd p fd with
  | none => return -1
  | some (fd, f) =>
    setOfile p fd none
    fileclose sb f
    return 0

def sysFstat (p : Fin n) (fd : Int) (ok : Bool) : M n Int := do
  match ← argfd p fd with
  | none => return -1
  | some (_, f) => filestat f ok

def linkBad (ip : Slot) : F Int := do
  ilock ip
  modCopy ip fun d => { d with nlink := d.nlink - 1 }
  iupdate sb ip
  iunlockput sb ip
  return -1

def link (cwd : Slot) (old new : Path) : F Int := do
  match ← namei sb cwd old with
  | none => return -1
  | some ip =>
    ilock ip
    let s ← get
    if (s.itable ip).copy.type = .dir then
      iunlockput sb ip
      return -1
    else
      modCopy ip fun d => { d with nlink := d.nlink + 1 }
      iupdate sb ip
      iunlock ip
      match ← nameiparent sb cwd new with
      | none => linkBad sb ip
      | some (dp, name) =>
        ilock dp
        if ← dirlink sb dp name (s.itable ip).inum then
          iunlockput sb dp
          iput sb ip
          return 0
        else
          iunlockput sb dp
          linkBad sb ip

def isdirempty (k : Slot) : Nat → Nat → F Bool
  | 0, _ => return true
  | fuel + 1, off => do
    let s ← get
    if off < (s.itable k).copy.size then
      match ← readDirent sb k off with
      | none => throw "isdirempty: readi"
      | some de => if de.inum ≠ 0 then return false else isdirempty k fuel (off + direntSize)
    else return true

/-- `sys_unlink` once the entry at `off` in `dp` is found to name `ip`. -/
def unlinkAt (dp ip : Slot) (off : Nat) : F Int := do
  ilock ip
  let s ← get
  let d := (s.itable ip).copy
  if d.nlink < 1 then throw "unlink: nlink < 1"
  else
    let empty ← if d.type = .dir then isdirempty sb ip (d.size + 1) (2 * direntSize) else pure true
    if empty then
      let r ← writei sb dp (kernelSrc (List.replicate direntSize 0)) off direntSize
      if r ≠ direntSize then throw "unlink: writei"
      else
        (if d.type = .dir then do
          modCopy dp fun d => { d with nlink := d.nlink - 1 }
          iupdate sb dp
        else pure ())
        iunlockput sb dp
        modCopy ip fun d => { d with nlink := d.nlink - 1 }
        iupdate sb ip
        iunlockput sb ip
        return 0
    else
      iunlockput sb ip
      iunlockput sb dp
      return -1

def unlink (cwd : Slot) (path : Path) : F Int := do
  match ← nameiparent sb cwd path with
  | none => return -1
  | some (dp, name) =>
    ilock dp
    if namecmp name dot = 0 ∨ namecmp name dotdot = 0 then
      iunlockput sb dp
      return -1
    else
      match ← dirlookup sb dp name with
      | none =>
        iunlockput sb dp
        return -1
      | some (off, ip) => unlinkAt sb dp ip off

/-- The entries that `create` makes: those of a new directory, then the name in `dp`. -/
def createEntries (dp ip : Slot) (name : List UInt8) (type : FType) : F Bool := do
  let s ← get
  let inum := (s.itable ip).inum
  let made ← if type = .dir then do
    if ← dirlink sb ip dot inum then dirlink sb ip dotdot (s.itable dp).inum
    else pure false
    else pure true
  if made then dirlink sb dp name inum else return false

def createNew (dp : Slot) (name : List UInt8) (type : FType) (major minor : Int16) :
    F (Option Slot) := do
  match ← ialloc sb type with
  | none =>
    iunlockput sb dp
    return none
  | some ip =>
    ilock ip
    modCopy ip fun d => { d with major := major, minor := minor, nlink := 1 }
    iupdate sb ip
    if ← createEntries sb dp ip name type then
      (if type = .dir then do
        modCopy dp fun d => { d with nlink := d.nlink + 1 }
        iupdate sb dp
      else pure ())
      iunlockput sb dp
      return some ip
    else
      modCopy ip fun d => { d with nlink := 0 }
      iupdate sb ip
      iunlockput sb ip
      iunlockput sb dp
      return none

def create (cwd : Slot) (path : Path) (type : FType) (major minor : Int16) :
    F (Option Slot) := do
  match ← nameiparent sb cwd path with
  | none => return none
  | some (dp, name) =>
    ilock dp
    match ← dirlookup sb dp name with
    | some (_, ip) =>
      iunlockput sb dp
      ilock ip
      let s ← get
      let d := (s.itable ip).copy
      if type = .file ∧ (d.type = .file ∨ d.type = .device) then return some ip
      else
        iunlockput sb ip
        return none
    | none => createNew sb dp name type major minor

def openInode (cwd : Slot) (path : Path) (omode : Nat) : F (Option Slot) :=
  if omode &&& oCreate ≠ 0 then create sb cwd path .file 0 0
  else do
    match ← namei sb cwd path with
    | none => return none
    | some ip =>
      ilock ip
      let s ← get
      if (s.itable ip).copy.type = .dir ∧ omode ≠ oRdonly then
        iunlockput sb ip
        return none
      else return some ip

def openFile (p : Fin n) (ip : Slot) (omode : Nat) : M n Int := do
  let s ← get
  let d := (s.fs.itable ip).copy
  if d.type = .device ∧ (d.major < 0 ∨ ndev ≤ d.major) then
    onFs (iunlockput sb ip)
    return -1
  else
    match ← filealloc with
    | none =>
      onFs (iunlockput sb ip)
      return -1
    | some f =>
      match ← fdalloc p f with
      | none =>
        fileclose sb f
        onFs (iunlockput sb ip)
        return -1
      | some fd =>
        modFile f fun file => { file with
          type := if d.type = .device then .device else .inode
          major := if d.type = .device then d.major else file.major
          off := if d.type = .device then file.off else 0
          ip := ip
          readable := omode &&& oWronly = 0
          writable := omode &&& oWronly ≠ 0 ∨ omode &&& oRdwr ≠ 0 }
        onFs do
          (if omode &&& oTrunc ≠ 0 ∧ d.type = .file then itrunc sb ip else pure ())
          iunlock ip
        return fd.val

def sysOpen (p : Fin n) (path : Option Path) (omode : Nat) : M n Int := do
  match path with
  | none => return -1
  | some path =>
    onFs beginOp
    let cwd ← cwdOf p
    let r ← match ← onFs (openInode sb cwd path omode) with
      | none => pure (-1)
      | some ip => openFile sb p ip omode
    onFs endOp
    return r

def sysMake (p : Fin n) (path : Option Path) (type : FType) (major minor : Int16) :
    M n Int := do
  let cwd ← cwdOf p
  onFs do
    beginOp
    let r ← match path with
      | none => pure (-1)
      | some path =>
        match ← create sb cwd path type major minor with
        | none => pure (-1)
        | some ip =>
          iunlockput sb ip
          pure 0
    endOp
    return r

def sysMkdir (p : Fin n) (path : Option Path) : M n Int := sysMake sb p path .dir 0 0

def sysMknod (p : Fin n) (path : Option Path) (major minor : Int16) : M n Int :=
  sysMake sb p path .device major minor

def sysLink (p : Fin n) (old new : Option Path) : M n Int := do
  match old, new with
  | some old, some new =>
    let cwd ← cwdOf p
    onFs do
      beginOp
      let r ← link sb cwd old new
      endOp
      return r
  | _, _ => return -1

def sysUnlink (p : Fin n) (path : Option Path) : M n Int := do
  match path with
  | none => return -1
  | some path =>
    let cwd ← cwdOf p
    onFs do
      beginOp
      let r ← unlink sb cwd path
      endOp
      return r

def chdirInode (cwd : Slot) (path : Path) : F (Option Slot) := do
  match ← namei sb cwd path with
  | none => return none
  | some ip =>
    ilock ip
    let s ← get
    if (s.itable ip).copy.type ≠ .dir then
      iunlockput sb ip
      return none
    else
      iunlock ip
      iput sb cwd
      return some ip

def sysChdir (p : Fin n) (path : Option Path) : M n Int := do
  let cwd ← cwdOf p
  let r ← onFs do
    beginOp
    let r ← match path with
      | none => pure none
      | some path => chdirInode sb cwd path
    endOp
    return r
  match r with
  | none => return -1
  | some ip =>
    modProc p fun proc => { proc with cwd := ip }
    return 0

def readAll (k : Slot) : List (Nat × Nat) → F Unit
  | [] => pure ()
  | (off, count) :: reads => do
    let _ ← readi sb k (fun _ => true) off count
    readAll k reads

def execFile (p : Fin n) (path : Path) (reads : List (Nat × Nat)) : M n Unit := do
  let cwd ← cwdOf p
  onFs do
    beginOp
    match ← namei sb cwd path with
    | none => pure ()
    | some ip =>
      ilock ip
      readAll sb ip reads
      iunlockput sb ip
    endOp

end

section
variable (sb : Super)

def dupFiles (p np : Fin n) : List (Fin nofile) → M n Unit
  | [] => pure ()
  | fd :: fds => do
    let s ← get
    (match (s.proc p).ofile fd with
    | none => pure ()
    | some f => do
      filedup f
      setOfile np fd (some f))
    dupFiles p np fds

/-- The part of `fork` that concerns files; `np` is the slot `allocproc` found. -/
def fork (p np : Fin n) : M n Unit := do
  dupFiles p np (List.finRange nofile)
  let s ← get
  onFs (idup (s.proc p).cwd)
  modProc np fun proc => { proc with live := true, cwd := (s.proc p).cwd }

def closeFiles (p : Fin n) : List (Fin nofile) → M n Unit
  | [] => pure ()
  | fd :: fds => do
    let s ← get
    (match (s.proc p).ofile fd with
    | none => pure ()
    | some f => do
      fileclose sb f
      setOfile p fd none)
    closeFiles p fds

def exit (p : Fin n) : M n Unit := do
  closeFiles sb p (List.finRange nofile)
  let s ← get
  onFs do
    beginOp
    iput sb (s.proc p).cwd
    endOp
  modProc p fun proc => { proc with live := false }

end

section

inductive Act (n : Nat)
  | open (p : Fin n) (path : Option Path) (omode : Nat)
  | mkdir (p : Fin n) (path : Option Path)
  | mknod (p : Fin n) (path : Option Path) (major minor : Int16)
  | link (p : Fin n) (old new : Option Path)
  | unlink (p : Fin n) (path : Option Path)
  | chdir (p : Fin n) (path : Option Path)
  | close (p : Fin n) (fd : Int)
  | dup (p : Fin n) (fd : Int)
  | read (p : Fin n) (fd : Int) (dst : Nat → Bool) (count answer : Int)
  | write (p : Fin n) (fd : Int) (src : Nat → Option UInt8) (count answer : Int)
  | fstat (p : Fin n) (fd : Int) (ok : Bool)
  | exec (p : Fin n) (path : Path) (reads : List (Nat × Nat))
  | fork (p np : Fin n)
  | exit (p : Fin n)

def Act.caller : Act n → Fin n
  | .open p .. | .mkdir p .. | .mknod p .. | .link p .. | .unlink p .. | .chdir p ..
  | .close p .. | .dup p .. | .read p .. | .write p .. | .fstat p .. | .exec p ..
  | .fork p .. | .exit p => p

variable (sb : Super)

def perform : Act n → M n Int
  | .open p path omode => sysOpen sb p path omode
  | .mkdir p path => sysMkdir sb p path
  | .mknod p path major minor => sysMknod sb p path major minor
  | .link p old new => sysLink sb p old new
  | .unlink p path => sysUnlink sb p path
  | .chdir p path => sysChdir sb p path
  | .close p fd => sysClose sb p fd
  | .dup p fd => sysDup p fd
  | .read p fd dst count answer => sysRead sb p fd dst count answer
  | .write p fd src count answer => sysWrite sb p fd src count answer
  | .fstat p fd ok => sysFstat p fd ok
  | .exec p path reads => do
    execFile sb p path reads
    return 0
  | .fork p np => do
    fork p np
    return 0
  | .exit p => do
    exit sb p
    return 0

/-- Only a live process calls, and a new process takes a free slot. -/
def Enabled (s : State n) (a : Act n) : Prop :=
  (s.proc a.caller).live ∧
    match a with
    | .fork _ np => (s.proc np).live = false
    | _ => True

instance (s : State n) (a : Act n) : Decidable (Enabled s a) := by
  unfold Enabled
  cases a <;> infer_instance

def next (s : State n) (a : Act n) : Option (State n) :=
  if Enabled s a then
    match perform sb a s with
    | .ok (_, t) => some t
    | .error _ => none
  else none

def Step (s : State n) (a : Act n) (t : State n) : Prop := next sb s a = some t

end

end Xv6.FsCalls
