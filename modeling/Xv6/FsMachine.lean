import Mathlib.Data.Fintype.Basic
import Xv6.ByteFields
import Xv6.CString
import Xv6.Params

/-! The file system of `kernel/fs.c`: block allocator, inodes and their in-memory table, file
contents, directories, path names. The disk is seen through the buffer cache: a block has one
current value. Inode blocks and the free map are kept as records and bits, data and indirect
blocks as bytes. A panic, and a wait for a lock that the caller holds itself, is an error of the
monad. -/

namespace Xv6.FsMachine

open ByteFields CString Params

def ndirect : Nat := 12
def nindirect : Nat := bsize / 4
def maxfile : Nat := ndirect + nindirect
def rootIno : Nat := 1
def ninode : Nat := 50
def dirsiz : Nat := 14
def direntSize : Nat := 2 + dirsiz

/-- `IPB`: inodes per block. -/
def ipb : Nat := bsize / 64

/-- `BPB`: bits per block of the free map. -/
def bpb : Nat := bsize * 8

instance : NeZero ninode := ⟨by decide⟩

structure Super where
  size : Nat
  nblocks : Nat
  ninodes : Nat
  inodestart : Nat
  bmapstart : Nat
  nblocks_lt : nblocks < size
  size_lt : size < 2 ^ 32
  ninodes_le : ninodes ≤ 2 ^ 16

/-- The blocks before the data blocks: boot block, super block, log, inodes, free map. -/
def Super.nmeta (sb : Super) : Nat := sb.size - sb.nblocks

def Super.IsData (sb : Super) (b : Nat) : Prop := sb.nmeta ≤ b ∧ b < sb.size

inductive FType
  | free
  | dir
  | file
  | device
  deriving DecidableEq, Repr

structure Dinode where
  type : FType
  major : Int16
  minor : Int16
  nlink : Int16
  size : Nat
  addrs : Fin (ndirect + 1) → Nat

/-- `memset(dip, 0, sizeof(*dip))`. -/
def Dinode.zero : Dinode := ⟨.free, 0, 0, 0, 0, fun _ => 0⟩

def Dinode.setAddr (d : Dinode) (a : Fin (ndirect + 1)) (addr : Nat) : Dinode :=
  { d with addrs := Function.update d.addrs a addr }

abbrev Slot := Fin ninode

structure Inode where
  inum : Nat
  ref : Nat
  lock : Bool
  valid : Bool
  copy : Dinode

structure Dirent where
  inum : Nat
  name : List UInt8
  deriving DecidableEq, Repr

structure Fs where
  bitmap : Nat → Bool
  dinode : Nat → Dinode
  block : Nat → Bytes bsize
  itable : Slot → Inode
  outstanding : Nat
  lh : List Nat

abbrev F := StateT Fs (Except String)

def beginOp : F Unit :=
  modify fun s => { s with outstanding := s.outstanding + 1 }

def endOp : F Unit :=
  modify fun s => { s with
    outstanding := s.outstanding - 1
    lh := if s.outstanding = 1 then [] else s.lh }

def logWrite (b : Nat) : F Unit := do
  let s ← get
  if s.outstanding < 1 then throw "log_write outside of trans"
  else set { s with lh := if b ∈ s.lh then s.lh else s.lh ++ [b] }

section
variable (sb : Super)

def bblock (b : Nat) : Nat := b / bpb + sb.bmapstart
def iblock (i : Nat) : Nat := i / ipb + sb.inodestart

def store (b : Nat) (data : Bytes bsize) : F Unit :=
  modify fun s => { s with block := Function.update s.block b data }

def setBit (b : Nat) (v : Bool) : F Unit := do
  modify fun s => { s with bitmap := Function.update s.bitmap b v }
  logWrite (bblock sb b)

def bzero (b : Nat) : F Unit := do
  store b (zeros bsize)
  logWrite b

def balloc : F Nat := do
  let s ← get
  match (List.range sb.size).find? fun b => !s.bitmap b with
  | none => return 0
  | some b =>
    setBit sb b true
    bzero b
    return b

def bfree (b : Nat) : F Unit := do
  let s ← get
  if s.bitmap b then setBit sb b false
  else throw "freeing free block"

end

section
variable (sb : Super)

def modInode (k : Slot) (f : Inode → Inode) : F Unit :=
  modify fun s => { s with itable := Function.update s.itable k (f (s.itable k)) }

def modCopy (k : Slot) (f : Dinode → Dinode) : F Unit :=
  modInode k fun ip => { ip with copy := f ip.copy }

def setDinode (i : Nat) (d : Dinode) : F Unit := do
  modify fun s => { s with dinode := Function.update s.dinode i d }
  logWrite (iblock sb i)

def iget (i : Nat) : F Slot := do
  let s ← get
  match (List.finRange ninode).find? fun k => 0 < (s.itable k).ref ∧ (s.itable k).inum = i with
  | some k =>
    modInode k fun ip => { ip with ref := ip.ref + 1 }
    return k
  | none =>
    match (List.finRange ninode).find? fun k => (s.itable k).ref = 0 with
    | none => throw "iget: no inodes"
    | some k =>
      modInode k fun ip => { ip with inum := i, ref := 1, valid := false }
      return k

def ialloc (type : FType) : F (Option Slot) := do
  let s ← get
  match (List.range sb.ninodes).find? fun i => 1 ≤ i ∧ (s.dinode i).type = .free with
  | none => return none
  | some i =>
    setDinode sb i { Dinode.zero with type := type }
    let k ← iget i
    return some k

def iupdate (k : Slot) : F Unit := do
  let s ← get
  setDinode sb (s.itable k).inum (s.itable k).copy

def idup (k : Slot) : F Unit :=
  modInode k fun ip => { ip with ref := ip.ref + 1 }

def acquiresleep (k : Slot) : F Unit := do
  let s ← get
  if (s.itable k).lock then throw "sleeping on its own lock"
  else modInode k fun ip => { ip with lock := true }

def ilock (k : Slot) : F Unit := do
  let s ← get
  if (s.itable k).ref < 1 then throw "ilock"
  else
    acquiresleep k
    if (s.itable k).valid then pure ()
    else
      modInode k fun ip => { ip with copy := s.dinode ip.inum, valid := true }
      if (s.dinode (s.itable k).inum).type = .free then throw "ilock: no type" else pure ()

def iunlock (k : Slot) : F Unit := do
  let s ← get
  if (s.itable k).lock = false ∨ (s.itable k).ref < 1 then throw "iunlock"
  else modInode k fun ip => { ip with lock := false }

end

section
variable (sb : Super)

def word (data : Bytes bsize) (j : Nat) : Nat := field data (4 * j) 4

def loadAddr (k : Slot) (a : Fin (ndirect + 1)) : F Nat := do
  let s ← get
  if (s.itable k).copy.addrs a = 0 then
    let addr ← balloc sb
    if addr = 0 then return 0
    else
      modCopy k fun d => d.setAddr a addr
      return addr
  else return (s.itable k).copy.addrs a

/-- Entry `j` of the indirect block `ind`, allocating a block if there is none. -/
def loadEntry (ind j : Nat) : F Nat := do
  let s ← get
  if word (s.block ind) j = 0 then
    let addr ← balloc sb
    if addr = 0 then return 0
    else
      let t ← get
      store ind (setField (t.block ind) (4 * j) 4 addr)
      logWrite ind
      return addr
  else return word (s.block ind) j

def bmap (k : Slot) (bn : Nat) : F Nat :=
  if h : bn < ndirect then loadAddr sb k ⟨bn, Nat.lt_succ_of_lt h⟩
  else if bn - ndirect < nindirect then do
    let ind ← loadAddr sb k (Fin.last ndirect)
    if ind = 0 then return 0
    else loadEntry sb ind (bn - ndirect)
  else throw "bmap: out of range"

def freeAddr (k : Slot) (a : Fin (ndirect + 1)) : F Unit := do
  let s ← get
  if (s.itable k).copy.addrs a = 0 then pure ()
  else
    bfree sb ((s.itable k).copy.addrs a)
    modCopy k fun d => d.setAddr a 0

def freeEntries (data : Bytes bsize) : List (Fin nindirect) → F Unit
  | [] => pure ()
  | j :: js => do
    (if word data j = 0 then pure () else bfree sb (word data j))
    freeEntries data js

def freeAddrs (k : Slot) : List (Fin (ndirect + 1)) → F Unit
  | [] => pure ()
  | a :: as => do
    freeAddr sb k a
    freeAddrs k as

def itrunc (k : Slot) : F Unit := do
  freeAddrs sb k ((List.finRange ndirect).map Fin.castSucc)
  let s ← get
  let ind := (s.itable k).copy.addrs (Fin.last ndirect)
  (if ind = 0 then pure () else freeEntries sb (s.block ind) (List.finRange nindirect))
  freeAddr sb k (Fin.last ndirect)
  modCopy k fun d => { d with size := 0 }
  iupdate sb k

/-- The loop of `readi`. Byte `i` of the destination can be written if `dst i`;
the second result is what arrived there. -/
def readLoop (k : Slot) (dst : Nat → Bool) :
    Nat → Nat → Nat → Nat → List UInt8 → F (Int × List UInt8)
  | 0, _, _, tot, got => return (tot, got)
  | fuel + 1, n, off, tot, got =>
    if tot < n then do
      let addr ← bmap sb k (off / bsize)
      if addr = 0 then return (tot, got)
      else
        let s ← get
        let m := min (n - tot) (bsize - off % bsize)
        let chunk := peekBytes (s.block addr) (off % bsize) m
        let room := (List.range m).takeWhile fun i => dst (tot + i)
        if room.length < m then return (-1, got ++ chunk.take room.length)
        else readLoop k dst fuel n (off + m) (tot + m) (got ++ chunk)
    else return (tot, got)

def readi (k : Slot) (dst : Nat → Bool) (off n : Nat) : F (Int × List UInt8) := do
  let s ← get
  let size := (s.itable k).copy.size
  if size < off ∨ 2 ^ 32 ≤ off + n then return (0, [])
  else
    let n := if size < off + n then size - off else n
    readLoop sb k dst n n off 0 []

/-- The bytes that a copy of `m` bytes from `src` on gets before it fails. -/
def copied (src : Nat → Option UInt8) (start : Nat) : Nat → List UInt8
  | 0 => []
  | m + 1 =>
    match src start with
    | none => []
    | some b => b :: copied src (start + 1) m

def writeLoop (k : Slot) (src : Nat → Option UInt8) : Nat → Nat → Nat → Nat → F (Nat × Nat)
  | 0, _, off, tot => return (tot, off)
  | fuel + 1, n, off, tot =>
    if tot < n then do
      let addr ← bmap sb k (off / bsize)
      if addr = 0 then return (tot, off)
      else
        let s ← get
        let m := min (n - tot) (bsize - off % bsize)
        let bytes := copied src tot m
        store addr (pokeBytes (s.block addr) (off % bsize) bytes)
        if bytes.length < m then return (tot, off)
        else
          logWrite addr
          writeLoop k src fuel n (off + m) (tot + m)
    else return (tot, off)

def writei (k : Slot) (src : Nat → Option UInt8) (off n : Nat) : F Int := do
  let s ← get
  if (s.itable k).copy.size < off ∨ 2 ^ 32 ≤ off + n then return -1
  else if maxfile * bsize < off + n then return -1
  else
    let (tot, off) ← writeLoop sb k src n n off 0
    modCopy k fun d => { d with size := if d.size < off then off else d.size }
    iupdate sb k
    return tot

def iput (k : Slot) : F Unit := do
  let s ← get
  (if (s.itable k).ref = 1 ∧ (s.itable k).valid ∧ (s.itable k).copy.nlink = 0 then do
    acquiresleep k
    itrunc sb k
    modCopy k fun d => { d with type := .free }
    iupdate sb k
    modInode k fun ip => { ip with valid := false, lock := false }
  else pure ())
  modInode k fun ip => { ip with ref := ip.ref - 1 }

def iunlockput (k : Slot) : F Unit := do
  iunlock k
  iput sb k

end

section
variable (sb : Super)

def namecmp (s t : List UInt8) : Int := strncmp s t dirsiz

def Dirent.decode (bytes : List UInt8) : Dirent :=
  ⟨(bytes.getD 0 0).toNat + 256 * (bytes.getD 1 0).toNat, bytes.drop 2⟩

def Dirent.encode (inum : Nat) (name : List UInt8) : List UInt8 :=
  UInt8.ofNat inum :: UInt8.ofNat (inum / 256) :: strncpy name dirsiz

def readDirent (k : Slot) (off : Nat) : F (Option Dirent) := do
  let (r, bytes) ← readi sb k (fun _ => true) off direntSize
  return if r = direntSize then some (Dirent.decode bytes) else none

def lookupFrom (k : Slot) (name : List UInt8) : Nat → Nat → F (Option (Nat × Slot))
  | 0, _ => return none
  | fuel + 1, off => do
    let s ← get
    if off < (s.itable k).copy.size then
      match ← readDirent sb k off with
      | none => throw "dirlookup read"
      | some de =>
        if de.inum ≠ 0 ∧ namecmp name de.name = 0 then
          let ip ← iget de.inum
          return some (off, ip)
        else lookupFrom k name fuel (off + direntSize)
    else return none

def dirlookup (k : Slot) (name : List UInt8) : F (Option (Nat × Slot)) := do
  let s ← get
  if (s.itable k).copy.type ≠ .dir then throw "dirlookup not DIR"
  else lookupFrom sb k name ((s.itable k).copy.size + 1) 0

def freeDirent (k : Slot) : Nat → Nat → F Nat
  | 0, off => return off
  | fuel + 1, off => do
    let s ← get
    if off < (s.itable k).copy.size then
      match ← readDirent sb k off with
      | none => throw "dirlink read"
      | some de => if de.inum = 0 then return off else freeDirent k fuel (off + direntSize)
    else return off

def kernelSrc (bytes : List UInt8) : Nat → Option UInt8 := fun i => some (bytes.getD i 0)

def dirlink (k : Slot) (name : List UInt8) (inum : Nat) : F Bool := do
  match ← dirlookup sb k name with
  | some (_, ip) =>
    iput sb ip
    return false
  | none =>
    let s ← get
    let off ← freeDirent sb k ((s.itable k).copy.size + 1) 0
    let r ← writei sb k (kernelSrc (Dirent.encode inum name)) off direntSize
    return r = direntSize

end

section
variable (sb : Super)

abbrev Path := List UInt8

def slash : UInt8 := 47
def dot : List UInt8 := [46]
def dotdot : List UInt8 := [46, 46]

/-- The first element of a path and what follows it; `none` if there is none. -/
def skipelem (path : Path) : Option (List UInt8 × Path) :=
  match path.dropWhile (· = slash) with
  | [] => none
  | rest => some ((rest.takeWhile (· ≠ slash)).take dirsiz,
      (rest.dropWhile (· ≠ slash)).dropWhile (· = slash))

def namexFrom (parent : Bool) : Nat → Slot → Path → List UInt8 → F (Option (Slot × List UInt8))
  | 0, _, _, _ => throw "namex: unfinished path"
  | fuel + 1, ip, path, name =>
    match skipelem path with
    | none =>
      if parent then do
        iput sb ip
        return none
      else return some (ip, name)
    | some (name, path) => do
      ilock ip
      let s ← get
      if (s.itable ip).copy.type ≠ .dir then
        iunlockput sb ip
        return none
      else if parent ∧ path = [] then
        iunlock ip
        return some (ip, name)
      else
        match ← dirlookup sb ip name with
        | none =>
          iunlockput sb ip
          return none
        | some (_, next) =>
          iunlockput sb ip
          namexFrom parent fuel next path name

def pathStart (cwd : Slot) (path : Path) : F Slot :=
  if path.head? = some slash then iget rootIno
  else do
    idup cwd
    return cwd

def namex (cwd : Slot) (path : Path) (parent : Bool) : F (Option (Slot × List UInt8)) := do
  let ip ← pathStart cwd path
  namexFrom sb parent (path.length + 1) ip path []

def namei (cwd : Slot) (path : Path) : F (Option Slot) := do
  let r ← namex sb cwd path false
  return r.map Prod.fst

def nameiparent (cwd : Slot) (path : Path) : F (Option (Slot × List UInt8)) :=
  namex sb cwd path true

end

end Xv6.FsMachine
