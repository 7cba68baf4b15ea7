import Xv6.BioMachine
import Xv6.FsMachine
import Xv6.LogMachine

/-! The buffers, the log and the processes that share them. `bread` takes a reference, waits for the
sleep lock and reads the block if the buffer is not valid; `brelse` gives up the lock, then the
reference. Between `beginOp` and `endOp` a process changes buffers it has locked and logs each
change before the release; only a user copy of `writei` that fails releases one without. `commit`,
run by the process that ends the last operation, and `recoverFromLog`, run at boot, are lists of
instructions on the three buffers that `writeLog`, `installTrans`, `readHead` and `writeHead` have
in hand. -/

namespace Xv6.BufMachine
open ByteFields Params BioMachine
open LogMachine (Block encodeHead headBlocks)
open FsMachine (copied)

def rootDev : UInt32 := 1

/-- The superblock fields that `initlog` copies, for a log that ends before
block number `2 ^ 32`. -/
structure Super where
  logstart : Nat
  nlog : Nat
  nlog_pos : 0 < nlog
  fits : logstart + nlog ≤ 2 ^ 32

def Super.inLog (sb : Super) (k : UInt32) : Prop :=
  sb.logstart ≤ k.toNat ∧ k.toNat < sb.logstart + sb.nlog

instance (sb : Super) (k : UInt32) : Decidable (sb.inLog k) :=
  inferInstanceAs (Decidable (_ ∧ _))

/-- The buffers of the log code: `to` or `lbuf`, `from` or `dbuf`, and `buf`. -/
inductive Reg
  | slot
  | home
  | head
  deriving DecidableEq

inductive Instr
  | bget (r : Reg)
  | acquire (r : Reg)
  | release (r : Reg)
  | drop (r : Reg)
  | copy (dst src : Reg)
  | bunpin
  | readHead
  | writeHead
  | first
  | writeLog
  | install (recovering : Bool)
  | next
  | done
  deriving DecidableEq

/-- What a process is in the middle of: `bread`, before it has the lock, or
`brelse`, after it has given up the lock. -/
inductive Busy (n : Nat)
  | ready
  | waiting (b : Fin n)
  | releasing (b : Fin n)
  deriving DecidableEq

/-- `dirty b` while the process that holds `b` has changes to log. -/
structure State (n : Nat) (P : Type) where
  cache : Cache n
  data : Fin n → Block
  holder : Fin n → Option P
  dirty : Fin n → Bool
  disk : UInt32 → Block
  busy : P → Busy n
  op : P → Bool
  outstanding : Nat
  committing : Bool
  recovering : Bool
  lh : List UInt32
  logger : Option P
  code : List Instr
  tail : Nat
  reg : Reg → Option (Fin n)

section
open Instr

def bread (r : Reg) : List Instr := [.bget r, .acquire r]
def brelse (r : Reg) : List Instr := [.release r, .drop r]

def writeLogBody : List Instr :=
  bread .slot ++ bread .home ++ [copy .slot .home] ++ brelse .home ++ brelse .slot ++ [next]

def installBody (recovering : Bool) : List Instr :=
  bread .slot ++ bread .home ++ [copy .home .slot] ++ (if recovering then [] else [Instr.bunpin]) ++
    brelse .slot ++ brelse .home ++ [next]

def readHeadCode : List Instr := bread .head ++ [readHead] ++ brelse .head
def writeHeadCode : List Instr := bread .head ++ [writeHead] ++ brelse .head

def commit : List Instr :=
  [first, writeLog] ++ writeHeadCode ++ [first, install false] ++ writeHeadCode ++ [done]

def recoverFromLog : List Instr :=
  readHeadCode ++ [first, install true] ++ writeHeadCode ++ [done]

end

variable {n : Nat} {P : Type} [DecidableEq P] (sb : Super) (s : State n P)

def blockno (b : Fin n) : UInt32 := (s.cache.buf b).blockno
def valid (b : Fin n) : Bool := (s.cache.buf b).valid

def slotBlock (tail : Nat) : UInt32 := UInt32.ofNat (sb.logstart + tail + 1)

def block : Reg → UInt32
  | .slot => slotBlock sb s.tail
  | .home => s.lh.getD s.tail 0
  | .head => UInt32.ofNat sb.logstart

def bgetFor (p : P) (k : UInt32) : Option (State n P × Fin n) :=
  match bget s.cache rootDev k with
  | .ok (cache, b) => some ({ s with cache, busy := Function.update s.busy p (.waiting b) }, b)
  | .error _ => none

def acquireFor (p : P) (b : Fin n) : State n P :=
  { s with
    holder := Function.update s.holder b (some p)
    busy := Function.update s.busy p .ready
    data := if valid s b then s.data else Function.update s.data b (s.disk (blockno s b))
    cache := s.cache.set b { s.cache.buf b with valid := true } }

def releaseFor (p : P) (b : Fin n) : State n P :=
  { s with
    holder := Function.update s.holder b none
    busy := Function.update s.busy p (.releasing b) }

def dropFor (p : P) (b : Fin n) : State n P :=
  { s with
    cache := BioMachine.brelse s.cache b
    busy := Function.update s.busy p .ready }

def bwrite (b : Fin n) (data : Block) : State n P :=
  { s with
    data := Function.update s.data b data
    disk := Function.update s.disk (blockno s b) data }

/-- One instruction of the process `p` that runs the log code. A `bread` that
finds the lock taken waits; `bwrite` and `brelse` of a buffer that `p` has not
locked panic. -/
def execute (p : P) (i : Instr) (rest : List Instr) : Option (State n P) :=
  match i with
  | .bget r =>
    (bgetFor s p (block sb s r)).map fun (t, b) =>
      { t with reg := Function.update s.reg r (some b), code := rest }
  | .acquire r => do
    let b ← s.reg r
    if s.holder b = none then return { acquireFor s p b with code := rest } else none
  | .release r => do
    let b ← s.reg r
    if s.holder b = some p then return { releaseFor s p b with code := rest } else none
  | .drop r => do
    let b ← s.reg r
    return { dropFor s p b with reg := Function.update s.reg r none, code := rest }
  | .copy dst src => do
    let d ← s.reg dst
    let e ← s.reg src
    if s.holder d = some p then return { bwrite s d (s.data e) with code := rest } else none
  | .bunpin => do
    let b ← s.reg .home
    return { s with cache := bunpin s.cache b, code := rest }
  | .readHead => do
    let b ← s.reg .head
    return { s with lh := (headBlocks (s.data b)).map UInt32.ofNat, code := rest }
  | .writeHead => do
    let b ← s.reg .head
    if s.holder b = some p then
      return { bwrite s b (encodeHead (s.data b) (s.lh.map UInt32.toNat)) with code := rest }
    else none
  | .first => some { s with tail := 0, code := rest }
  | .writeLog =>
    if s.tail < s.lh.length then some { s with code := writeLogBody ++ .writeLog :: rest }
    else some { s with code := rest }
  | .install recovering =>
    if s.tail < s.lh.length then
      some { s with code := installBody recovering ++ .install recovering :: rest }
    else some { s with lh := [], code := rest }
  | .next => some { s with tail := s.tail + 1, code := rest }
  | .done =>
    some { s with committing := false, recovering := false, logger := none, code := rest }

inductive Act (n : Nat) (P : Type)
  | bget (p : P) (k : UInt32)
  | acquire (p : P) (b : Fin n)
  | release (p : P) (b : Fin n)
  | drop (p : P) (b : Fin n)
  | beginOp (p : P)
  | store (p : P) (b : Fin n) (data : Block)
  | copyin (p : P) (b : Fin n) (off m : Nat) (src : Nat → Option UInt8)
  | logWrite (p : P) (b : Fin n)
  | endOp (p : P)
  | log

def Calls (p : P) : Prop := s.recovering = false ∧ s.logger ≠ some p

instance (p : P) : Decidable (Calls s p) := inferInstanceAs (Decidable (_ ∧ _))

def Updates (p : P) (b : Fin n) : Prop :=
  Calls s p ∧ s.busy p = .ready ∧ s.op p = true ∧ s.holder b = some p ∧ ¬ sb.inLog (blockno s b)

instance (p : P) (b : Fin n) : Decidable (Updates sb s p b) := inferInstanceAs (Decidable (_ ∧ _))

def logBlock (b : Fin n) : State n P :=
  if blockno s b ∈ s.lh then s
  else { s with cache := bpin s.cache b, lh := s.lh ++ [blockno s b] }

/-- What `either_copyin` leaves in the buffer: it stores what it can read. -/
def copyinData (b : Fin n) (off m : Nat) (src : Nat → Option UInt8) : Block :=
  pokeBytes (s.data b) off (copied src 0 m)

def copyinFails (m : Nat) (src : Nat → Option UInt8) : Prop := (copied src 0 m).length < m

instance (m : Nat) (src : Nat → Option UInt8) : Decidable (copyinFails m src) :=
  inferInstanceAs (Decidable (_ < _))

def next : Act n P → Option (State n P)
  | .bget p k =>
    if Calls s p ∧ s.busy p = .ready then (bgetFor s p k).map Prod.fst else none
  | .acquire p b =>
    if Calls s p ∧ s.busy p = .waiting b ∧ s.holder b = none then some (acquireFor s p b) else none
  | .release p b =>
    if Calls s p ∧ s.busy p = .ready ∧ s.holder b = some p ∧ s.dirty b = false then
      some (releaseFor s p b)
    else none
  | .drop p b =>
    if Calls s p ∧ s.busy p = .releasing b then some (dropFor s p b) else none
  | .beginOp p =>
    if Calls s p ∧ s.busy p = .ready ∧ s.op p = false ∧ s.committing = false ∧
      s.lh.length + (s.outstanding + 1) * maxOpBlocks ≤ logSize then
      some { s with outstanding := s.outstanding + 1, op := Function.update s.op p true }
    else none
  | .store p b data =>
    if Updates sb s p b then
      some { s with
        data := Function.update s.data b data
        dirty := Function.update s.dirty b true }
    else none
  | .copyin p b off m src =>
    if Updates sb s p b ∧ off + m ≤ bsize then
      some { s with
        data := Function.update s.data b (copyinData s b off m src)
        dirty := if copyinFails m src then s.dirty else Function.update s.dirty b true }
    else none
  | .logWrite p b =>
    if Updates sb s p b ∧ s.lh.length < logSize ∧ s.lh.length + 1 < sb.nlog ∧
      1 ≤ s.outstanding then
      some { logBlock s b with dirty := Function.update s.dirty b false }
    else none
  | .endOp p =>
    if Calls s p ∧ s.busy p = .ready ∧ s.op p = true ∧ (∀ b, s.holder b ≠ some p) ∧
      s.committing = false then
      let t := { s with outstanding := s.outstanding - 1, op := Function.update s.op p false }
      if t.outstanding = 0 then
        some { t with
          committing := true
          logger := some p
          code := if t.lh = [] then [.done] else commit }
      else some t
    else none
  | .log =>
    match s.logger, s.code with
    | some p, i :: rest => execute sb s p i rest
    | _, _ => none

def Step (s : State n P) (a : Act n P) (t : State n P) : Prop := next sb s a = some t

/-- The kernel after `binit`, when `boot` calls `initlog`. -/
def start (boot : P) (disk : UInt32 → Block) : State n P where
  cache := binit n
  data _ := zeros bsize
  holder _ := none
  dirty _ := false
  disk := disk
  busy _ := .ready
  op _ := false
  outstanding := 0
  committing := false
  recovering := true
  lh := []
  logger := some boot
  code := recoverFromLog
  tail := 0
  reg _ := none

end Xv6.BufMachine
