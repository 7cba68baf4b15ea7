import Mathlib.Data.Fintype.Card
import Xv6.ByteFields
import Xv6.Params
import Xv6.RedoLog

/-! The write-ahead log of `kernel/log.c` over a disk and a buffer cache. Processes bracket their
updates by `beginOp` and `endOp`; the last `endOp` commits. A step writes at most one disk block,
so a crash comes between two steps. The cache holds the blocks whose buffer is valid; one pinned
by `bpin` is never evicted. In the header block `n` and `block[i]` are 32-bit little-endian
fields, and `writeHead` leaves those past `n` as they were. -/

namespace Xv6.LogMachine
open ByteFields Params

abbrev Block := Bytes bsize

structure Super where
  logstart : Nat
  nlog : Nat
  nlog_pos : 0 < nlog

/-- The log that `mkfs` lays out: `nlog` blocks from block 2, the header first. -/
def mkfsSuper : Super := ⟨2, logSize, by decide⟩

/-- Where the kernel is inside `commit` or inside `recoverFromLog`. -/
inductive Phase
  | idle
  | writeLog (tail : Nat)
  | writeHead
  | install (tail : Nat)
  | clear
  | done
  | readHead
  | recover (tail : Nat)
  | recoverClear
  deriving DecidableEq, Repr

/-- `op p` holds the blocks that the operation of `p` has logged so far, and
is `none` when `p` is outside `beginOp` and `endOp`. -/
structure State (P : Type) where
  disk : Nat → Block
  cache : Nat → Option Block
  pins : Nat → Nat
  lh : List Nat
  outstanding : Int
  committing : Bool
  phase : Phase
  op : P → Option (Finset Nat)

inductive Outcome (σ : Type)
  | next (s : σ)
  | asleep
  | panic (msg : String)

def Outcome.message {σ : Type} : Outcome σ → Option String
  | .panic msg => some msg
  | _ => none

lemma Outcome.eq_panic {σ : Type} {o : Outcome σ} {msg : String} (h : o.message = some msg) : o = .panic msg := by
  cases o <;> simp_all [message]

def Super.inLog (sb : Super) (b : Nat) : Prop := sb.logstart ≤ b ∧ b < sb.logstart + sb.nlog

instance (sb : Super) (b : Nat) : Decidable (sb.inLog b) :=
  inferInstanceAs (Decidable (_ ∧ _))

section
variable {P : Type} (sb : Super) (s : State P)

/-- The contents `bread` returns: the buffer when it is valid, else the disk. -/
def view (b : Nat) : Block := (s.cache b).getD (s.disk b)

def bread (b : Nat) : State P := { s with cache := Function.update s.cache b (some (view s b)) }

def bwrite (b : Nat) (data : Block) : State P :=
  { s with
    cache := Function.update s.cache b (some data)
    disk := Function.update s.disk b data }

/-- The `int n` of a header block, as the bound of a counting loop. -/
def headCount (b : Block) : Nat := if field b 0 4 < 2 ^ 31 then field b 0 4 else 0

def headBlocks (b : Block) : List Nat :=
  (List.range (headCount b)).map (fun i => field b (4 + 4 * i) 4)

def storeBlocks (b : Block) (i : Nat) : List Nat → Block
  | [] => b
  | x :: xs => storeBlocks (setField b (4 + 4 * i) 4 x) (i + 1) xs

def encodeHead (b : Block) (lh : List Nat) : Block :=
  storeBlocks (setField b 0 4 lh.length) 0 lh

def readHead : State P :=
  let s := bread s sb.logstart
  { s with lh := headBlocks (view s sb.logstart) }

def writeHead : State P :=
  let s := bread s sb.logstart
  bwrite s sb.logstart (encodeHead (view s sb.logstart) s.lh)

def writeLogAt (tail : Nat) : State P :=
  let home := s.lh.getD tail 0
  let s := bread s (sb.logstart + tail + 1)
  let s := bread s home
  bwrite s (sb.logstart + tail + 1) (view s home)

def installAt (recovering : Bool) (tail : Nat) : State P :=
  let home := s.lh.getD tail 0
  let s := bread s (sb.logstart + tail + 1)
  let s := bread s home
  let s := bwrite s home (view s (sb.logstart + tail + 1))
  if recovering then s else { s with pins := Function.update s.pins home (s.pins home - 1) }

/-- The rest of the loop of `installTrans`, `k` iterations from `tail` on. -/
def installTrans (recovering : Bool) : (k tail : Nat) → State P → State P
  | 0, _, s => s
  | k + 1, tail, s => installTrans recovering k (tail + 1) (installAt sb s recovering tail)

def recoverFromLog : State P :=
  let s := readHead sb s
  let s := installTrans sb true s.lh.length 0 s
  { writeHead sb { s with lh := [] } with phase := .idle }

end

section
variable {P : Type} [DecidableEq P] (sb : Super) (s : State P)

def beginOp (p : P) : Outcome (State P) :=
  if s.committing then .asleep
  else if (s.lh.length : Int) + (s.outstanding + 1) * maxOpBlocks > logSize then .asleep
  else .next { s with
    outstanding := s.outstanding + 1
    op := Function.update s.op p (some ∅) }

/-- The caller has locked the buffer of `b` and stores new contents in it. -/
def modify (b : Nat) (data : Block) : State P :=
  { s with cache := Function.update s.cache b (some data) }

/-- Absorb a block that is already in the transaction, else append and pin it. -/
def logBlock (b : Nat) : State P :=
  if b ∈ s.lh then s
  else { s with lh := s.lh ++ [b], pins := Function.update s.pins b (s.pins b + 1) }

/-- The buffer of `b` is locked by the caller, so it is valid. -/
def logWrite (p : P) (b : Nat) : Outcome (State P) :=
  if s.lh.length ≥ logSize ∨ (s.lh.length : Int) ≥ (sb.nlog : Int) - 1 then
    .panic "too big a transaction"
  else if s.outstanding < 1 then .panic "log_write outside of trans"
  else
    let s := logBlock (bread s b) b
    .next { s with op := Function.update s.op p ((s.op p).map (insert b)) }

/-- The first critical section of `endOp`, up to the call of `commit`. -/
def endOp (p : P) : Outcome (State P) :=
  let s := { s with outstanding := s.outstanding - 1, op := Function.update s.op p none }
  if s.committing then .panic "log.committing"
  else if s.outstanding = 0 then
    .next { s with committing := true, phase := if s.lh.length > 0 then .writeLog 0 else .done }
  else .next s

def commitStep : Outcome (State P) :=
  match s.phase with
  | .writeLog tail =>
    if tail < s.lh.length then
      .next { writeLogAt sb s tail with phase := .writeLog (tail + 1) }
    else .next { s with phase := .writeHead }
  | .writeHead => .next { writeHead sb s with phase := .install 0 }
  | .install tail =>
    if tail < s.lh.length then
      .next { installAt sb s false tail with phase := .install (tail + 1) }
    else .next { s with lh := [], phase := .clear }
  | .clear => .next { writeHead sb s with phase := .done }
  | .done => .next { s with committing := false, phase := .idle }
  | _ => .asleep

def recoverStep : Outcome (State P) :=
  match s.phase with
  | .readHead => .next { readHead sb s with phase := .recover 0 }
  | .recover tail =>
    if tail < s.lh.length then
      .next { installAt sb s true tail with phase := .recover (tail + 1) }
    else .next { s with lh := [], phase := .recoverClear }
  | .recoverClear => .next { writeHead sb s with phase := .idle }
  | _ => .asleep

end

/-- Only the disk survives; the kernel starts over in `recoverFromLog`. -/
def crash {P : Type} (disk : Nat → Block) : State P where
  disk := disk
  cache _ := none
  pins _ := 0
  lh := []
  outstanding := 0
  committing := false
  phase := .readHead
  op _ := none

def Phase.recovering : Phase → Bool
  | .readHead | .recover _ | .recoverClear => true
  | _ => false

inductive Act (P : Type)
  | beginOp (p : P)
  | modify (p : P) (b : Fin (2 ^ 32)) (data : Block)
  | logWrite (p : P) (b : Fin (2 ^ 32))
  | endOp (p : P)
  | commit
  | recover
  | load (b : Nat)
  | evict (b : Nat)
  | crash

/-- A process modifies and logs home blocks only, between its `beginOp` and
its `endOp`. Any process may load a block, and any unpinned buffer may be
recycled, at any time. -/
def step {P : Type} [DecidableEq P] (sb : Super) (s : State P) : Act P → Outcome (State P)
  | .beginOp p => if s.op p = none ∧ s.phase.recovering = false then beginOp s p else .asleep
  | .modify p b data =>
    if (s.op p).isSome ∧ ¬ sb.inLog b then .next (modify s b data) else .asleep
  | .logWrite p b =>
    if (s.op p).isSome ∧ ¬ sb.inLog b then logWrite sb s p b else .asleep
  | .endOp p => if (s.op p).isSome then endOp s p else .asleep
  | .commit => commitStep sb s
  | .recover => recoverStep sb s
  | .load b => .next (bread s b)
  | .evict b =>
    if s.pins b = 0 then .next { s with cache := Function.update s.cache b none } else .asleep
  | .crash => .next (crash s.disk)

def Step {P : Type} [DecidableEq P] (sb : Super) (s : State P) (a : Act P) (t : State P) : Prop :=
  step sb s a = .next t

end Xv6.LogMachine
