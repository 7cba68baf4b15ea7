import Mathlib.Data.Fintype.Basic
import Xv6.Ring

/-! The buffer cache. `bcache.head` is the node `none` of the list through `prev` and `next`, a buffer
`b` the node `some b`. The functions are the critical sections under `bcache.lock`, without the
sleep lock and the contents of a buffer. -/

namespace Xv6.BioMachine
open Xv6.Ring

structure Buf where
  valid : Bool
  dev : UInt32
  blockno : UInt32
  refcnt : UInt32

structure Cache (n : Nat) where
  buf : Fin n → Buf
  links : Links (Option (Fin n))

variable {n : Nat} (s : Cache n)

def Cache.set (b : Fin n) (v : Buf) : Cache n := { s with buf := Function.update s.buf b v }

/-- The list starts with `head` alone; each buffer goes to its front. -/
def binit (n : Nat) : Cache n where
  buf _ := ⟨false, 0, 0, 0⟩
  links := (List.finRange n).foldl (fun k b => k.insertAfter none (some b))
    ⟨fun _ => none, fun _ => none⟩

def carries (dev blockno : UInt32) (b : Fin n) : Bool :=
  (s.buf b).dev == dev && (s.buf b).blockno == blockno

def unused (b : Fin n) : Bool := (s.buf b).refcnt == 0

/-- Up to the release of `bcache.lock`. The first loop follows `next` from
`head`, the second one `prev`. -/
def bget (dev blockno : UInt32) : Except String (Cache n × Fin n) :=
  match walk s.links.next none (Option.any (carries s dev blockno)) (n + 1) (s.links.next none) with
  | some (some b) => .ok (s.set b { s.buf b with refcnt := (s.buf b).refcnt + 1 }, b)
  | _ =>
    match walk s.links.prev none (Option.any (unused s)) (n + 1) (s.links.prev none) with
    | some (some b) => .ok (s.set b ⟨false, dev, blockno, 1⟩, b)
    | _ => .error "bget: no buffers"

def bpin (b : Fin n) : Cache n := s.set b { s.buf b with refcnt := (s.buf b).refcnt + 1 }

def bunpin (b : Fin n) : Cache n := s.set b { s.buf b with refcnt := (s.buf b).refcnt - 1 }

def brelse (b : Fin n) : Cache n :=
  let s := s.set b { s.buf b with refcnt := (s.buf b).refcnt - 1 }
  if (s.buf b).refcnt = 0 then
    { s with links := (s.links.unlink (some b)).insertAfter none (some b) }
  else s

inductive Op (n : Nat)
  | bget (dev blockno : UInt32)
  | brelse (b : Fin n)
  | bpin (b : Fin n)
  | bunpin (b : Fin n)

def perform : Op n → Except String (Cache n)
  | .bget dev blockno => (bget s dev blockno).map Prod.fst
  | .brelse b => .ok (brelse s b)
  | .bpin b => .ok (bpin s b)
  | .bunpin b => .ok (bunpin s b)

def Step (s : Cache n) (op : Op n) (t : Cache n) : Prop := perform s op = .ok t

end Xv6.BioMachine
