import Xv6.BufCount

/-! The log code of `commit` and `recoverFromLog`, checked before it runs. A `Typ` says
which of the three buffers the code has in hand, and how far it has come with unpinning;
`rule` says what each instruction needs and leaves. -/

namespace Xv6.BufLog
open Params BioMachine BioCache BufMachine BufCount Function
open LogMachine (Block)

variable {n : Nat} {P : Type}

/-- `written` is a locked buffer that the disk agrees with. -/
inductive Hold
  | free
  | waiting
  | held
  | written
  | releasing
  deriving DecidableEq

/-- How many blocks are unpinned: none, none and `tail` is 0, `tail`,
`tail + 1`, or none and the transaction is empty. -/
inductive Pins
  | kept
  | zero
  | atTail
  | passed
  | cleared
  deriving DecidableEq

structure Typ where
  slot : Hold
  home : Hold
  head : Hold
  pins : Pins
  inLoop : Bool
  recovering : Bool

namespace Typ

def empty (pins : Pins) (recovering : Bool) : Typ := ⟨.free, .free, .free, pins, false, recovering⟩

def get (T : Typ) : Reg → Hold
  | .slot => T.slot
  | .home => T.home
  | .head => T.head

def set (T : Typ) (r : Reg) (h : Hold) : Typ :=
  match r with
  | .slot => { T with slot := h }
  | .home => { T with home := h }
  | .head => { T with head := h }

end Typ

def Hold.locked : Hold → Bool
  | .held | .written => true
  | _ => false

def Hold.settled : Hold → Bool
  | .waiting | .releasing => false
  | _ => true

def Typ.settled (T : Typ) : Bool := T.slot.settled && T.home.settled && T.head.settled

def Typ.free (T : Typ) : Bool := T.slot == .free && T.home == .free && T.head == .free

def rule (T : Typ) : Instr → Option Typ
  | .bget r =>
    if T.settled && T.get r == .free && (r != .home || T.inLoop) then some (T.set r .waiting)
    else none
  | .acquire r =>
    if T.get r == .waiting && (T.set r .held).settled then some (T.set r .held) else none
  | .release r => if T.settled && (T.get r).locked then some (T.set r .releasing) else none
  | .drop r =>
    if T.get r == .releasing && (T.set r .free).settled then some (T.set r .free) else none
  | .copy dst src =>
    if T.settled && (T.get dst).locked && (T.get src).locked && dst != src &&
      (T.recovering || (T.pins == .kept && dst == .slot) || (T.pins == .atTail && dst == .home)) &&
      T.inLoop
    then some (T.set dst .written) else none
  | .bunpin =>
    if T.settled && T.home == .written && T.inLoop && T.pins == .atTail && !T.recovering then
      some { T with pins := .passed }
    else none
  | .readHead =>
    if T.settled && T.head.locked && T.slot == .free && T.home == .free && T.pins == .kept &&
      !T.inLoop && T.recovering
    then some T else none
  | .writeHead =>
    if T.settled && T.head.locked then some (T.set .head .written) else none
  | .first =>
    if T.free && T.pins == .kept && !T.inLoop then some { T with pins := .zero } else none
  | .writeLog =>
    if T.free && (T.pins == .zero || T.pins == .kept) && !T.inLoop && !T.recovering then
      some { T with pins := .kept }
    else none
  | .install recovering =>
    if T.free && (T.pins == .zero || T.pins == (if recovering then .kept else .atTail)) &&
      !T.inLoop && T.recovering == recovering
    then some { T with pins := .cleared } else none
  | .next =>
    if T.free && T.inLoop then
      match T.pins with
      | .kept => some { T with inLoop := false }
      | .passed => some { T with inLoop := false, pins := .atTail }
      | _ => none
    else none
  | .done => if T.free && T.pins == .cleared && !T.inLoop then some T else none

def Typed (T : Typ) : List Instr → Prop
  | [] => True
  | i :: rest =>
    match rule T i with
    | some T => Typed T rest
    | none => False

lemma typed_recoverFromLog : Typed (.empty .kept true) recoverFromLog := trivial

lemma typed_commit : Typed (.empty .kept false) commit := trivial

lemma typed_done : Typed (.empty .cleared false) [.done] := trivial

lemma typed_writeLogBody (h : Typed (.empty .kept false) rest) :
    Typed { Typ.empty .kept false with inLoop := true } (writeLogBody ++ .writeLog :: rest) := h

lemma typed_installBody (recovering) (h : Typed (.empty .cleared recovering) rest) :
    Typed { Typ.empty (if recovering then .kept else .atTail) recovering with inLoop := true }
      (installBody recovering ++ .install recovering :: rest) := by
  cases recovering <;> exact h

/-- The buffers of the transaction that no process is changing hold what was
logged. -/
def Latest (s : State n P) (g : Notes) : Prop :=
  ¬ g.torn → ∀ b, Pinned s g b → s.dirty b = false → s.data b = g.latest (blockno s b)

def Pins.Holds (s : State n P) (g : Notes) : Pins → Prop
  | .kept => g.unpinned = 0
  | .zero => g.unpinned = 0 ∧ s.tail = 0
  | .atTail => g.unpinned = s.tail
  | .passed => g.unpinned = s.tail + 1
  | .cleared => g.unpinned = 0 ∧ s.lh = []

def Pins.gathers : Pins → Bool
  | .atTail | .passed => false
  | _ => true

def RegOk (sb : Super) (s : State n P) (p : P) (r : Reg) : Hold → Prop
  | .free => True
  | .waiting => ∃ b, s.reg r = some b ∧ s.busy p = .waiting b ∧ Carries s b (block sb s r)
  | .held => ∃ b, s.reg r = some b ∧ s.holder b = some p ∧ Carries s b (block sb s r)
  | .written =>
    ∃ b, s.reg r = some b ∧ s.holder b = some p ∧ Carries s b (block sb s r) ∧
      s.data b = s.disk (blockno s b)
  | .releasing => ∃ b, s.reg r = some b ∧ s.busy p = .releasing b

structure Agrees (sb : Super) (s : State n P) (g : Notes) (p : P) (T : Typ) : Prop where
  recovering : s.recovering = T.recovering
  regs : ∀ r, RegOk sb s p r (T.get r)
  apart : ∀ r r', r ≠ r' → (T.get r).locked = true → (T.get r').locked = true → s.reg r ≠ s.reg r'
  ready : T.settled = true → s.busy p = .ready
  loop : T.inLoop = true → s.tail < s.lh.length
  pins : T.pins.Holds s g

def LogOk (sb : Super) (s : State n P) (g : Notes) : Prop :=
  match s.logger with
  | none => g.unpinned = 0 ∧ Latest s g
  | some p => ∃ T, Agrees sb s g p T ∧ Typed T s.code ∧ (T.pins.gathers = true → Latest s g)

/-- The control state: operations, transaction and the process that commits. -/
structure Control [Fintype P] (sb : Super) (s : State n P) : Prop where
  ops : s.outstanding = ∑ q, (s.op q).toNat
  quiet : s.logger.isSome → ∀ q, s.op q = false
  busy : s.logger.isSome ↔ s.recovering = true ∨ s.committing = true
  once : s.recovering = false → s.lh.Nodup
  home : s.recovering = false → ∀ k ∈ s.lh, ¬ sb.inLog k
  room : s.recovering = false → s.lh.length + 1 ≤ sb.nlog
  dirty : ∀ b, s.dirty b = true → ∃ q, s.holder b = some q ∧ s.op q = true

structure Inv [Fintype P] (sb : Super) (s : State n P) (g : Notes) : Prop where
  counts : Counts s g
  control : Control sb s
  log : LogOk sb s g

variable {s t : State n P} {p q : P}

lemma RegOk.locked (ok : RegOk sb s p r h) (locked : h.locked = true) :
    ∃ b, s.reg r = some b ∧ s.holder b = some p ∧ Carries s b (block sb s r) := by
  cases h <;> simp only [Hold.locked, Bool.false_eq_true] at locked
  · exact ok
  · obtain ⟨b, reg, holder, has, _⟩ := ok
    exact ⟨b, reg, holder, has⟩

structure Spares (s t : State n P) (p : P) : Prop where
  busy : t.busy p = s.busy p
  flying : ∀ b k, flight b (s.busy p) = 1 → Carries s b k → Carries t b k
  holder : ∀ b, s.holder b = some p → t.holder b = some p ∧ Stays s t b ∧ t.data b = s.data b

structure SameLog (s t : State n P) : Prop where
  disk : t.disk = s.disk
  lh : t.lh = s.lh
  recovering : t.recovering = s.recovering
  logger : t.logger = s.logger
  code : t.code = s.code
  tail : t.tail = s.tail
  reg : t.reg = s.reg

lemma SameLog.block (same : SameLog s t) (r : Reg) : block sb t r = block sb s r := by
  cases r <;> simp [BufMachine.block, same.tail, same.lh]

lemma RegOk.spare (ok : RegOk sb s p r h) (same : SameLog s t) (spares : Spares s t p) : RegOk sb t p r h := by
  cases h with
  | free => trivial
  | waiting =>
    obtain ⟨b, reg, busy, has⟩ := ok
    have carried' := spares.flying b _ (by simp [busy]) has
    exact ⟨b, by rw [same.reg, reg], by rw [spares.busy, busy], (same.block r).symm ▸ carried'⟩
  | held =>
    obtain ⟨b, reg, holder, has⟩ := ok
    obtain ⟨holder', stays, _⟩ := spares.holder b holder
    exact ⟨b, by rw [same.reg, reg], holder', (same.block r).symm ▸ stays.carries has⟩
  | written =>
    obtain ⟨b, reg, holder, has, disk⟩ := ok
    obtain ⟨holder', stays, data⟩ := spares.holder b holder
    exact ⟨b, by rw [same.reg, reg], holder', (same.block r).symm ▸ stays.carries has,
      by rw [data, disk, same.disk, stays.blockno]⟩
  | releasing =>
    obtain ⟨b, reg, busy⟩ := ok
    exact ⟨b, by rw [same.reg, reg], by rw [spares.busy, busy]⟩

lemma LogOk.spare (ok : LogOk sb s g) (same : SameLog s t)
    (spares : ∀ p, s.logger = some p → Spares s t p) (latest : Latest s g → Latest t g) :
    LogOk sb t g := by
  unfold LogOk at ok ⊢
  rw [same.logger]
  cases logger : s.logger with
  | none =>
    rw [logger] at ok
    exact ⟨ok.1, latest ok.2⟩
  | some p =>
    rw [logger] at ok
    obtain ⟨T, agrees, typed, gathers⟩ := ok
    refine ⟨T, ⟨?_, ?_, ?_, ?_, ?_, ?_⟩, same.code ▸ typed, fun g => latest (gathers g)⟩
    · rw [same.recovering, agrees.recovering]
    · exact fun r => (agrees.regs r).spare same (spares p logger)
    · simpa only [same.reg] using agrees.apart
    · rw [(spares p logger).busy]
      exact agrees.ready
    · rw [same.tail, same.lh]
      exact agrees.loop
    · have pins := agrees.pins
      cases e : T.pins <;> simp only [e, Pins.Holds, same.tail, same.lh] at pins ⊢ <;> exact pins

section
variable [DecidableEq P]

lemma Control.acquire [Fintype P] (h : Control sb s) (unheld : s.holder b = none) : Control sb (acquireFor s p b) where
  __ := h
  dirty c dirty := by
    obtain ⟨q, held, op⟩ := h.dirty c dirty
    have other : c ≠ b := by
      rintro rfl
      simp [unheld] at held
    exact ⟨q, (update_of_ne other ..).trans held, op⟩

lemma Control.release [Fintype P] (h : Control sb s) (clean : s.dirty b = false) : Control sb (releaseFor s p b) where
  __ := h
  dirty c dirty := by
    obtain ⟨q, held, op⟩ := h.dirty c dirty
    have other : c ≠ b := by
      rintro rfl
      exact absurd (clean.symm.trans dirty) (by decide)
    exact ⟨q, (update_of_ne other ..).trans held, op⟩

lemma acquireFor_carries (has : Carries s c k) : Carries (acquireFor s p b) c k := by
  simp only [Carries, BufMachine.blockno, acquireFor, Cache.set, update_apply] at has ⊢
  split_ifs with e
  · subst e
    exact has
  · exact has

lemma acquireFor_stays (away : c ≠ b) : Stays s (acquireFor s p b) c := by
  constructor <;> simp [BufMachine.blockno, BufMachine.valid, acquireFor, Cache.set, update_of_ne away]

lemma acquireFor_data (away : c ≠ b) : (acquireFor s p b).data c = s.data c := by
  simp only [acquireFor]
  split_ifs
  · rfl
  · exact update_of_ne away ..

end

section
variable [Fintype P]

namespace Inv

section
variable (h : Inv sb s g)
include h

lemma logger_none (op : s.op p = true) : s.logger = none := by
  cases logger : s.logger with
  | none => rfl
  | some q =>
    have closed := h.control.quiet (by simp [logger]) p
    simp [op] at closed

lemma gathering (free : s.logger = none) : g.unpinned = 0 ∧ Latest s g := by
  have log := h.log
  simp only [LogOk, free] at log
  exact log

lemma up_of_free (free : s.logger = none) : s.recovering = false ∧ s.committing = false := by
  have busy := h.control.busy
  simp only [free, Option.isSome_none, Bool.false_eq_true, false_iff, not_or, Bool.not_eq_true] at busy
  exact busy

lemma pending_eq (free : s.logger = none) : pending s g = s.lh := by
  simp [pending, (h.up_of_free free).1, (h.gathering free).1]

lemma same_buffer (dev : (s.cache.buf b).dev = rootDev)
    (dev' : (s.cache.buf c).dev = rootDev) (blockno : blockno s c = blockno s b) : c = b :=
  h.counts.rep.unique (by rw [dev']; decide) (dev'.trans dev.symm) blockno

end

end Inv

variable [DecidableEq P]

lemma Latest.bget (counts : Counts s g) (hs : bgetFor s p k = some (t, b)) (h : Latest s g) : Latest t g := by
  intro whole c pinned clean
  have old := counts.bgetFor_pinned hs pinned
  have stays := counts.bgetFor_stays hs (.inr old)
  obtain ⟨⟨_, rfl, _⟩, _⟩ := counts.bgetFor_cases hs
  rw [stays.blockno]
  exact h whole c old clean

lemma Latest.acquire (counts : Counts s g) (h : Latest s g) : Latest (acquireFor s p b) g := by
  intro whole c pinned clean
  have blockno : blockno (acquireFor s p b) c = blockno s c := by
    simp only [BufMachine.blockno, acquireFor, Cache.set, update_apply]
    split_ifs with e <;> simp [e]
  have dev : ((acquireFor s p b).cache.buf c).dev = (s.cache.buf c).dev := by
    simp only [acquireFor, Cache.set, update_apply]
    split_ifs with e <;> simp [e]
  have old : Pinned s g c := ⟨dev.symm.trans pinned.1, blockno ▸ pinned.2⟩
  have data : (acquireFor s p b).data c = s.data c := by
    simp only [acquireFor]
    split_ifs with filled
    · rfl
    · refine update_of_ne ?_ ..
      rintro rfl
      exact filled (counts.valid_of_pinned old)
  rw [data, blockno]
  exact h whole c old clean

omit [Fintype P] in
lemma Latest.drop (h : Latest s g) : Latest (dropFor s p b) g := by
  have stays := stays_count (t := dropFor s p b) (brelse_buf s.cache b)
  intro whole c pinned clean
  rw [(stays c).blockno]
  exact h whole c ⟨(stays c).dev.symm.trans pinned.1, (stays c).blockno ▸ pinned.2⟩ clean

namespace Inv

lemma bget (small : Fintype.card P + 3 < 2 ^ 32) (h : Inv sb s g) (free : s.logger ≠ some p)
    (ready : s.busy p = .ready) (hs : bgetFor s p k = some (t, b)) : Inv sb t g := by
  have counts := (h.counts.bget small ready hs).1
  have stays := fun c => h.counts.bgetFor_stays hs (c := c)
  have latest := Latest.bget h.counts hs
  obtain ⟨⟨_, rfl, _⟩, _⟩ := h.counts.bgetFor_cases hs
  refine ⟨counts, { h.control with }, h.log.spare ⟨rfl, rfl, rfl, rfl, rfl, rfl, rfl⟩ ?_ latest⟩
  intro q logs
  have other : q ≠ p := fun e => free (e ▸ logs)
  refine ⟨update_of_ne other .., fun c j flies has => ?_, fun c held => ?_⟩
  · exact (stays c (.inl (users_pos_of_flight q flies))).carries has
  · exact ⟨held, stays c (.inl (users_pos_holder held)), rfl⟩

section
variable (h : Inv sb s g) (free : s.logger ≠ some p)
include h free

lemma acquire (waits : s.busy p = .waiting b) (unheld : s.holder b = none) : Inv sb (acquireFor s p b) g := by
  refine ⟨h.counts.acquire waits unheld, h.control.acquire unheld,
    h.log.spare ⟨rfl, rfl, rfl, rfl, rfl, rfl, rfl⟩ (fun q logs => ?_) (Latest.acquire h.counts)⟩
  have other : q ≠ p := fun e => free (e ▸ logs)
  refine ⟨update_of_ne other .., fun c j _ => acquireFor_carries, fun c held => ?_⟩
  have away : c ≠ b := by
    rintro rfl
    simp [unheld] at held
  exact ⟨(update_of_ne away ..).trans held, acquireFor_stays away, acquireFor_data away⟩

lemma release (ready : s.busy p = .ready)
    (mine : s.holder b = some p) (clean : s.dirty b = false) : Inv sb (releaseFor s p b) g := by
  refine ⟨h.counts.release ready mine, h.control.release clean,
    h.log.spare ⟨rfl, rfl, rfl, rfl, rfl, rfl, rfl⟩ (fun q logs => ?_) id⟩
  have other : q ≠ p := fun e => free (e ▸ logs)
  refine ⟨update_of_ne other .., fun _ _ _ => id, fun c held => ?_⟩
  have away : c ≠ b := by
    rintro rfl
    exact other (Option.some.inj (held.symm.trans mine))
  exact ⟨(update_of_ne away ..).trans held, ⟨rfl, rfl, rfl⟩, rfl⟩

lemma drop (gives : s.busy p = .releasing b) : Inv sb (dropFor s p b) g := by
  have stays := stays_count (t := dropFor s p b) (brelse_buf s.cache b)
  refine ⟨h.counts.drop gives, { h.control with }, h.log.spare ⟨rfl, rfl, rfl, rfl, rfl, rfl, rfl⟩ ?_ Latest.drop⟩
  intro q logs
  have other : q ≠ p := fun e => free (e ▸ logs)
  exact ⟨update_of_ne other .., fun c j _ => (stays c).carries, fun c held => ⟨held, stays c, rfl⟩⟩

end

omit [DecidableEq P] in
lemma store (h : Inv sb s g) (op : s.op p = true) (mine : s.holder b = some p) (data dirty latest torn)
    (whole : ¬ torn → ¬ g.torn) (logged : ¬ torn → Pinned s g b → dirty = false → latest (blockno s b) = data)
    (others : ∀ j, j ≠ blockno s b → latest j = g.latest j) :
    Inv sb { s with
      data := update s.data b data
      dirty := update s.dirty b dirty } { g with latest := latest, torn := torn } := by
  have free := h.logger_none op
  have dev := h.counts.dev_eq (.inl (users_pos_holder mine))
  refine ⟨h.counts.congr rfl rfl rfl rfl, ⟨h.control.ops, h.control.quiet, h.control.busy,
    h.control.once, h.control.home, h.control.room, fun c dirty => ?_⟩, ?_⟩
  · by_cases e : c = b
    · exact ⟨p, e ▸ mine, op⟩
    · exact h.control.dirty c (by simpa [update_of_ne e] using dirty)
  · simp only [LogOk, free]
    refine ⟨(h.gathering free).1, fun intact c pinned clean => ?_⟩
    by_cases e : c = b
    · subst e
      simp only [update_self] at clean ⊢
      exact (logged intact pinned clean).symm
    · have old := (h.gathering free).2 (whole intact) c pinned (by simpa [update_of_ne e] using clean)
      have apart : blockno s c ≠ blockno s b := fun same => e (h.same_buffer dev pinned.1 same)
      simp only [update_of_ne e]
      exact old.trans (others _ apart).symm

omit [DecidableEq P] in
lemma logWrite (small : Fintype.card P + 3 < 2 ^ 32) (h : Inv sb s g) (op : s.op p = true)
    (mine : s.holder b = some p) (home : ¬ sb.inLog (blockno s b))
    (room : s.lh.length + 1 < sb.nlog) :
    Inv sb { logBlock s b with dirty := update s.dirty b false } (g.record s (.logWrite p b)) := by
  have free := h.logger_none op
  have up := (h.up_of_free free).1
  -- with its old contents the block is logged once more
  have logged := h.store op mine (s.data b) false (update g.latest (blockno s b) (s.data b)) g.torn id
    (fun _ _ _ => update_self ..) (fun _ ne => update_of_ne ne ..)
  rw [update_eq_self] at logged
  unfold logBlock
  split_ifs with absorbed
  · exact logged
  · have pending' : ∀ latest : UInt32 → Block,
      pending { s with dirty := update s.dirty b false } { g with latest := latest } = s.lh := by
      intro latest
      simp [pending, up, (h.gathering free).1]
    have dev := h.counts.dev_eq (.inl (users_pos_holder mine))
    have stays := stays_count (t := { s with
      cache := bpin s.cache b, lh := s.lh ++ [blockno s b] }) rfl
    refine ⟨?_, ⟨h.control.ops, h.control.quiet, h.control.busy, fun _ => ?_, fun _ k hk => ?_,
      fun _ => ?_, logged.control.dirty⟩, ?_⟩
    · refine logged.counts.bpin small (users_pos_holder mine) (h.counts.held b p mine) rfl rfl rfl ?_ ?_
      · rw [pending']
        exact absorbed
      · rw [pending']
        simp [pending, up, Notes.record, (h.gathering free).1]
        rfl
    · refine (h.control.once up).append (List.nodup_singleton _) ?_
      simpa using absorbed
    · rcases List.mem_append.mp hk with hk | hk
      · exact h.control.home up k hk
      · rw [List.mem_singleton.mp hk]
        exact home
    · have old := h.control.room up
      simp only [List.length_append, List.length_singleton]
      omega
    · have old := logged.gathering free
      simp only [LogOk, free]
      refine ⟨old.1, fun whole c pinned clean => ?_⟩
      have blockno' := (stays c).blockno
      change s.data c = update g.latest (blockno s b) (s.data b)
        (blockno { s with cache := bpin s.cache b, lh := s.lh ++ [blockno s b] } c)
      rw [blockno']
      by_cases e : c = b
      · rw [e, update_self]
      · have dev' := (stays c).dev.symm.trans pinned.1
        have apart : blockno s c ≠ blockno s b := fun same => e (h.same_buffer dev dev' same)
        have mem : blockno s c ∈ s.lh ++ [blockno s b] := by
          have mem := pinned.2
          simp only [pending, up, Notes.record, (h.gathering free).1] at mem
          exact blockno' ▸ mem
        refine old.2 whole c ⟨dev', ?_⟩ clean
        rw [pending']
        exact (List.mem_append.mp mem).resolve_right fun last => apart (List.mem_singleton.mp last)

lemma beginOp (h : Inv sb s g) (up : s.recovering = false) (rest : s.committing = false) (closed : s.op p = false) :
    Inv sb { s with outstanding := s.outstanding + 1, op := update s.op p true } g := by
  have free : s.logger = none := by
    have busy := h.control.busy
    simpa [up, rest] using busy
  refine ⟨h.counts.congr rfl rfl rfl rfl, ⟨?_, ?_, h.control.busy, h.control.once, h.control.home,
    h.control.room, fun c dirty => ?_⟩, ?_⟩
  · have turn := Counting.sum_update Bool.toNat s.op p true
    have old := h.control.ops
    simp only [closed, Bool.toNat_false, Bool.toNat_true] at turn
    dsimp only
    omega
  · simp [free]
  · obtain ⟨q, held, op⟩ := h.control.dirty c dirty
    refine ⟨q, held, ?_⟩
    by_cases e : q = p
    · simp [e]
    · simpa [update_of_ne e] using op
  · have log := h.gathering free
    simp only [LogOk, free]
    exact log

lemma control_endOp (h : Inv sb s g) (op : s.op p = true) (unlocked : ∀ c, s.holder c ≠ some p) :
    s.outstanding - 1 = ∑ q, (update s.op p false q).toNat ∧
    ∀ c, s.dirty c = true → ∃ q, s.holder c = some q ∧ update s.op p false q = true := by
  constructor
  · have turn := Counting.sum_update Bool.toNat s.op p false
    have old := h.control.ops
    simp only [op, Bool.toNat_false, Bool.toNat_true] at turn
    omega
  · intro c dirty
    obtain ⟨q, held, op⟩ := h.control.dirty c dirty
    have other : q ≠ p := fun e => unlocked c (e ▸ held)
    exact ⟨q, held, by simpa [update_of_ne other] using op⟩

lemma endOp (h : Inv sb s g) (op : s.op p = true) (ready : s.busy p = .ready) (unlocked : ∀ c, s.holder c ≠ some p)
    (hs : (let t := { s with outstanding := s.outstanding - 1, op := update s.op p false }
      if t.outstanding = 0 then
        { t with
          committing := true
          logger := some p
          code := if t.lh = [] then [.done] else commit }
      else t) = t) : Inv sb t g := by
  have free := h.logger_none op
  have up := (h.up_of_free free).1
  have log := h.gathering free
  obtain ⟨ops, dirty⟩ := h.control_endOp op unlocked
  have closed : s.outstanding - 1 = 0 → ∀ q, update s.op p false q = false := by
    intro last q
    rw [last] at ops
    have zero := Finset.sum_eq_zero_iff.mp ops.symm q (Finset.mem_univ q)
    simpa using zero
  dsimp only at hs
  split_ifs at hs with last empty
  all_goals subst hs
  · refine ⟨h.counts.congr rfl rfl rfl rfl, ⟨ops, fun _ => closed last, by simp, h.control.once,
      h.control.home, h.control.room, dirty⟩, .empty .cleared false,
      ⟨up, ?_, ?_, fun _ => ready, ?_, ⟨log.1, empty⟩⟩, typed_done, fun _ => log.2⟩
    · rintro (_ | _ | _) <;> trivial
    · rintro (_ | _ | _) _ _ locked <;> cases locked
    · rintro ⟨⟩
  · refine ⟨h.counts.congr rfl rfl rfl rfl, ⟨ops, fun _ => closed last, by simp, h.control.once,
      h.control.home, h.control.room, dirty⟩, .empty .kept false,
      ⟨up, ?_, ?_, fun _ => ready, ?_, log.1⟩, typed_commit, fun _ => log.2⟩
    · rintro (_ | _ | _) <;> trivial
    · rintro (_ | _ | _) _ _ locked <;> cases locked
    · rintro ⟨⟩
  · refine ⟨h.counts.congr rfl rfl rfl rfl, ⟨ops, by simp [free], h.control.busy, h.control.once,
      h.control.home, h.control.room, dirty⟩, ?_⟩
    simp only [LogOk, free]
    exact log

end Inv

end

end Xv6.BufLog
