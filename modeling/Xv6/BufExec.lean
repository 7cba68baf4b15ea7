import Xv6.BufLog

/-! The steps of the log code keep the invariant. There is one lemma for each
instruction: from a state that a type describes it leads to one that the type
after the instruction describes. -/

namespace Xv6.BufExec
open Params BioMachine BioCache BufMachine BufCount BufLog Function Option
open LogMachine (Block)
open Bool (and_eq_true false_eq_true or_eq_true not_eq_true')

variable {n : Nat} {P : Type} {T T' : Typ}

lemma get_set (T : Typ) (r r' : Reg) (v : Hold) : (T.set r v).get r' = if r' = r then v else T.get r' := by
  cases r <;> cases r' <;> rfl

lemma settled_get (h : T.settled = true) (r : Reg) : (T.get r).settled = true := by
  simp only [Typ.settled, and_eq_true] at h
  cases r
  · exact h.1.1
  · exact h.1.2
  · exact h.2

lemma settled_set (h : (T.set r v).settled = true) : v.settled = true := by
  have here := settled_get h r
  rwa [get_set, if_pos rfl] at here

lemma free_get (h : T.free = true) (r : Reg) : T.get r = .free := by
  simp only [Typ.free, and_eq_true, beq_iff_eq] at h
  cases r
  · exact h.1.1
  · exact h.1.2
  · exact h.2

lemma eq_empty (h : T.free = true) (out : T.inLoop = false) : T = .empty T.pins T.recovering := by
  simp only [Typ.free, and_eq_true, beq_iff_eq] at h
  cases T
  simp_all [Typ.empty]

section
variable {sb : Super} {s t : State n P} {g : Notes} {p : P}

structure Kept (s t : State n P) (p : P) (b : Fin n) : Prop where
  holder : t.holder b = some p
  carries : ∀ k, Carries s b k → Carries t b k
  data : s.data b = s.disk (blockno s b) → t.data b = t.disk (blockno t b)

lemma regOk_keep (ok : RegOk sb s p r v) (settled : v.settled = true) (reg : t.reg r = s.reg r)
    (same : block sb t r = block sb s r)
    (kept : v.locked = true → ∀ b, s.reg r = some b → s.holder b = some p → Kept s t p b) :
    RegOk sb t p r v := by
  cases v <;> simp only [Hold.settled, false_eq_true] at settled
  case free => trivial
  case held =>
    obtain ⟨b, reg', held, has⟩ := ok
    have kept := kept rfl b reg' held
    exact ⟨b, reg.trans reg', kept.holder, same ▸ kept.carries _ has⟩
  case written =>
    obtain ⟨b, reg', held, has, disk⟩ := ok
    have kept := kept rfl b reg' held
    exact ⟨b, reg.trans reg', kept.holder, same ▸ kept.carries _ has, kept.data disk⟩

lemma set_pins (T : Typ) (r : Reg) (v : Hold) : (T.set r v).pins = T.pins := by
  cases r <;> rfl

lemma agrees_touch (old : Agrees sb s g p T) (recovering : t.recovering = s.recovering)
    (tail : t.tail = s.tail) (lh : t.lh = s.lh)
    (settled : ∀ r', r' ≠ r → (T.get r').settled = true)
    (reg : ∀ r', r' ≠ r → t.reg r' = s.reg r')
    (kept : ∀ r', r' ≠ r → (T.get r').locked = true → ∀ b, s.reg r' = some b → s.holder b = some p → Kept s t p b)
    (new : RegOk sb t p r v)
    (apart : v.locked = true → ∀ r', r' ≠ r → (T.get r').locked = true → t.reg r ≠ s.reg r')
    (ready : v.settled = true → t.busy p = .ready) : Agrees sb t g p (T.set r v) where
  recovering := by rw [recovering, old.recovering]; cases r <;> rfl
  regs r' := by
    rw [get_set]
    split_ifs with e
    · exact e ▸ new
    · have same : block sb t r' = block sb s r' := by cases r' <;> simp [block, tail, lh]
      exact regOk_keep (old.regs r') (settled r' e) (reg r' e) same (kept r' e)
  apart r1 r2 ne := by
    simp only [get_set]
    split_ifs with e1 e2 e2
    · exact absurd (e1.trans e2.symm) ne
    · intro h1 h2
      rw [e1, reg r2 e2]
      exact apart h1 r2 e2 h2
    · intro h1 h2
      rw [e2, reg r1 e1]
      exact (apart h2 r1 e1 h1).symm
    · rw [reg r1 e1, reg r2 e2]
      exact old.apart r1 r2 ne
  ready h := ready (settled_set h)
  loop h := by
    rw [tail, lh]
    exact old.loop (by cases r <;> exact h)
  pins := by
    have pins := old.pins
    rw [set_pins]
    cases e : T.pins <;> simp only [e, Pins.Holds, tail, lh] at pins ⊢ <;> exact pins

structure After [Fintype P] (sb : Super) (t : State n P) (g : Notes) (p : P) (T : Typ) : Prop where
  counts : Counts t g
  control : Control sb t
  agrees : Agrees sb t g p T
  latest : T.pins.gathers = true → Latest t g

variable [Fintype P]

/-- The process that runs the log code has no operation open, so it holds no
buffer with changes to log. -/
lemma clean_of_logger (control : Control sb s) (logs : s.logger = some p)
    (mine : s.holder b = some p) : s.dirty b = false := by
  cases dirty : s.dirty b with
  | false => rfl
  | true =>
    obtain ⟨q, held, op⟩ := control.dirty b dirty
    obtain rfl : p = q := some.inj (mine.symm.trans held)
    have closed := control.quiet (by simp [logs]) p
    simp [op] at closed

omit [Fintype P] in
lemma pending_subset (s : State n P) (g : Notes) (hk : k ∈ pending s g) : s.recovering = false ∧ k ∈ s.lh := by
  unfold pending at hk
  split_ifs at hk with up
  · simp at hk
  · exact ⟨by simpa using up, List.mem_of_mem_drop hk⟩

lemma not_pinned (control : Control sb s) (has : Carries s b k)
    (inLog : s.recovering = false → sb.inLog k) : ¬ Pinned s g b := by
  rintro ⟨_, mem⟩
  obtain ⟨up, logged⟩ := pending_subset s g mem
  rw [has.2] at logged
  exact control.home up k logged (inLog up)

omit [Fintype P] in
lemma inLog_ofNat (lo : sb.logstart ≤ i) (hi : i < sb.logstart + sb.nlog) : sb.inLog (UInt32.ofNat i) := by
  have fits := sb.fits
  have small := UInt32.toNat_ofNat_of_lt' (lt_of_lt_of_le hi fits)
  simp only [Super.inLog, small]
  exact ⟨lo, hi⟩

end

section
variable [Fintype P] [DecidableEq P] {s t : State n P} {g : Notes} {p : P}

lemma exec_bget (small : Fintype.card P + 3 < 2 ^ 32) (now : After sb s g p T)
    (typed : rule T (.bget r) = some T') (hs : execute sb s p (.bget r) rest = some t) :
    After sb t g p T' := by
  simp only [rule, ite_none_right_eq_some, and_eq_true, beq_iff_eq] at typed
  obtain ⟨⟨⟨settled, empty⟩, _⟩, ⟨⟩⟩ := typed
  simp only [execute, map_eq_some_iff, Prod.exists] at hs
  obtain ⟨u, b, got, rfl⟩ := hs
  have ready := now.agrees.ready settled
  obtain ⟨counts, has⟩ := now.counts.bget small ready got
  have stays := fun c => now.counts.bgetFor_stays got (c := c)
  have latest := Latest.bget now.counts got
  obtain ⟨⟨_, rfl, _⟩, _⟩ := now.counts.bgetFor_cases got
  refine ⟨counts.congr rfl rfl rfl rfl, { now.control with }, ?_, ?_⟩
  · refine agrees_touch now.agrees rfl rfl rfl (fun r' _ => settled_get settled r')
      (fun r' ne => update_of_ne ne ..) (fun r' ne _ c reg held => ?_)
      ⟨b, update_self .., update_self .., has⟩ (by simp [Hold.locked])
      (by simp [Hold.settled])
    have stays := stays c (.inl (users_pos_holder held))
    exact ⟨held, fun k => stays.carries, fun same => same.trans (congrArg s.disk stays.blockno.symm)⟩
  · rw [set_pins]
    exact fun gathers => latest (now.latest gathers)

lemma exec_acquire (now : After sb s g p T) (typed : rule T (.acquire r) = some T')
    (hs : execute sb s p (.acquire r) rest = some t) : After sb t g p T' := by
  simp only [rule, ite_none_right_eq_some, and_eq_true, beq_iff_eq] at typed
  obtain ⟨⟨waits, settled⟩, ⟨⟩⟩ := typed
  have ok := now.agrees.regs r
  rw [waits] at ok
  obtain ⟨b, reg, busy, has⟩ := ok
  simp only [execute, reg, bind_eq_bind, bind_some, ite_none_right_eq_some] at hs
  obtain ⟨unheld, ⟨⟩⟩ := hs
  have away : ∀ c, s.holder c = some p → c ≠ b := by
    rintro c held rfl
    simp [unheld] at held
  have control := now.control.acquire (p := p) unheld
  refine ⟨(now.counts.acquire busy unheld).congr rfl rfl rfl rfl, { control with }, ?_, ?_⟩
  · refine agrees_touch now.agrees rfl rfl rfl (fun r' ne => ?_) (fun _ _ => rfl) (fun r' ne _ c reg' held => ?_)
      ⟨b, reg, update_self .., acquireFor_carries (p := p) has⟩ (fun _ r' ne locked => ?_)
      (fun _ => update_self ..)
    · have here := settled_get settled r'
      rwa [get_set, if_neg ne] at here
    · have stays := acquireFor_stays (s := s) (p := p) (away c held)
      refine ⟨(update_of_ne (away c held) ..).trans held, fun k => stays.carries, fun same => ?_⟩
      have data := acquireFor_data (s := s) (p := p) (away c held)
      exact data.trans (same.trans (congrArg s.disk stays.blockno.symm))
    · obtain ⟨c, reg', held, _⟩ := (now.agrees.regs r').locked locked
      change s.reg r ≠ s.reg r'
      rw [reg, reg']
      exact fun e => away c held (some.inj e).symm
  · rw [set_pins]
    exact fun gathers => Latest.acquire (p := p) now.counts (now.latest gathers)

lemma exec_release (now : After sb s g p T) (logs : s.logger = some p) (typed : rule T (.release r) = some T')
    (hs : execute sb s p (.release r) rest = some t) : After sb t g p T' := by
  simp only [rule, ite_none_right_eq_some, and_eq_true] at typed
  obtain ⟨⟨settled, locked⟩, ⟨⟩⟩ := typed
  obtain ⟨b, reg, mine, _⟩ := (now.agrees.regs r).locked locked
  simp only [execute, reg, bind_eq_bind, bind_some, mine, if_true] at hs
  obtain ⟨⟩ := hs
  have control := now.control.release (p := p) (clean_of_logger now.control logs mine)
  refine ⟨(now.counts.release (now.agrees.ready settled) mine).congr rfl rfl rfl rfl, { control with }, ?_, ?_⟩
  · refine agrees_touch now.agrees rfl rfl rfl (fun r' _ => settled_get settled r') (fun _ _ => rfl)
      (fun r' ne locked' c reg' held => ?_) ⟨b, reg, update_self ..⟩ (by simp [Hold.locked])
      (by simp [Hold.settled])
    have away : c ≠ b := by
      rintro rfl
      exact now.agrees.apart r' r ne locked' locked (reg'.trans reg.symm)
    exact ⟨(update_of_ne away ..).trans held, fun _ => id, id⟩
  · rw [set_pins]
    exact now.latest

lemma exec_drop (now : After sb s g p T) (typed : rule T (.drop r) = some T')
    (hs : execute sb s p (.drop r) rest = some t) : After sb t g p T' := by
  simp only [rule, ite_none_right_eq_some, and_eq_true, beq_iff_eq] at typed
  obtain ⟨⟨gives, settled⟩, ⟨⟩⟩ := typed
  have ok := now.agrees.regs r
  rw [gives] at ok
  obtain ⟨b, reg, busy⟩ := ok
  simp only [execute, reg, bind_eq_bind, bind_some] at hs
  obtain ⟨⟩ := hs
  have stays := stays_count (t := dropFor s p b) (brelse_buf s.cache b)
  refine ⟨(now.counts.drop busy).congr rfl rfl rfl rfl, { now.control with }, ?_, ?_⟩
  · refine agrees_touch now.agrees rfl rfl rfl (fun r' ne => ?_)
      (fun r' ne => update_of_ne ne ..) (fun r' ne _ c reg' held => ?_) trivial
      (by simp [Hold.locked]) (fun _ => update_self ..)
    · have here := settled_get settled r'
      rwa [get_set, if_neg ne] at here
    · refine ⟨held, fun k => (stays c).carries, fun same => ?_⟩
      exact same.trans (congrArg s.disk (stays c).blockno.symm)
  · rw [set_pins]
    exact fun gathers => Latest.drop (p := p) (now.latest gathers)

omit [DecidableEq P] in
lemma exec_write (now : After sb s g p T) (settled : T.settled = true)
    (locked : (T.get r).locked = true) (reg : s.reg r = some b) (data)
    (away : T.pins.gathers = true → ¬ Pinned s g b) :
    After sb { bwrite s b data with code := rest } g p (T.set r .written) := by
  obtain ⟨b', reg', mine, has⟩ := (now.agrees.regs r).locked locked
  obtain rfl : b = b' := some.inj (reg.symm.trans reg')
  refine ⟨now.counts.congr rfl rfl rfl rfl, { now.control with }, ?_, ?_⟩
  · refine agrees_touch now.agrees rfl rfl rfl (fun r' _ => settled_get settled r') (fun _ _ => rfl)
      (fun r' ne locked' c there held => ⟨held, fun _ => id, fun same => ?_⟩)
      ⟨b, reg, mine, has, ?_⟩ (fun _ r' ne locked' => now.agrees.apart r r' (Ne.symm ne) locked locked')
      (fun _ => now.agrees.ready settled)
    · have other : c ≠ b := by
        rintro rfl
        exact now.agrees.apart r' r ne locked' locked (there.trans reg.symm)
      have root := now.counts.dev_eq (.inl (users_pos_holder held))
      have apart : blockno s c ≠ blockno s b := fun e =>
        other (now.counts.rep.unique (by rw [root]; decide) (root.trans has.1.symm) e)
      exact (update_of_ne other ..).trans (same.trans (update_of_ne apart ..).symm)
    · change update s.data b data b = update s.disk (blockno s b) data (blockno s b)
      rw [update_self, update_self]
  · rw [set_pins]
    intro gathers whole c pinned clean
    have other : c ≠ b := by
      rintro rfl
      exact away gathers pinned
    exact (update_of_ne other ..).trans (now.latest gathers whole c pinned clean)

lemma exec_copy (now : After sb s g p T) (typed : rule T (.copy dst src) = some T')
    (hs : execute sb s p (.copy dst src) rest = some t) : After sb t g p T' := by
  simp only [rule, ite_none_right_eq_some, and_eq_true, or_eq_true, beq_iff_eq, bne_iff_ne] at typed
  obtain ⟨⟨⟨⟨⟨⟨settled, locked⟩, locked'⟩, _⟩, way⟩, inside⟩, ⟨⟩⟩ := typed
  obtain ⟨b, reg, mine, has⟩ := (now.agrees.regs dst).locked locked
  obtain ⟨c, reg', _, _⟩ := (now.agrees.regs src).locked locked'
  simp only [execute, reg, reg', bind_eq_bind, bind_some, mine, if_true] at hs
  obtain ⟨⟩ := hs
  refine exec_write now settled locked reg (s.data c) fun gathers => ?_
  refine not_pinned now.control has fun up => ?_
  rcases way with (recovers | ⟨_, rfl⟩) | ⟨tail, _⟩
  · rw [now.agrees.recovering, recovers] at up
    cases up
  · have room := now.control.room up
    have lt := now.agrees.loop inside
    exact inLog_ofNat (by omega) (by omega)
  · simp [tail, Pins.gathers] at gathers

lemma exec_writeHead (now : After sb s g p T) (typed : rule T .writeHead = some T')
    (hs : execute sb s p .writeHead rest = some t) : After sb t g p T' := by
  simp only [rule, ite_none_right_eq_some, and_eq_true] at typed
  obtain ⟨⟨settled, locked⟩, ⟨⟩⟩ := typed
  obtain ⟨b, reg, mine, has⟩ := (now.agrees.regs .head).locked locked
  simp only [execute, reg, bind_eq_bind, bind_some, mine, if_true] at hs
  obtain ⟨⟩ := hs
  refine exec_write (r := .head) now settled locked reg _ fun _ => not_pinned now.control has fun _ => ?_
  have pos := sb.nlog_pos
  exact inLog_ofNat (by omega) (by omega)

omit [Fintype P] [DecidableEq P] in
lemma agrees_free (old : Agrees sb s g p T) (free : T.free = true)
    (free' : T'.free = true) (recovering : t.recovering = T'.recovering) (busy : t.busy p = s.busy p)
    (loop : T'.inLoop = true → t.tail < t.lh.length) (pins : T'.pins.Holds t g') :
    Agrees sb t g' p T' where
  recovering := recovering
  regs r := by
    rw [free_get free' r]
    trivial
  apart r1 _ _ locked := by
    rw [free_get free' r1] at locked
    cases locked
  ready _ := by
    have settled : T.settled = true := by
      simp only [Typ.free, and_eq_true, beq_iff_eq] at free
      simp [Typ.settled, free.1.1, free.1.2, free.2, Hold.settled]
    rw [busy, old.ready settled]
  loop := loop
  pins := pins

/-- What `installTrans` is about to unpin: the first of the pinned blocks,
which it has written home. -/
structure Unpins (s : State n P) (g : Notes) (p : P) (b : Fin n) : Prop where
  reg : s.reg .home = some b
  holder : s.holder b = some p
  dev : (s.cache.buf b).dev = rootDev
  written : s.data b = s.disk (blockno s b)
  up : s.recovering = false
  atTail : g.unpinned = s.tail
  first : pending s g = blockno s b :: s.lh.drop (s.tail + 1)

omit [DecidableEq P] in
lemma unpins_of_typed (now : After sb s g p T) (typed : rule T .bunpin = some T') : ∃ b, Unpins s g p b := by
  simp only [rule, ite_none_right_eq_some, and_eq_true, beq_iff_eq, not_eq_true'] at typed
  obtain ⟨⟨⟨⟨⟨_, home⟩, inside⟩, pins⟩, recovers⟩, _⟩ := typed
  have ok := now.agrees.regs .home
  rw [show T.get .home = .written from home] at ok
  obtain ⟨b, reg, mine, has, disk⟩ := ok
  have up := now.agrees.recovering.trans recovers
  have lt := now.agrees.loop inside
  have atTail : g.unpinned = s.tail := by
    have holds := now.agrees.pins
    rwa [pins] at holds
  refine ⟨b, reg, mine, has.1, disk, up, atTail, ?_⟩
  have entry : blockno s b = s.lh[s.tail] := by
    rw [has.2]
    simp [block, lt]
  simp only [pending, up, false_eq_true, if_false, atTail, entry]
  exact List.drop_eq_getElem_cons lt

omit [Fintype P] [DecidableEq P] in
lemma Unpins.pending_next (u : Unpins s g p b) (cache : Cache n) :
    pending { s with cache := cache, code := rest } { g with unpinned := g.unpinned + 1 } = s.lh.drop (s.tail + 1) := by
  simp [pending, u.up, u.atTail]

section
variable (now : After sb s g p T)
include now

lemma exec_bunpin (typed : rule T .bunpin = some T') (hs : execute sb s p .bunpin rest = some t) :
    After sb t { g with unpinned := g.unpinned + 1 } p T' := by
  obtain ⟨b, u⟩ := unpins_of_typed now typed
  simp only [rule, ite_none_right_eq_some, and_eq_true] at typed
  obtain ⟨⟨⟨⟨⟨settled, _⟩, _⟩, _⟩, _⟩, ⟨⟩⟩ := typed
  simp only [execute, u.reg, bind_eq_bind, bind_some] at hs
  obtain ⟨⟩ := hs
  have once : blockno s b ∉ s.lh.drop (s.tail + 1) := by
    have nodup := (now.control.once u.up).sublist (List.drop_sublist g.unpinned s.lh)
    have first := u.first
    simp only [pending, u.up, false_eq_true, if_false] at first
    rw [first] at nodup
    exact (List.nodup_cons.mp nodup).1
  have stays := stays_count (t := { s with cache := BioMachine.bunpin s.cache b, code := rest }) rfl
  refine ⟨?_, { now.control with }, ⟨now.agrees.recovering, fun r => ?_,
    now.agrees.apart, now.agrees.ready, now.agrees.loop, ?_⟩, by simp [Pins.gathers]⟩
  · refine now.counts.bunpin u.dev (now.counts.held b p u.holder) rfl rfl rfl ?_ ?_
    · rw [u.pending_next, u.first]
    · rw [u.pending_next]
      exact once
  · refine regOk_keep (now.agrees.regs r) (settled_get settled r) rfl rfl fun _ c _ held => ?_
    exact ⟨held, fun k => (stays c).carries, fun same => same.trans (congrArg s.disk (stays c).blockno.symm)⟩
  · exact congrArg (· + 1) u.atTail

lemma exec_readHead (typed : rule T .readHead = some T')
    (hs : execute sb s p .readHead rest = some t) : After sb t g p T' := by
  simp only [rule, ite_none_right_eq_some, and_eq_true, beq_iff_eq, not_eq_true'] at typed
  obtain ⟨⟨⟨⟨⟨⟨⟨settled, locked⟩, slot⟩, home⟩, pins⟩, outside⟩, recovers⟩, ⟨⟩⟩ := typed
  obtain ⟨b, reg, _⟩ := (now.agrees.regs .head).locked locked
  simp only [execute, reg, bind_eq_bind, bind_some] at hs
  obtain ⟨⟩ := hs
  have booting := now.agrees.recovering.trans recovers
  refine ⟨now.counts.congr rfl rfl rfl ?_, ⟨now.control.ops, now.control.quiet, now.control.busy,
    ?_, ?_, ?_, now.control.dirty⟩, ⟨now.agrees.recovering, ?_, now.agrees.apart, now.agrees.ready, ?_,
    ?_⟩, fun _ _ c pinned _ => ?_⟩
  · simp [pending, booting]
  all_goals try exact fun up => absurd (booting.symm.trans up) (by decide)
  · rintro (_ | _ | _)
    · simp only [Typ.get, slot]
      trivial
    · simp only [Typ.get, home]
      trivial
    · exact regOk_keep (now.agrees.regs .head) (settled_get settled .head) rfl rfl
        fun _ c _ held => ⟨held, fun _ => id, id⟩
  · rw [outside]
    rintro ⟨⟩
  · have holds := now.agrees.pins
    rw [pins] at holds ⊢
    exact holds
  · exact absurd (booting.symm.trans (pending_subset _ _ pinned.2).1) (by decide)

lemma exec_first (typed : rule T .first = some T')
    (hs : execute sb s p .first rest = some t) : After sb t g p T' := by
  simp only [rule, ite_none_right_eq_some, and_eq_true, beq_iff_eq, not_eq_true'] at typed
  obtain ⟨⟨⟨free, pins⟩, outside⟩, ⟨⟩⟩ := typed
  obtain ⟨⟩ := hs
  have kept := now.agrees.pins
  rw [pins] at kept
  refine ⟨now.counts.congr rfl rfl rfl rfl, { now.control with },
    agrees_free now.agrees free free now.agrees.recovering rfl ?_ ⟨kept, rfl⟩,
    fun _ => now.latest (by simp [pins, Pins.gathers])⟩
  rw [outside]
  rintro ⟨⟩

lemma exec_next (typed : rule T .next = some T') (hs : execute sb s p .next rest = some t) : After sb t g p T' := by
  simp only [rule, ite_none_right_eq_some, and_eq_true] at typed
  obtain ⟨⟨free, _⟩, way⟩ := typed
  obtain ⟨⟩ := hs
  have control : Control sb { s with tail := s.tail + 1, code := rest } :=
    { now.control with }
  have holds := now.agrees.pins
  split at way
  case h_1 pins =>
    cases way
    rw [pins] at holds
    refine ⟨now.counts.congr rfl rfl rfl rfl, control, agrees_free now.agrees free free now.agrees.recovering rfl ?_ ?_,
      fun _ => now.latest (by simp [pins, Pins.gathers])⟩
    · rintro ⟨⟩
    · simp only [pins]
      exact holds
  case h_2 pins =>
    cases way
    rw [pins] at holds
    refine ⟨now.counts.congr rfl rfl rfl rfl, control,
      agrees_free now.agrees free free now.agrees.recovering rfl ?_ holds, by simp [Pins.gathers]⟩
    rintro ⟨⟩
  case h_3 => cases way

lemma exec_writeLog (typed : rule T .writeLog = some T')
    (code : Typed T' rest) (hs : execute sb s p .writeLog rest = some t) :
    ∃ U, After sb t g p U ∧ Typed U t.code := by
  simp only [rule, ite_none_right_eq_some, and_eq_true, or_eq_true, beq_iff_eq, not_eq_true'] at typed
  obtain ⟨⟨⟨⟨free, pins⟩, outside⟩, recovers⟩, ⟨⟩⟩ := typed
  have none_left : g.unpinned = 0 ∧ T.pins.gathers = true := by
    have holds := now.agrees.pins
    rcases pins with zero | kept
    · rw [zero] at holds ⊢
      exact ⟨holds.1, rfl⟩
    · rw [kept] at holds ⊢
      exact ⟨holds, rfl⟩
  have up := now.agrees.recovering.trans recovers
  have control : ∀ code, Control sb { s with code := code } := fun code =>
    { now.control with }
  have counts : ∀ code, Counts { s with code := code } g := fun _ => now.counts.congr rfl rfl rfl rfl
  have body : Typed (.empty .kept false) rest := by
    rw [eq_empty free outside, recovers] at code
    exact code
  simp only [execute] at hs
  split_ifs at hs with more
  · cases hs
    exact ⟨{ Typ.empty .kept false with inLoop := true }, ⟨counts _, control _,
      agrees_free now.agrees free rfl up rfl (fun _ => more) none_left.1,
      fun _ => now.latest none_left.2⟩, typed_writeLogBody body⟩
  · cases hs
    refine ⟨.empty .kept false, ⟨counts _, control _,
      agrees_free now.agrees free rfl up rfl ?_ none_left.1, fun _ => now.latest none_left.2⟩, body⟩
    rintro ⟨⟩

end

omit [DecidableEq P] in
lemma install_pins (now : After sb s g p T) (typed : rule T (.install recovering) = some T') :
    s.recovering = recovering ∧ (if recovering then Pins.kept else .atTail).Holds s g := by
  simp only [rule, ite_none_right_eq_some, and_eq_true, or_eq_true, beq_iff_eq] at typed
  obtain ⟨⟨⟨⟨_, pins⟩, _⟩, recovers⟩, _⟩ := typed
  refine ⟨now.agrees.recovering.trans recovers, ?_⟩
  have holds := now.agrees.pins
  rcases pins with zero | there
  · rw [zero] at holds
    cases recovering
    · exact holds.1.trans holds.2.symm
    · exact holds.1
  · rwa [there] at holds

omit [DecidableEq P] in
lemma install_finished (now : After sb s g p T)
    (typed : rule T (.install recovering) = some T') (last : s.lh.length ≤ s.tail) :
    pending s g = [] := by
  obtain ⟨same, holds⟩ := install_pins now typed
  cases recovering with
  | true => simp [pending, same]
  | false =>
    have atTail : g.unpinned = s.tail := holds
    simp only [pending, same, false_eq_true, if_false, atTail]
    exact List.drop_eq_nil_of_le last

lemma exec_install (now : After sb s g p T) (typed : rule T (.install recovering) = some T') (code : Typed T' rest)
    (hs : execute sb s p (.install recovering) rest = some t) :
    ∃ U, After sb t (if s.tail < s.lh.length then g else { g with unpinned := 0 }) p U ∧ Typed U t.code := by
  obtain ⟨same, holds⟩ := install_pins now typed
  have finished := install_finished now typed
  simp only [rule, ite_none_right_eq_some, and_eq_true, or_eq_true, beq_iff_eq, not_eq_true'] at typed
  obtain ⟨⟨⟨⟨free, pins⟩, outside⟩, recovers⟩, ⟨⟩⟩ := typed
  have body : Typed (.empty .cleared recovering) rest := by
    rw [eq_empty free outside, recovers] at code
    exact code
  have gathered : recovering = true → T.pins.gathers = true := by
    rintro rfl
    rcases pins with zero | kept
    · simp [zero, Pins.gathers]
    · simp only [if_true] at kept
      simp [kept, Pins.gathers]
  simp only [execute] at hs
  split_ifs at hs with more
  · cases hs
    rw [if_pos more]
    refine ⟨{ Typ.empty (if recovering then .kept else .atTail) recovering with inLoop := true },
      ⟨now.counts.congr rfl rfl rfl rfl, { now.control with },
        agrees_free now.agrees free rfl same rfl (fun _ => more) ?_, fun gathers => ?_⟩,
      typed_installBody recovering body⟩
    · cases recovering <;> exact holds
    · cases recovering
      · simp [Typ.empty, Pins.gathers] at gathers
      · exact now.latest (gathered rfl)
  · cases hs
    rw [if_neg more]
    have nothing : pending { s with lh := [], code := rest } { g with unpinned := 0 } = [] := by simp [pending]
    refine ⟨.empty .cleared recovering, ⟨now.counts.congr rfl rfl rfl (nothing.trans (finished (by omega)).symm),
      ⟨now.control.ops, now.control.quiet, now.control.busy, fun _ => List.nodup_nil, by simp,
        fun _ => sb.nlog_pos, now.control.dirty⟩,
      agrees_free now.agrees free rfl same rfl ?_ ⟨rfl, rfl⟩, fun _ _ c pinned _ => ?_⟩, body⟩
    · rintro ⟨⟩
    · have mem := pinned.2
      rw [nothing] at mem
      simp at mem

lemma exec_done (now : After sb s g p T)
    (typed : rule T .done = some T') (hs : execute sb s p .done rest = some t) : Inv sb t g := by
  simp only [rule, ite_none_right_eq_some, and_eq_true, beq_iff_eq, not_eq_true'] at typed
  obtain ⟨⟨⟨_, pins⟩, _⟩, ⟨⟩⟩ := typed
  obtain ⟨⟩ := hs
  have cleared := now.agrees.pins
  rw [pins] at cleared
  obtain ⟨unpinned, empty⟩ := cleared
  refine ⟨now.counts.congr rfl rfl rfl ?_, ⟨now.control.ops, by simp, by simp, ?_, ?_, ?_,
    now.control.dirty⟩, unpinned, fun _ c pinned _ => ?_⟩
  · simp [pending, empty]
  · simp [empty]
  · simp [empty]
  · have pos := sb.nlog_pos
    simp only [empty, List.length_nil]
    omega
  · have mem := (pending_subset _ _ pinned.2).2
    simp [empty] at mem

omit [Fintype P] in
lemma execute_control (hs : execute sb s p i rest = some t) :
    (i = .done ∨ t.logger = s.logger) ∧ (i = .writeLog ∨ (∃ r, i = .install r) ∨ t.code = rest) := by
  cases i <;> simp only [execute, bgetFor, bind_eq_bind, bind_eq_some_iff,
    map_eq_some_iff, pure_def, ite_none_right_eq_some, some.injEq] at hs
  case bget r =>
    obtain ⟨⟨u, b⟩, got, rfl⟩ := hs
    split at got
    · cases got
      exact ⟨.inr rfl, .inr (.inr rfl)⟩
    · cases got
  case writeLog => split_ifs at hs <;> cases hs <;> exact ⟨.inr rfl, .inl rfl⟩
  case install r => split_ifs at hs <;> cases hs <;> exact ⟨.inr rfl, .inr (.inl ⟨r, rfl⟩)⟩
  case copy dst src =>
    obtain ⟨_, _, _, _, _, rfl⟩ := hs
    exact ⟨.inr rfl, .inr (.inr rfl)⟩
  case done =>
    subst hs
    exact ⟨.inl rfl, .inr (.inr rfl)⟩
  case first =>
    subst hs
    exact ⟨.inr rfl, .inr (.inr rfl)⟩
  case next =>
    subst hs
    exact ⟨.inr rfl, .inr (.inr rfl)⟩
  case drop r =>
    obtain ⟨_, _, rfl⟩ := hs
    exact ⟨.inr rfl, .inr (.inr rfl)⟩
  case bunpin =>
    obtain ⟨_, _, rfl⟩ := hs
    exact ⟨.inr rfl, .inr (.inr rfl)⟩
  case readHead =>
    obtain ⟨_, _, rfl⟩ := hs
    exact ⟨.inr rfl, .inr (.inr rfl)⟩
  all_goals
    obtain ⟨_, _, _, rfl⟩ := hs
    exact ⟨.inr rfl, .inr (.inr rfl)⟩

omit [DecidableEq P] in
lemma inv_of_after (now : After sb t g p T) (logs : t.logger = some p) (typed : Typed T t.code) : Inv sb t g := by
  refine ⟨now.counts, now.control, ?_⟩
  simp only [LogOk, logs]
  exact ⟨T, now.agrees, typed, now.latest⟩

lemma inv_log (small : Fintype.card P + 3 < 2 ^ 32) (h : Inv sb s g)
    (hs : BufMachine.Step sb s .log t) : Inv sb t (g.record s .log) := by
  simp only [BufMachine.Step, BufMachine.next] at hs
  split at hs
  case h_2 => cases hs
  case h_1 p i rest logs code =>
    have log := h.log
    simp only [LogOk, logs, code] at log
    obtain ⟨T, agrees, typed, latest⟩ := log
    have now : After sb s g p T := ⟨h.counts, h.control, agrees, latest⟩
    have control := execute_control hs
    simp only [Typed] at typed
    split at typed
    case h_2 => exact typed.elim
    case h_1 T' ok =>
      simp only [Notes.record, code]
      cases i
      case done => exact exec_done now ok hs
      all_goals
        simp only [reduceCtorEq, false_or, Instr.install.injEq, exists_eq', true_or, and_true, exists_const] at control
      case writeLog =>
        obtain ⟨U, after, next⟩ := exec_writeLog now ok typed hs
        exact inv_of_after after (control.trans logs) next
      case install r =>
        obtain ⟨U, after, next⟩ := exec_install now ok typed hs
        exact inv_of_after after (control.trans logs) next
      all_goals
        obtain ⟨logger, next⟩ := control
        refine inv_of_after ?_ (logger.trans logs) (next ▸ typed)
      case bget r => exact exec_bget small now ok hs
      case acquire r => exact exec_acquire now ok hs
      case release r => exact exec_release now logs ok hs
      case drop r => exact exec_drop now ok hs
      case copy dst src => exact exec_copy now ok hs
      case bunpin => exact exec_bunpin now ok hs
      case readHead => exact exec_readHead now ok hs
      case writeHead => exact exec_writeHead now ok hs
      case first => exact exec_first now ok hs
      case next => exact exec_next now ok hs

end

end Xv6.BufExec
