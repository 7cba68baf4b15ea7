import Xv6.BufPin

/-! Coherence of the buffer cache. A valid buffer that no process holds and
whose block is not in the transaction agrees with the disk, as long as no user
copy of `writei` fails after it has changed the buffer. -/

namespace Xv6.BufCoherent
open Params BioMachine BioCache BufMachine BufCount BufLog BufExec BufPin Runs Function Option
open LogMachine (Block)
open FsMachine (copied)
open ByteFields (zeros byteAt)

variable {n : Nat} {P : Type}

def Coherent (s : State n P) (g : Notes) : Prop :=
  ∀ b, valid s b = true → s.dirty b = false → ¬ Pinned s g b → s.data b = s.disk (blockno s b)

section
variable {sb : Super} {s t : State n P} {g g' : Notes} {b : Fin n} {p : P} {k : UInt32}

lemma Coherent.congr (h : Coherent s g) (kept : ∀ c, valid t c = true → t.dirty c = false → ¬ Pinned t g' c →
      (Stays s t c ∧ s.dirty c = false ∧ ¬ Pinned s g c ∧ t.data c = s.data c ∧
        t.disk (blockno s c) = s.disk (blockno s c)) ∨ t.data c = t.disk (blockno t c)) :
    Coherent t g' := by
  intro c ok clean unpinned
  rcases kept c ok clean unpinned with ⟨stays, clean', unpinned', data, disk⟩ | written
  · rw [data, stays.blockno, disk]
    exact h c (stays.valid ▸ ok) clean' unpinned'
  · exact written

variable [Fintype P] [DecidableEq P]

lemma Coherent.bget (counts : Counts s g) (h : Coherent s g) (hs : bgetFor s p k = some (t, b)) : Coherent t g := by
  obtain ⟨⟨c, rfl, _⟩, ⟨_, hit⟩ | ⟨_, _, miss⟩⟩ := counts.bgetFor_cases hs
  · have stays := stays_count (s := s) (by rw [hit]; rfl)
    refine h.congr fun x _ clean unpinned => .inl ⟨stays x, clean, fun pinned => unpinned ?_, rfl, rfl⟩
    exact ⟨(stays x).dev.trans pinned.1, (stays x).blockno ▸ pinned.2⟩
  · obtain rfl : c = _ := miss
    refine h.congr fun x ok clean unpinned => .inl ?_
    have other : x ≠ b := by
      rintro rfl
      simp [BufMachine.valid, Cache.set] at ok
    have stays : Stays s { s with
      cache := s.cache.set b ⟨false, rootDev, k, 1⟩
      busy := update s.busy p (.waiting b) } x := by
      constructor <;> simp [BufMachine.blockno, BufMachine.valid, Cache.set, update_of_ne other]
    refine ⟨stays, clean, fun pinned => unpinned ?_, rfl, rfl⟩
    exact ⟨stays.dev.trans pinned.1, stays.blockno ▸ pinned.2⟩

omit [Fintype P] in
lemma Coherent.acquire (h : Coherent s g) : Coherent (acquireFor s p b) g := by
  refine h.congr fun x ok clean unpinned => ?_
  by_cases e : x = b
  · subst e
    have blockno' : blockno (acquireFor s p x) x = blockno s x := by
      simp [BufMachine.blockno, acquireFor, Cache.set]
    have dev : ((acquireFor s p x).cache.buf x).dev = (s.cache.buf x).dev := by simp [acquireFor, Cache.set]
    right
    rw [blockno']
    by_cases filled : valid s x = true
    · have old := h x filled clean fun pinned => unpinned ⟨dev.trans pinned.1, blockno' ▸ pinned.2⟩
      simpa [acquireFor, filled] using old
    · simp [acquireFor, filled]
  · have stays := acquireFor_stays (s := s) (p := p) e
    refine .inl ⟨stays, clean, fun pinned => unpinned ?_, acquireFor_data e, rfl⟩
    exact ⟨stays.dev.trans pinned.1, stays.blockno ▸ pinned.2⟩

omit [Fintype P] in
lemma Coherent.drop (h : Coherent s g) : Coherent (dropFor s p b) g := by
  have stays := stays_count (t := dropFor s p b) (brelse_buf s.cache b)
  refine h.congr fun x _ clean unpinned => .inl ⟨stays x, clean, fun pinned => unpinned ?_, rfl, rfl⟩
  exact ⟨(stays x).dev.trans pinned.1, (stays x).blockno ▸ pinned.2⟩

omit [DecidableEq P] in
/-- A buffer that is written out agrees with the disk, and no other buffer
carries its block. -/
lemma Coherent.bwrite (counts : Counts s g) (h : Coherent s g) (mine : s.holder b = some p)
    (data) : Coherent (bwrite s b data) g := by
  have root := counts.dev_eq (.inl (users_pos_holder mine))
  refine h.congr fun x ok clean unpinned => ?_
  by_cases e : x = b
  · subst e
    right
    change update s.data x data x = update s.disk (blockno s x) data (blockno s x)
    rw [update_self, update_self]
  · have dev := (counts.rooted x).resolve_right fun free => by
      have valid : BufMachine.valid s x = true := ok
      simp [free.1] at valid
    have apart : blockno s x ≠ blockno s b := fun same =>
      e (counts.rep.unique (by rw [dev]; decide) (dev.trans root.symm) same)
    exact .inl ⟨⟨rfl, rfl, rfl⟩, clean, unpinned, update_of_ne e .., update_of_ne apart ..⟩

omit [Fintype P] [DecidableEq P] in
lemma Coherent.same (h : Coherent s g) (cache : t.cache = s.cache) (data : t.data = s.data)
    (dirty : t.dirty = s.dirty) (disk : t.disk = s.disk)
    (more : ∀ k ∈ pending s g, k ∈ pending t g') : Coherent t g' := by
  refine h.congr fun c _ clean unpinned => .inl ⟨⟨?_, ?_, ?_⟩, dirty ▸ clean, fun pinned => unpinned ?_,
    by rw [data], by rw [disk]⟩
  · rw [cache]
  · simp [BufMachine.blockno, cache]
  · simp [BufMachine.valid, cache]
  · simpa only [Pinned, BufMachine.blockno, cache] using (⟨pinned.1, more _ pinned.2⟩ : _ ∧ _)

lemma Coherent.log (inv : Inv sb s g) (h : Coherent s g) (hs : BufMachine.Step sb s .log t) :
    Coherent t (g.record s .log) := by
  have hs' := hs
  simp only [BufMachine.Step, BufMachine.next] at hs
  split at hs
  case h_2 => cases hs
  case h_1 p i rest logs code =>
    obtain ⟨p', T, T', logs', now, typed, _⟩ := logger_typed inv code hs'
    obtain rfl : p = p' := some.inj (logs.symm.trans logs')
    simp only [Notes.record, code]
    cases i <;> simp only [execute, bind_eq_bind, bind_eq_some_iff,
      map_eq_some_iff, pure_def, ite_none_right_eq_some, some.injEq] at hs
    case bget r =>
      obtain ⟨⟨u, b⟩, got, rfl⟩ := hs
      exact (h.bget inv.counts got).same rfl rfl rfl rfl fun _ => id
    case acquire r =>
      obtain ⟨b, _, _, rfl⟩ := hs
      exact (h.acquire (p := p)).same rfl rfl rfl rfl fun _ => id
    case release r =>
      obtain ⟨b, _, _, rfl⟩ := hs
      exact h.same rfl rfl rfl rfl fun _ => id
    case drop r =>
      obtain ⟨b, _, rfl⟩ := hs
      exact (h.drop (p := p)).same rfl rfl rfl rfl fun _ => id
    case copy dst src =>
      obtain ⟨b, _, c, _, mine, rfl⟩ := hs
      exact (h.bwrite inv.counts mine (s.data c)).same rfl rfl rfl rfl fun _ => id
    case writeHead =>
      obtain ⟨b, _, mine, rfl⟩ := hs
      exact (h.bwrite inv.counts mine _).same rfl rfl rfl rfl fun _ => id
    case bunpin =>
      obtain ⟨b, u⟩ := unpins_of_typed now typed
      obtain ⟨b', reg, rfl⟩ := hs
      obtain rfl : b = b' := some.inj (u.reg.symm.trans reg)
      have stays := stays_count (t := { s with cache := BioMachine.bunpin s.cache b, code := rest }) rfl
      refine h.congr fun c _ clean unpinned => ?_
      by_cases e : c = b
      · subst e
        right
        rw [(stays c).blockno]
        exact u.written
      · refine .inl ⟨stays c, clean, fun pinned => unpinned ⟨(stays c).dev.trans pinned.1, ?_⟩, rfl, rfl⟩
        have apart : blockno s c ≠ blockno s b := fun same => e (inv.same_buffer u.dev pinned.1 same)
        have mem := pinned.2
        rw [u.first] at mem
        rw [u.pending_next, (stays c).blockno]
        exact (List.mem_cons.mp mem).resolve_left apart
    case readHead =>
      simp only [rule, ite_none_right_eq_some, Bool.and_eq_true] at typed
      obtain ⟨b, _, rfl⟩ := hs
      refine h.same rfl rfl rfl rfl fun k hk => ?_
      have up := now.agrees.recovering.trans typed.1.2
      simp [pending, up] at hk
    case install r =>
      split_ifs at hs ⊢ with more <;> cases hs
      · exact h.same rfl rfl rfl rfl fun _ => id
      · refine h.same rfl rfl rfl rfl fun k hk => ?_
        rw [install_finished now typed (by omega)] at hk
        simp at hk
    case done =>
      simp only [rule, ite_none_right_eq_some, Bool.and_eq_true, beq_iff_eq] at typed
      subst hs
      refine h.same rfl rfl rfl rfl fun k hk => ?_
      have cleared := now.agrees.pins
      rw [typed.1.1.2] at cleared
      simpa [cleared.2] using (pending_subset _ _ hk).2
    case writeLog => split_ifs at hs <;> cases hs <;> exact h.same rfl rfl rfl rfl fun _ => id
    all_goals
      subst hs
      exact h.same rfl rfl rfl rfl fun _ => id

omit [Fintype P] [DecidableEq P] in
lemma Coherent.store (h : Coherent s g) (data) : Coherent { s with
    data := update s.data b data
    dirty := update s.dirty b true } g := by
  refine h.congr fun c _ clean unpinned => .inl ?_
  have other : c ≠ b := by
    rintro rfl
    simp at clean
  exact ⟨⟨rfl, rfl, rfl⟩, by simpa [update_of_ne other] using clean, unpinned, update_of_ne other .., rfl⟩

omit [DecidableEq P] in
lemma Coherent.logWrite (inv : Inv sb s g) (h : Coherent s g) (op : s.op p = true) (mine : s.holder b = some p) :
    Coherent { logBlock s b with dirty := update s.dirty b false } { g with latest := latest } := by
  have free := inv.logger_none op
  have up := (inv.up_of_free free).1
  have none_left := (inv.gathering free).1
  have root := inv.counts.dev_eq (.inl (users_pos_holder mine))
  have stays : ∀ c, Stays s { logBlock s b with dirty := update s.dirty b false } c := by
    intro c
    unfold logBlock
    split_ifs
    · exact ⟨rfl, rfl, rfl⟩
    · exact stays_count rfl c
  have data : (logBlock s b).data = s.data ∧ (logBlock s b).disk = s.disk := by
    unfold logBlock
    split_ifs <;> exact ⟨rfl, rfl⟩
  have listed : ∀ k, k ∈ pending { logBlock s b with dirty := update s.dirty b false }
    { g with latest := latest } ↔ k ∈ s.lh ∨ k = blockno s b := by
    intro k
    unfold logBlock
    split_ifs with absorbed
    · simp only [pending, up, none_left, Bool.false_eq_true, if_false, List.drop_zero]
      exact ⟨.inl, fun hk => hk.elim id fun e => e ▸ absorbed⟩
    · simp [pending, up, none_left]
  refine h.congr fun c _ clean unpinned => .inl ?_
  have other : c ≠ b := by
    rintro rfl
    exact unpinned ⟨(stays c).dev.trans root, (listed _).mpr (.inr (stays c).blockno)⟩
  refine ⟨stays c, by simpa [update_of_ne other] using clean, fun pinned => unpinned ?_,
    congrFun data.1 c, congrFun data.2 _⟩
  refine ⟨(stays c).dev.trans pinned.1, (listed _).mpr (.inl ?_)⟩
  rw [(stays c).blockno]
  exact (pending_subset _ _ pinned.2).2

lemma coherent_step (inv : Inv sb s g) (h : Coherent s g) (harmless : Harmless s a)
    (hs : BufMachine.Step sb s a t) : Coherent t (g.record s a) := by
  cases a
  case log => exact h.log inv hs
  all_goals simp only [BufMachine.Step, BufMachine.next, ite_none_right_eq_some] at hs
  case bget p k =>
    obtain ⟨⟨u, b⟩, got, rfl⟩ := map_eq_some_iff.mp hs.2
    exact h.bget inv.counts got
  case acquire p b =>
    obtain ⟨_, ⟨⟩⟩ := hs
    exact h.acquire
  case release p b =>
    obtain ⟨_, ⟨⟩⟩ := hs
    exact h.same rfl rfl rfl rfl fun _ => id
  case drop p b =>
    obtain ⟨_, ⟨⟩⟩ := hs
    exact h.drop
  case beginOp p =>
    obtain ⟨_, ⟨⟩⟩ := hs
    exact h.same rfl rfl rfl rfl fun _ => id
  case store p b data =>
    obtain ⟨_, ⟨⟩⟩ := hs
    exact h.store data
  case copyin p b off m src =>
    obtain ⟨_, ⟨⟩⟩ := hs
    split_ifs with fails
    · rw [harmless fails, update_eq_self]
      exact h.same rfl rfl rfl rfl fun _ => id
    · exact h.store _
  case logWrite p b =>
    obtain ⟨⟨⟨_, _, op, mine, _⟩, _⟩, ⟨⟩⟩ := hs
    exact h.logWrite inv op mine
  case endOp p =>
    obtain ⟨_, hs⟩ := hs
    split_ifs at hs <;> cases hs <;> exact h.same rfl rfl rfl rfl fun _ => id

end

def view (s : State n P) (k : UInt32) : Block :=
  match (List.finRange n).find? fun b =>
    (s.cache.buf b).dev == rootDev && blockno s b == k && valid s b with
  | some b => s.data b
  | none => s.disk k

def Reads : Act n P → Prop
  | .bget _ _ | .acquire _ _ | .release _ _ | .drop _ _ => True
  | .copyin _ _ _ m src => copyinFails m src
  | _ => False

section
variable {sb : Super} {s t : State n P} {g : Notes} {b : Fin n} {p : P} {k : UInt32}

lemma view_of_valid (rep : Rep s.cache) (has : Carries s b k) (ok : valid s b = true) : view s k = s.data b := by
  unfold view
  split
  case h_1 c found =>
    have here := List.find?_some found
    simp only [Bool.and_eq_true, beq_iff_eq] at here
    have same : c = b := rep.unique (by rw [here.1.1]; decide) (here.1.1.trans has.1.symm)
      (here.1.2.trans has.2.symm)
    rw [same]
  case h_2 missing =>
    have absent := List.find?_eq_none.mp missing b (List.mem_finRange b)
    simp [has.1, has.2, ok] at absent

lemma view_of_absent (absent : ∀ b, Carries s b k → valid s b = false) : view s k = s.disk k := by
  unfold view
  split
  case h_1 c found =>
    have here := List.find?_some found
    simp only [Bool.and_eq_true, beq_iff_eq] at here
    have invalid := absent c ⟨here.1.1, here.1.2⟩
    simp [here.2] at invalid
  case h_2 => rfl

lemma view_congr (rep : Rep s.cache) (rep' : Rep t.cache) (stays : ∀ c, Carries s c k ∨ Carries t c k →
    Stays s t c ∧ t.data c = s.data c) (disk : t.disk = s.disk) : view t k = view s k := by
  by_cases cached : ∃ c, Carries s c k ∧ valid s c = true
  · obtain ⟨c, has, ok⟩ := cached
    obtain ⟨stays, data⟩ := stays c (.inl has)
    rw [view_of_valid rep has ok, view_of_valid rep' (stays.carries has) (stays.valid.trans ok), data]
  · have absent : ∀ c, Carries s c k → valid s c = false := fun c has => by
      simpa using fun ok => cached ⟨c, has, ok⟩
    have absent' : ∀ c, Carries t c k → valid t c = false := fun c has => by
      obtain ⟨stays, _⟩ := stays c (.inr has)
      rw [stays.valid]
      exact absent c ⟨stays.dev.symm.trans has.1, stays.blockno.symm.trans has.2⟩
    rw [view_of_absent absent, view_of_absent absent', disk]

lemma clean_of_unheld [Fintype P] (control : Control sb s) (unheld : ∀ q, s.holder b ≠ some q) : s.dirty b = false := by
  cases dirty : s.dirty b with
  | false => rfl
  | true =>
    obtain ⟨q, held, _⟩ := control.dirty b dirty
    exact absurd held (unheld q)

variable [Fintype P] [DecidableEq P]

lemma view_bget (inv : Inv sb s g) (inv' : Inv sb t g) (h : Coherent s g)
    (hs : bgetFor s p j = some (t, b)) (k) : view t k = view s k := by
  obtain ⟨⟨c, rfl, _⟩, ⟨_, hit⟩ | ⟨_, free, miss⟩⟩ := inv.counts.bgetFor_cases hs
  · have stays := stays_count (s := s) (by rw [hit]; rfl)
    exact view_congr inv.counts.rep inv'.counts.rep (fun c _ => ⟨stays c, rfl⟩) rfl
  · obtain rfl : c = _ := miss
    have others : ∀ x, x ≠ b → Stays s { s with
      cache := s.cache.set b ⟨false, rootDev, j, 1⟩
      busy := update s.busy p (.waiting b) } x := by
      intro x other
      constructor <;> simp [BufMachine.blockno, BufMachine.valid, Cache.set, update_of_ne other]
    have before : ∀ x, x ≠ b → Carries { s with
      cache := s.cache.set b ⟨false, rootDev, j, 1⟩
      busy := update s.busy p (.waiting b) } x k → Carries s x k := fun x other has =>
      ⟨(others x other).dev.symm.trans has.1, (others x other).blockno.symm.trans has.2⟩
    have empty : valid { s with
      cache := s.cache.set b ⟨false, rootDev, j, 1⟩
      busy := update s.busy p (.waiting b) } b = false := by
      simp [BufMachine.valid, Cache.set]
    by_cases cached : ∃ c, c ≠ b ∧ Carries s c k ∧ valid s c = true
    · obtain ⟨c, other, has, ok⟩ := cached
      rw [view_of_valid inv.counts.rep has ok]
      exact view_of_valid inv'.counts.rep ((others c other).carries has) ((others c other).valid.trans ok)
    · have absent : ∀ x, x ≠ b → Carries s x k → valid s x = false := fun x other has => by
        simpa using fun ok => cached ⟨x, other, has, ok⟩
      have now : view { s with
        cache := s.cache.set b ⟨false, rootDev, j, 1⟩
        busy := update s.busy p (.waiting b) } k = s.disk k := by
        refine view_of_absent fun x has => ?_
        by_cases e : x = b
        · rw [e, empty]
        · rw [(others x e).valid]
          exact absent x e (before x e has)
      rw [now]
      by_cases recycled : Carries s b k ∧ valid s b = true
      · obtain ⟨has, ok⟩ := recycled
        have unused : ¬ (0 < users s b ∨ Pinned s g b) := fun used => inv.counts.refcnt_ne_zero used free
        have clean := clean_of_unheld inv.control fun q held => unused (.inl (users_pos_holder held))
        rw [view_of_valid inv.counts.rep has ok, h b ok clean fun pinned => unused (.inr pinned), has.2]
      · refine (view_of_absent fun x has => ?_).symm
        by_cases e : x = b
        · subst e
          simpa using fun ok => recycled ⟨has, ok⟩
        · exact absent x e has

lemma view_acquire (inv : Inv sb s g) (inv' : Inv sb (acquireFor s p b) g) (k) :
    view (acquireFor s p b) k = view s k := by
  have carries : ∀ c, Carries (acquireFor s p b) c k → Carries s c k := by
    intro c has
    simp only [Carries, BufMachine.blockno, acquireFor, Cache.set, update_apply] at has ⊢
    split_ifs at has with e
    · subst e
      exact has
    · exact has
  by_cases filled : Carries s b k ∧ valid s b = false
  · obtain ⟨has, empty⟩ := filled
    have absent : ∀ c, Carries s c k → valid s c = false := fun c old =>
      inv.same_buffer has.1 old.1 (old.2.trans has.2.symm) ▸ empty
    have now : valid (acquireFor s p b) b = true := by simp [BufMachine.valid, acquireFor, Cache.set]
    rw [view_of_absent absent, view_of_valid inv'.counts.rep (acquireFor_carries has) now]
    simp [acquireFor, empty, has.2]
  · refine view_congr inv.counts.rep inv'.counts.rep (fun c has => ?_) rfl
    have old : Carries s c k := has.elim id (carries c)
    by_cases e : c = b
    · subst e
      have ok : valid s c = true := by simpa using fun empty => filled ⟨old, empty⟩
      refine ⟨⟨?_, ?_, ?_⟩, ?_⟩
      · simp [acquireFor, Cache.set]
      · simp [BufMachine.blockno, acquireFor, Cache.set]
      · rw [ok]
        simp [BufMachine.valid, acquireFor, Cache.set]
      · simp [acquireFor, ok]
    · exact ⟨acquireFor_stays e, acquireFor_data e⟩

lemma view_reads (small : Fintype.card P + 3 < 2 ^ 32) (inv : Inv sb s g) (h : Coherent s g)
    (hs : BufMachine.Step sb s a t) (harmless : Harmless s a) (reads : Reads a)
    (k) : view t k = view s k := by
  have inv' := inv_step small inv hs
  cases a
  all_goals simp only [BufMachine.Step, BufMachine.next, ite_none_right_eq_some] at hs
  case bget p j =>
    obtain ⟨⟨u, b⟩, got, rfl⟩ := map_eq_some_iff.mp hs.2
    exact view_bget inv inv' h got k
  case acquire p b =>
    obtain ⟨_, ⟨⟩⟩ := hs
    exact view_acquire inv inv' k
  case release p b =>
    obtain ⟨_, ⟨⟩⟩ := hs
    rfl
  case drop p b =>
    obtain ⟨_, ⟨⟩⟩ := hs
    have stays := stays_count (t := dropFor s p b) (brelse_buf s.cache b)
    exact view_congr inv.counts.rep inv'.counts.rep (fun c _ => ⟨stays c, rfl⟩) rfl
  case copyin p b off m src =>
    obtain ⟨_, ⟨⟩⟩ := hs
    refine view_congr inv.counts.rep inv'.counts.rep (fun c _ => ⟨⟨rfl, rfl, rfl⟩, ?_⟩) rfl
    rw [harmless reads, update_eq_self]
  all_goals exact reads.elim

end

/-- Coherence of the cache, in every state that is reached by steps in which no failed user copy
changes a buffer. Reading a block and a failed user copy leave what any later reader sees. -/
theorem cache_coherent (sb : Super) (boot : Fin nproc) (disk : UInt32 → Block)
    (acts : List (Act n (Fin nproc))) (s : State n (Fin nproc))
    (run : Run (Meets (BufMachine.Step sb) Harmless) (start boot disk) acts s) :
    (∀ b, valid s b = true → s.holder b = none → blockno s b ∉ s.lh → s.data b = s.disk (blockno s b)) ∧
    ∀ a t, BufMachine.Step sb s a t → Harmless s a → Reads a → ∀ k, view t k = view s k := by
  have small : Fintype.card (Fin nproc) + 3 < 2 ^ 32 := by
    rw [Fintype.card_fin]
    decide
  obtain ⟨g, noted⟩ : ∃ g, Run (Recorded (Meets (BufMachine.Step sb) Harmless) Notes.record)
    (start boot disk, ⟨0, disk, False⟩) acts (s, g) := run.recorded _
  obtain ⟨inv, coherent⟩ : Inv sb s g ∧ Coherent s g := by
    refine noted.invariant (fun x => Inv sb x.1 x.2 ∧ Coherent x.1 x.2) ?_ ⟨inv_start sb boot disk disk, by rintro b ⟨⟩⟩
    rintro ⟨s, g⟩ a ⟨t, g'⟩ ⟨inv, coherent⟩ ⟨⟨hs, harmless⟩, rfl⟩
    exact ⟨inv_step small inv hs, coherent_step inv coherent harmless hs⟩
  refine ⟨fun b ok free unlogged => ?_, fun a t hs harmless reads => view_reads small inv coherent hs harmless reads⟩
  refine coherent b ok (clean_of_unheld inv.control fun q held => ?_) fun pinned => ?_
  · simp [free] at held
  · exact unlogged (pending_subset _ _ pinned.2).2

/-- After the boot one process copies `m` bytes from `src` into the buffer 1 of
three, for block 40, and releases the buffer. -/
def userCopy (m : Nat) (src : Nat → Option UInt8) : List (Act 3 (Fin nproc)) :=
  List.replicate 13 .log ++
    [.beginOp 0, .bget 0 40, .acquire 0 1, .copyin 0 1 0 m src, .release 0 1, .drop 0 1]

theorem cache_coherent_unmapped : ∃ s : State 3 (Fin nproc),
    Run (Meets (BufMachine.Step mkfsSuper) Harmless) (start 0 fun _ => zeros bsize) (userCopy 8 fun _ => none) s ∧
    valid s 1 = true ∧ s.data 1 = s.disk 40 := by
  have done : ((exec (BufMachine.next mkfsSuper) (start 0 fun _ => zeros bsize)
    (userCopy 8 fun _ => none)).map fun s => (valid s 1, s.holder 1, blockno s 1, s.lh)) =
    some (true, none, 40, []) := by
    decide +kernel
  obtain ⟨s, hs, facts⟩ := Option.map_eq_some_iff.mp done
  simp only [Prod.mk.injEq] at facts
  obtain ⟨ok, free, blockno, lh⟩ := facts
  have run : Run (Meets (BufMachine.Step mkfsSuper) Harmless)
    (start 0 fun _ => zeros bsize) (userCopy 8 fun _ => none) s := by
    refine (run_of_exec _ hs).meets fun a ha s => ?_
    simp only [userCopy, List.mem_append, List.mem_replicate, List.mem_cons, List.not_mem_nil, or_false] at ha
    rcases ha with ⟨_, rfl⟩ | rfl | rfl | rfl | rfl | rfl | rfl
    case inr.inr.inr.inr.inl =>
      intro _
      funext i
      simp [copyinData, copied, ByteFields.pokeBytes]
    all_goals trivial
  have coherent := (cache_coherent mkfsSuper 0 _ _ s run).1 1 ok free (by simp [lh])
  exact ⟨s, run, ok, blockno ▸ coherent⟩

/-- A source of 8 bytes, the last 4 unmapped: the copy fails, and the first 4 stay in the buffer for a
reader to see, until it is recycled. -/
theorem stale_bytes_after_failed_copy : ∃ s t : State 3 (Fin nproc),
    Run (BufMachine.Step mkfsSuper) (start 0 fun _ => zeros bsize)
      (userCopy 8 fun x => if x < 4 then some 7 else none) s ∧
    valid s 1 = true ∧ s.holder 1 = none ∧ blockno s 1 = 40 ∧ s.lh = [] ∧
    byteAt (s.data 1) 0 = 7 ∧ byteAt (s.disk 40) 0 = 0 ∧
    byteAt (view s 40) 0 = 7 ∧
    Run (BufMachine.Step mkfsSuper) s [.bget 1 41, .bget 2 42, .bget 3 43] t ∧
    byteAt (view t 40) 0 = 0 := by
  have done : ((exec (BufMachine.next mkfsSuper) (start 0 fun _ => zeros bsize)
    (userCopy 8 fun x => if x < 4 then some 7 else none)).bind fun s =>
      (exec (BufMachine.next mkfsSuper) s [.bget 1 41, .bget 2 42, .bget 3 43]).map fun t =>
        (valid s 1, s.holder 1, blockno s 1, s.lh, [byteAt (s.data 1) 0, byteAt (s.disk 40) 0, byteAt (view s 40) 0,
          byteAt (view t 40) 0])) =
    some (true, none, 40, [], [7, 0, 7, 0]) := by
    decide +kernel
  obtain ⟨s, hs, done⟩ := Option.bind_eq_some_iff.mp done
  obtain ⟨t, ht, facts⟩ := Option.map_eq_some_iff.mp done
  simp only [Prod.mk.injEq, List.cons.injEq, and_true] at facts
  obtain ⟨ok, free, blockno, lh, data, disk, seen, later⟩ := facts
  exact ⟨s, t, run_of_exec _ hs, ok, free, blockno, lh, data, disk, seen, run_of_exec _ ht, later⟩

end Xv6.BufCoherent
