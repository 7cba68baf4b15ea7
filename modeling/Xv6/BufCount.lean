import Mathlib.Algebra.Order.BigOperators.Group.Finset
import Xv6.BioCache
import Xv6.BufMachine
import Xv6.Counting

/-! The reference counts of the buffers. A buffer is counted once for the
process that holds its lock, once for each process in the middle of `bread` or
`brelse` of it, and once while its block is logged and not yet unpinned. -/

namespace Xv6.BufCount
open Params BioMachine BioCache BufMachine Counting
open Function (update update_apply update_of_ne update_self)
open LogMachine (Block)

variable {n : Nat} {P : Type}

/-- A user copy that fails has not changed the buffer. -/
def Harmless (s : State n P) : Act n P → Prop
  | .copyin _ b off m src => copyinFails m src → copyinData s b off m src = s.data b
  | _ => True

/-- How many blocks the running `installTrans` has unpinned, the contents of each block at its latest
`logWrite`, and whether a user copy has failed after it had changed a buffer. -/
structure Notes where
  unpinned : Nat
  latest : UInt32 → Block
  torn : Prop

def Notes.record (s : State n P) (g : Notes) : Act n P → Notes
  | .logWrite _ b => { g with latest := Function.update g.latest (blockno s b) (s.data b) }
  | .copyin p b off m src => { g with torn := g.torn ∨ ¬ Harmless s (.copyin p b off m src) }
  | .log =>
    match s.code with
    | .bunpin :: _ => { g with unpinned := g.unpinned + 1 }
    | .install _ :: _ => if s.tail < s.lh.length then g else { g with unpinned := 0 }
    | _ => g
  | _ => g

def pending (s : State n P) (g : Notes) : List UInt32 :=
  if s.recovering then [] else s.lh.drop g.unpinned

def Carries (s : State n P) (b : Fin n) (k : UInt32) : Prop :=
  (s.cache.buf b).dev = rootDev ∧ blockno s b = k

def Pinned (s : State n P) (g : Notes) (b : Fin n) : Prop :=
  (s.cache.buf b).dev = rootDev ∧ blockno s b ∈ pending s g

instance (s : State n P) (g : Notes) (b : Fin n) : Decidable (Pinned s g b) :=
  inferInstanceAs (Decidable (_ ∧ _))

def pin (s : State n P) (g : Notes) (b : Fin n) : Nat := if Pinned s g b then 1 else 0

def lock (holder : Option P) : Nat := if holder.isSome then 1 else 0

def flight (b : Fin n) (v : Busy n) : Nat := if v = .waiting b ∨ v = .releasing b then 1 else 0

def users [Fintype P] (s : State n P) (b : Fin n) : Nat :=
  lock (s.holder b) + ∑ p, flight b (s.busy p)

structure Counts [Fintype P] (s : State n P) (g : Notes) : Prop where
  rep : Rep s.cache
  counted : ∀ b, (s.cache.buf b).refcnt.toNat = users s b + pin s g b
  rooted : ∀ b, (s.cache.buf b).dev = rootDev ∨ valid s b = false ∧ (s.cache.buf b).refcnt = 0
  held : ∀ b q, s.holder b = some q → valid s b = true
  cached : ∀ k ∈ pending s g, ∃ b, Carries s b k ∧ valid s b = true

@[simp] lemma flight_ready (b : Fin n) : flight b .ready = 0 := by simp [flight]

@[simp] lemma flight_waiting (b c : Fin n) : flight b (.waiting c) = if c = b then 1 else 0 := by simp [flight]

@[simp] lemma flight_releasing (b c : Fin n) : flight b (.releasing c) = if c = b then 1 else 0 := by
  simp [flight]

section
variable [Fintype P] {s t : State n P} {b : Fin n} {p : P}

lemma sum_flight_le (s : State n P) (b) : ∑ p, flight b (s.busy p) ≤ Fintype.card P := by
  calc
    _ ≤ ∑ _p : P, 1 := Finset.sum_le_sum fun p _ => by unfold flight; split_ifs <;> omega
    _ = _ := by simp

lemma users_le (s : State n P) (g : Notes) (b) : users s b + pin s g b ≤ Fintype.card P + 2 := by
  have flights := sum_flight_le s b
  have locks : lock (s.holder b) ≤ 1 := by unfold lock; split_ifs <;> omega
  have pins : pin s g b ≤ 1 := by unfold pin; split_ifs <;> omega
  unfold users
  omega

lemma users_pos_of_flight (p) (h : flight b (s.busy p) = 1) : 0 < users s b := by
  have one := Finset.single_le_sum (f := fun q => flight b (s.busy q)) (fun _ _ => Nat.zero_le _) (Finset.mem_univ p)
  unfold users
  omega

lemma users_pos_holder (h : s.holder b = some p) : 0 < users s b := by simp [users, lock, h]

lemma sum_flight_update [DecidableEq P] (s : State n P) (p) (v : Busy n) (b) :
    ∑ q, flight b (update s.busy p v q) + flight b (s.busy p) = ∑ q, flight b (s.busy q) + flight b v :=
  sum_update (flight b) s.busy p v

end

structure Stays (s t : State n P) (b : Fin n) : Prop where
  dev : (t.cache.buf b).dev = (s.cache.buf b).dev
  blockno : blockno t b = blockno s b
  valid : valid t b = valid s b

lemma Stays.pin (h : Stays s t b) (same : pending t g' = pending s g) : pin t g' b = pin s g b := by
  have iff : Pinned t g' b ↔ Pinned s g b := by simp only [Pinned, h.dev, h.blockno, same]
  exact if_congr iff rfl rfl

lemma Stays.carries (h : Stays s t b) (old : Carries s b k) : Carries t b k :=
  ⟨h.dev.trans old.1, h.blockno.trans old.2⟩

lemma stays_count (set : t.cache.buf = update s.cache.buf b { s.cache.buf b with refcnt := r }) (c) : Stays s t c := by
  constructor <;> simp only [BufMachine.blockno, BufMachine.valid, set, update_apply] <;> split_ifs with e <;> simp [e]

lemma brelse_buf (s : Cache n) (b) : (BioMachine.brelse s b).buf =
    update s.buf b { s.buf b with refcnt := (s.buf b).refcnt - 1 } := by
  simp only [BioMachine.brelse]
  split_ifs <;> rfl

namespace Counts
variable [Fintype P] {s t : State n P} {g g' : Notes} {b : Fin n} {p : P} {k : UInt32}

lemma refcnt_ne_zero (h : Counts s g) (used : 0 < users s b ∨ Pinned s g b) : (s.cache.buf b).refcnt ≠ 0 := by
  intro zero
  have count := h.counted b
  rw [zero] at count
  have none_left : users s b + pin s g b = 0 := count.symm
  rcases used with used | pinned
  · omega
  · simp [pin, pinned] at none_left

lemma dev_eq (h : Counts s g) (used : 0 < users s b ∨ Pinned s g b) : (s.cache.buf b).dev = rootDev :=
  (h.rooted b).resolve_right fun free => h.refcnt_ne_zero used free.2

lemma valid_of_pinned (h : Counts s g) (pinned : Pinned s g b) : valid s b = true := by
  obtain ⟨c, has, ok⟩ := h.cached _ pinned.2
  have same := h.rep.unique (by rw [pinned.1]; decide) (pinned.1.trans has.1.symm) has.2.symm
  exact same ▸ ok

lemma recount (h : Counts s g) (rep : Rep t.cache) (stays : ∀ c, Stays s t c)
    (same : pending t g = pending s g) (holder : ∀ c q, t.holder c = some q → s.holder c = some q)
    (count : ∀ c, (t.cache.buf c).refcnt.toNat + users s c = (s.cache.buf c).refcnt.toNat + users t c)
    (kept : ∀ c, (s.cache.buf c).dev = rootDev ∨ (t.cache.buf c).refcnt = (s.cache.buf c).refcnt) : Counts t g where
  rep := rep
  counted c := by
    have old := h.counted c
    have new := count c
    rw [(stays c).pin same]
    omega
  rooted c := by
    rw [(stays c).dev, (stays c).valid]
    rcases kept c with dev | refcnt
    · exact .inl dev
    · rw [refcnt]
      exact h.rooted c
  held c q hq := (stays c).valid.trans (h.held c q (holder c q hq))
  cached k hk := by
    obtain ⟨c, has, ok⟩ := h.cached k (same ▸ hk)
    exact ⟨c, (stays c).carries has, (stays c).valid.trans ok⟩

variable [DecidableEq P]

section
variable (h : Counts s g) (hs : bgetFor s p k = some (t, b))
include h hs

lemma bgetFor_cases : (∃ c, t = { s with cache := c, busy := update s.busy p (.waiting b) } ∧ Rep c) ∧
    ((Carries s b k ∧ t.cache = bpin s.cache b) ∨ ((∀ c, ¬ Carries s c k) ∧ (s.cache.buf b).refcnt = 0 ∧
      t.cache = s.cache.set b ⟨false, rootDev, k, 1⟩)) := by
  unfold bgetFor at hs
  split at hs
  case h_2 => cases hs
  case h_1 c d got =>
    obtain ⟨rfl, rfl⟩ := Prod.mk.inj (Option.some.inj hs)
    have next : Rep c := h.rep.step (.bget rootDev k) (by simp [BioMachine.Step, perform, got, Except.map])
    refine ⟨⟨c, rfl, next⟩, ?_⟩
    rcases h.rep.bget got with ⟨dev, blockno, same⟩ | ⟨absent, free, same⟩
    · exact .inl ⟨⟨dev, blockno⟩, same⟩
    · exact .inr ⟨absent, free, same⟩

lemma bgetFor_stays (used : 0 < users s c ∨ Pinned s g c) : Stays s t c := by
  obtain ⟨_, ⟨_, hit⟩ | ⟨_, free, miss⟩⟩ := h.bgetFor_cases hs
  · exact stays_count (by rw [hit]; rfl) c
  · have other : c ≠ b := by
      rintro rfl
      exact h.refcnt_ne_zero used free
    constructor <;> simp [BufMachine.blockno, BufMachine.valid, miss, Cache.set, update_of_ne other]

lemma bgetFor_pinned (pinned : Pinned t g c) : Pinned s g c := by
  obtain ⟨⟨cache, rfl, _⟩, ⟨_, hit⟩ | ⟨absent, _, miss⟩⟩ := h.bgetFor_cases hs
  · obtain rfl : cache = _ := hit
    by_cases e : c = b
    · subst e
      have old := pinned
      simp only [Pinned, BufMachine.blockno, bpin, Cache.set, update_self] at old
      exact old
    · have old := pinned
      simp only [Pinned, BufMachine.blockno, bpin, Cache.set, update_of_ne e] at old
      exact old
  · obtain rfl : cache = _ := miss
    by_cases e : c = b
    · subst e
      have mem := pinned.2
      simp only [BufMachine.blockno, Cache.set, update_self] at mem
      obtain ⟨x, old, _⟩ := h.cached k mem
      exact absurd old (absent x)
    · have old := pinned
      simp only [Pinned, BufMachine.blockno, Cache.set, update_of_ne e] at old
      exact old

end

lemma bget (small : Fintype.card P + 3 < 2 ^ 32) (h : Counts s g) (ready : s.busy p = .ready)
    (hs : bgetFor s p k = some (t, b)) : Counts t g ∧ Carries t b k := by
  obtain ⟨⟨c, rfl, rep⟩, found⟩ := h.bgetFor_cases hs
  have turns := fun x => sum_flight_update s p (.waiting b) x
  simp only [ready, flight_ready, flight_waiting, add_zero] at turns
  have bound := users_le s g
  rcases found with ⟨has, hit⟩ | ⟨absent, free, miss⟩
  · simp only at hit
    have stays := stays_count (t := { s with cache := c, busy := update s.busy p (.waiting b) }) (by rw [hit]; rfl)
    refine ⟨h.recount rep stays rfl (fun _ _ => id) (fun x => ?_) fun x => ?_, (stays b).carries has⟩
    · have old := h.counted x
      have limit := bound x
      have turn := turns x
      by_cases e : b = x
      · subst e
        simp only [hit, bpin, Cache.set, update_self, UInt32.toNat_add, users, if_true] at *
        have one : (1 : UInt32).toNat = 1 := rfl
        omega
      · have other : x ≠ b := Ne.symm e
        simp only [hit, bpin, Cache.set, update_of_ne other, users, if_neg e] at *
        omega
    · by_cases e : x = b
      · exact .inl (e ▸ has.1)
      · exact .inr (by simp [hit, bpin, Cache.set, update_of_ne e])
  · simp only at miss
    have zero := h.counted b
    rw [free] at zero
    have unused : users s b + pin s g b = 0 := zero.symm
    have has : Carries { s with cache := c, busy := update s.busy p (.waiting b) } b k := by
      simp [Carries, BufMachine.blockno, miss, Cache.set]
    have others : ∀ x, x ≠ b → c.buf x = s.cache.buf x := fun x ne => by simp [miss, Cache.set, update_of_ne ne]
    refine ⟨⟨rep, fun x => ?_, fun x => ?_, fun x q hq => ?_, fun j hj => ?_⟩, has⟩
    · have turn := turns x
      by_cases e : b = x
      · subst e
        have unpinned : pin { s with cache := c, busy := update s.busy p (.waiting b) } g b = 0 := by
          refine if_neg fun pinned => ?_
          obtain ⟨y, old, _⟩ := h.cached k (has.2 ▸ pinned.2)
          exact absent y old
        have refcnt : (c.buf b).refcnt.toNat = 1 := by simp [miss, Cache.set]
        simp only [refcnt, unpinned, users, if_true] at *
        omega
      · have old := h.counted x
        have same : pin { s with cache := c, busy := update s.busy p (.waiting b) } g x = pin s g x := by
          refine Stays.pin ⟨?_, ?_, ?_⟩ rfl <;> simp [BufMachine.blockno, BufMachine.valid, others x (Ne.symm e)]
        simp only [others x (Ne.symm e), same, users, if_neg e] at *
        omega
    · by_cases e : x = b
      · exact .inl (e ▸ has.1)
      · have old := h.rooted x
        simpa only [BufMachine.valid, others x e] using old
    · have other : x ≠ b := by
        rintro rfl
        have used := users_pos_holder (s := s) hq
        omega
      have old := h.held x q hq
      simpa only [BufMachine.valid, others x other] using old
    · obtain ⟨x, old, ok⟩ := h.cached j hj
      have other : x ≠ b := by
        rintro rfl
        exact h.refcnt_ne_zero (.inr ⟨old.1, old.2 ▸ hj⟩) free
      refine ⟨x, ?_, ?_⟩
      · simpa only [Carries, BufMachine.blockno, others x other] using old
      · simpa only [BufMachine.valid, others x other] using ok

lemma acquire (h : Counts s g) (waits : s.busy p = .waiting b) (free : s.holder b = none) :
    Counts (acquireFor s p b) g := by
  have used : 0 < users s b := users_pos_of_flight p (by simp [waits])
  have turns := fun x => sum_flight_update s p .ready x
  simp only [waits, flight_ready, flight_waiting, add_zero] at turns
  have dev : ∀ x, ((acquireFor s p b).cache.buf x).dev = (s.cache.buf x).dev := by
    intro x
    simp only [BufMachine.acquireFor, Cache.set, update_apply]
    split_ifs with e <;> simp [e]
  have blockno : ∀ x, blockno (acquireFor s p b) x = blockno s x := by
    intro x
    simp only [BufMachine.blockno, BufMachine.acquireFor, Cache.set, update_apply]
    split_ifs with e <;> simp [e]
  have refcnt : ∀ x, ((acquireFor s p b).cache.buf x).refcnt = (s.cache.buf x).refcnt := by
    intro x
    simp only [BufMachine.acquireFor, Cache.set, update_apply]
    split_ifs with e <;> simp [e]
  have valid : ∀ x, valid (acquireFor s p b) x = if x = b then true else valid s x := by
    intro x
    simp only [BufMachine.valid, BufMachine.acquireFor, Cache.set, update_apply]
    split_ifs <;> rfl
  refine ⟨h.rep.keep b rfl rfl, fun x => ?_, fun x => ?_, fun x q hq => ?_, fun j hj => ?_⟩
  · have same : pin (acquireFor s p b) g x = pin s g x :=
      if_congr (by simp only [Pinned, dev, blockno]; rfl) rfl rfl
    have after : users (acquireFor s p b) x = users s x := by
      have turn := turns x
      simp only [users, BufMachine.acquireFor, lock]
      by_cases e : x = b
      · subst e
        simp [free] at turn ⊢
        omega
      · simp only [if_neg (Ne.symm e), update_of_ne e] at turn ⊢
        omega
    rw [refcnt, same, after]
    exact h.counted x
  · rw [dev, valid, refcnt]
    split_ifs with e
    · exact .inl (e ▸ h.dev_eq (.inl used))
    · exact h.rooted x
  · rw [valid]
    split_ifs with e
    · rfl
    · refine h.held x q ?_
      simpa [BufMachine.acquireFor, update_of_ne e] using hq
  · obtain ⟨x, has, ok⟩ := h.cached j hj
    refine ⟨x, ⟨(dev x).trans has.1, (blockno x).trans has.2⟩, ?_⟩
    rw [valid, ok, ite_self]

lemma release (h : Counts s g) (ready : s.busy p = .ready) (mine : s.holder b = some p) :
    Counts (releaseFor s p b) g := by
  have turns := fun x => sum_flight_update s p (.releasing b) x
  simp only [ready, flight_ready, flight_releasing, add_zero] at turns
  refine h.recount h.rep (fun _ => ⟨rfl, rfl, rfl⟩) rfl (fun x q hq => ?_) (fun x => ?_) fun _ => .inr rfl
  · by_cases e : x = b
    · simp [BufMachine.releaseFor, e] at hq
    · simpa [BufMachine.releaseFor, update_of_ne e] using hq
  · have turn := turns x
    simp only [users, BufMachine.releaseFor, lock, update_apply] at *
    by_cases e : x = b
    · subst e
      simp only [mine, if_true, Option.isSome_none, Option.isSome_some, Bool.false_eq_true, if_false] at *
      omega
    · simp only [if_neg e, if_neg (Ne.symm e)] at *
      omega

lemma drop (h : Counts s g) (gives : s.busy p = .releasing b) : Counts (dropFor s p b) g := by
  have used : 0 < users s b := users_pos_of_flight p (by simp [gives])
  have turns := fun x => sum_flight_update s p .ready x
  simp only [gives, flight_ready, flight_releasing, add_zero] at turns
  have stays := stays_count (t := dropFor s p b) (brelse_buf s.cache b)
  refine h.recount (h.rep.step (.brelse b) rfl) stays rfl (fun _ _ => id) (fun x => ?_) fun x => ?_
  · have turn := turns x
    have old := h.counted x
    by_cases e : b = x
    · subst e
      simp only [users, BufMachine.dropFor, brelse_buf, update_self, if_true] at *
      have one : (1 : UInt32).toNat = 1 := rfl
      have less := UInt32.toNat_sub_of_le (s.cache.buf b).refcnt 1 (by
        rw [UInt32.le_iff_toNat_le]
        omega)
      omega
    · have other : x ≠ b := Ne.symm e
      simp only [users, BufMachine.dropFor, brelse_buf, update_of_ne other, if_neg e] at *
      omega
  · by_cases e : x = b
    · exact .inl (e ▸ h.dev_eq (.inl used))
    · exact .inr (by simp [BufMachine.dropFor, brelse_buf, update_of_ne e])

section
omit [DecidableEq P]

lemma congr (h : Counts s g) (cache : t.cache = s.cache) (holder : t.holder = s.holder)
    (busy : t.busy = s.busy) (same : pending t g' = pending s g) : Counts t g' where
  rep := cache ▸ h.rep
  counted b := by
    have stays : Stays s t b := ⟨by rw [cache], by simp [BufMachine.blockno, cache], by simp [BufMachine.valid, cache]⟩
    rw [stays.pin same, cache, users, holder, busy]
    exact h.counted b
  rooted b := by simpa only [BufMachine.valid, cache] using h.rooted b
  held b q hq := by simpa only [BufMachine.valid, cache] using h.held b q (holder ▸ hq)
  cached k hk := by simpa only [Carries, BufMachine.blockno, BufMachine.valid, cache] using h.cached k (same ▸ hk)

lemma repin (h : Counts s g) (rep : Rep t.cache) (stays : ∀ c, Stays s t c)
    (holder : t.holder = s.holder) (busy : t.busy = s.busy) (dev : (s.cache.buf b).dev = rootDev)
    (ok : valid s b = true)
    (count : (t.cache.buf b).refcnt.toNat + pin s g b = (s.cache.buf b).refcnt.toNat + pin t g' b)
    (others : ∀ c, c ≠ b → (t.cache.buf c).refcnt = (s.cache.buf c).refcnt)
    (same : ∀ k, k ≠ blockno s b → (k ∈ pending t g' ↔ k ∈ pending s g)) : Counts t g' where
  rep := rep
  counted c := by
    have old := h.counted c
    have after : users t c = users s c := by simp only [users, holder, busy]
    rw [after]
    by_cases e : c = b
    · subst e
      omega
    · rw [others c e, old]
      have iff : Pinned t g' c ↔ Pinned s g c := by
        simp only [Pinned, (stays c).dev, (stays c).blockno]
        refine and_congr_right fun root => same _ fun blockno => e ?_
        exact h.rep.unique (by rw [root]; decide) (root.trans dev.symm) blockno
      exact congrArg _ (if_congr iff rfl rfl).symm
  rooted c := by
    rw [(stays c).dev, (stays c).valid]
    by_cases e : c = b
    · exact .inl (e ▸ dev)
    · rw [others c e]
      exact h.rooted c
  held c q hq := (stays c).valid.trans (h.held c q (holder ▸ hq))
  cached k hk := by
    by_cases e : k = blockno s b
    · exact ⟨b, ⟨(stays b).dev.trans dev, (stays b).blockno.trans e.symm⟩, (stays b).valid.trans ok⟩
    · obtain ⟨c, has, here⟩ := h.cached k ((same k e).mp hk)
      exact ⟨c, (stays c).carries has, (stays c).valid.trans here⟩

lemma bpin (small : Fintype.card P + 3 < 2 ^ 32) (h : Counts s g) (used : 0 < users s b)
    (ok : valid s b = true) (cache : t.cache = bpin s.cache b) (holder : t.holder = s.holder)
    (busy : t.busy = s.busy) (fresh : blockno s b ∉ pending s g)
    (added : pending t g' = pending s g ++ [blockno s b]) : Counts t g' := by
  have stays := stays_count (s := s) (by rw [cache]; rfl)
  have dev := h.dev_eq (.inl used)
  refine h.repin (cache ▸ h.rep.step (.bpin b) rfl) stays holder busy dev ok ?_ ?_ ?_
  · have bound := users_le s g b
    have old := h.counted b
    have off : pin s g b = 0 := if_neg fun pinned => fresh pinned.2
    have on : pin t g' b = 1 := if_pos ⟨(stays b).dev.trans dev, by rw [(stays b).blockno, added]; simp⟩
    simp only [cache, BioMachine.bpin, Cache.set, update_self, UInt32.toNat_add] at *
    have one : (1 : UInt32).toNat = 1 := rfl
    omega
  · intro c ne
    simp [cache, BioMachine.bpin, Cache.set, update_of_ne ne]
  · intro k ne
    simp [added, ne]

lemma bunpin (h : Counts s g) (dev : (s.cache.buf b).dev = rootDev) (ok : valid s b = true)
    (cache : t.cache = bunpin s.cache b) (holder : t.holder = s.holder) (busy : t.busy = s.busy)
    (removed : pending s g = blockno s b :: pending t g')
    (once : blockno s b ∉ pending t g') : Counts t g' := by
  have stays := stays_count (s := s) (by rw [cache]; rfl)
  refine h.repin (cache ▸ h.rep.step (.bunpin b) rfl) stays holder busy dev ok ?_ ?_ ?_
  · have old := h.counted b
    have on : pin s g b = 1 := if_pos ⟨dev, by simp [removed]⟩
    have off : pin t g' b = 0 := if_neg fun pinned => once ((stays b).blockno ▸ pinned.2)
    have one : (1 : UInt32).toNat = 1 := rfl
    have less := UInt32.toNat_sub_of_le (s.cache.buf b).refcnt 1 (by
      rw [UInt32.le_iff_toNat_le]
      omega)
    simp only [cache, BioMachine.bunpin, Cache.set, update_self]
    omega
  · intro c ne
    simp [cache, BioMachine.bunpin, Cache.set, update_of_ne ne]
  · intro k ne
    simp [removed, ne]

end

end Counts

end Xv6.BufCount
