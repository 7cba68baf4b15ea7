import Xv6.BioMachine
import Xv6.Params
import Xv6.Runs

/-! The representation of the buffer cache: the list through `prev` and `next`
holds every buffer once and is sorted by the last release to an unused buffer,
and no two buffers carry one block. -/

namespace Xv6.BioCache
open Xv6.Ring BioMachine Function List

variable {n : Nat}

structure Listed (s : Cache n) (l : List (Fin n)) : Prop where
  circle : Circle s.links none (l.map some)
  all : ∀ b, b ∈ l

namespace Listed
variable {s : Cache n} {l : List (Fin n)}

section
variable (h : Listed s l)
include h

lemma nodup : l.Nodup := (nodup_cons.mp h.circle.once).2.of_map

lemma length : l.length = n := by
  have perm := (perm_ext_iff_of_nodup h.nodup (nodup_finRange n)).mpr (by simp [h.all])
  simpa using perm.length_eq

lemma forward (p) : walk s.links.next none (Option.any p) (n + 1) (s.links.next none) = (l.find? p).map some := by
  rw [h.circle.next.walk_eq (by simp) _ (by simp [h.length]), find?_map]
  rfl

lemma backward (p) :
    walk s.links.prev none (Option.any p) (n + 1) (s.links.prev none) = (l.reverse.find? p).map some := by
  rw [h.circle.prev.walk_eq (by simp) _ (by simp [h.length]), ← map_reverse, find?_map]
  rfl

lemma bget_eq (dev blockno) : bget s dev blockno =
    match l.find? (carries s dev blockno) with
    | some b => .ok (bpin s b, b)
    | none =>
      match l.reverse.find? (unused s) with
      | some b => .ok (s.set b ⟨false, dev, blockno, 1⟩, b)
      | none => .error "bget: no buffers" := by
  unfold bget
  rw [h.forward, h.backward]
  cases l.find? (carries s dev blockno) with
  | some b => rfl
  | none => cases l.reverse.find? (unused s) <;> rfl

lemma set (b) (v : Buf) : Listed (s.set b v) l := ⟨h.circle, h.all⟩

lemma moved (b) :
    Listed { s with links := (s.links.unlink (some b)).insertAfter none (some b) } (b :: l.erase b) := by
  obtain ⟨before, after, _, whole, rest⟩ := exists_erase_eq (h.all b)
  have circle := h.circle
  rw [whole, map_append, map_cons] at circle
  have fresh : some b ∉ none :: (before.map some ++ after.map some) := by
    have once := h.nodup
    rw [whole] at once
    have away := (nodup_middle.mp once)
    simpa using (nodup_cons.mp away).1
  constructor
  · rw [rest, map_cons, map_append]
    exact circle.unlink.insertAfter fresh
  · intro c
    by_cases e : c = b
    · simp [e]
    · exact mem_cons_of_mem b ((mem_erase_of_ne e).mpr (h.all c))

end

end Listed

lemma binit_links (done todo : List (Fin n)) (once : (done ++ todo).Nodup) (k : Links (Option (Fin n)))
    (circle : Circle k none (done.reverse.map some)) :
    Circle (todo.foldl (fun k b => k.insertAfter none (some b)) k) none ((done ++ todo).reverse.map some) := by
  induction todo generalizing done k with
  | nil => simpa using circle
  | cons b todo ih =>
    rw [append_cons] at once ⊢
    refine ih _ once _ ?_
    have fresh : some b ∉ none :: done.reverse.map some := by
      have apart := nodup_append.mp (once.sublist (sublist_append_left ..))
      simpa using fun hb => apart.2.2 b hb b (by simp) rfl
    simpa using circle.insertAfter fresh

lemma listed_binit (n : Nat) : Listed (binit n) (finRange n).reverse where
  circle := by
    have all := binit_links [] (finRange n) (by simpa using nodup_finRange n)
      ⟨fun _ => none, fun _ => none⟩ (.empty rfl rfl)
    rwa [nil_append] at all
  all b := by simp

structure Ages (n : Nat) where
  now : Nat
  last : Fin n → Nat

def Ages.start : Ages n := ⟨0, fun _ => 0⟩

def Ages.record (s : Cache n) (age : Ages n) : Op n → Ages n
  | .brelse b =>
    if ((brelse s b).buf b).refcnt = 0 then
      ⟨age.now + 1, Function.update age.last b (age.now + 1)⟩
    else age
  | _ => age

def Timed : Cache n × Ages n → Op n → Cache n × Ages n → Prop :=
  Runs.Recorded Step Ages.record

def Sorted (age : Ages n) (l : List (Fin n)) : Prop :=
  l.Pairwise fun b c => age.last c < age.last b ∨ age.last c = 0

structure Inv (s : Cache n) (age : Ages n) (l : List (Fin n)) : Prop where
  listed : Listed s l
  unique : ∀ b c, b ≠ c → (s.buf b).dev = (s.buf c).dev → (s.buf b).blockno = (s.buf c).blockno →
    (s.buf b).dev = 0 ∧ (s.buf b).blockno = 0
  sorted : Sorted age l
  past : ∀ b, age.last b ≤ age.now

namespace Inv
variable {s t : Cache n} {age : Ages n} {l : List (Fin n)}

lemma binit (n) : Inv (binit n) .start (finRange n).reverse where
  listed := listed_binit n
  unique _ _ _ _ _ := ⟨rfl, rfl⟩
  sorted := pairwise_of_forall fun _ _ => .inr rfl
  past _ := le_rfl

lemma keep (h : Inv s age l) (b) (dev : v.dev = (s.buf b).dev)
    (blockno : v.blockno = (s.buf b).blockno) : Inv (s.set b v) age l := by
  have same_dev : ∀ c, ((s.set b v).buf c).dev = (s.buf c).dev := by
    intro c
    simp only [Cache.set, update_apply]
    split_ifs with e <;> simp [e, dev]
  have same_blockno : ∀ c, ((s.set b v).buf c).blockno = (s.buf c).blockno := by
    intro c
    simp only [Cache.set, update_apply]
    split_ifs with e <;> simp [e, blockno]
  refine ⟨h.listed.set _ _, ?_, h.sorted, h.past⟩
  simpa only [same_dev, same_blockno] using h.unique

lemma recycle (h : Inv s age l) (b) (miss : ∀ c, carries s dev blockno c = false) :
    Inv (s.set b ⟨false, dev, blockno, 1⟩) age l := by
  refine ⟨h.listed.set _ _, fun c d ne dev' blockno' => ?_, h.sorted, h.past⟩
  simp only [Cache.set, update_apply] at dev' blockno' ⊢
  split_ifs at dev' blockno' ⊢ with hc hd hd
  · exact absurd (hc.trans hd.symm) ne
  · have other := miss d
    simp [carries, ← dev', ← blockno'] at other
  · have other := miss c
    simp [carries, dev', blockno'] at other
  · exact h.unique c d ne dev' blockno'

lemma release (h : Inv s age l) (b) : ∃ m, Inv (brelse s b) (age.record s (.brelse b)) m := by
  have counted : Inv (s.set b { s.buf b with refcnt := (s.buf b).refcnt - 1 }) age l := h.keep b rfl rfl
  by_cases last : (s.buf b).refcnt - 1 = 0
  · refine ⟨b :: l.erase b, ?_⟩
    have moves : brelse s b = { s.set b { s.buf b with refcnt := (s.buf b).refcnt - 1 } with
      links := (s.links.unlink (some b)).insertAfter none (some b) } := by
      simp [brelse, Cache.set, last]
    have stamp : age.record s (.brelse b) = ⟨age.now + 1, update age.last b (age.now + 1)⟩ := by
      simp [Ages.record, moves, Cache.set, last]
    rw [moves, stamp]
    refine ⟨counted.listed.moved b, counted.unique, ?_, fun c => ?_⟩
    · have others : ∀ c ∈ l.erase b, c ≠ b := fun c hc e => h.listed.nodup.not_mem_erase (e ▸ hc)
      refine pairwise_cons.mpr ⟨fun c hc => .inl ?_, ?_⟩
      · simp only [update_self, update_of_ne (others c hc)]
        exact Nat.lt_succ_of_le (h.past c)
      · refine (h.sorted.sublist erase_sublist).imp_of_mem fun hc hd old => ?_
        simpa only [update_of_ne (others _ hc), update_of_ne (others _ hd)] using old
    · simp only [update_apply]
      split_ifs
      · exact le_rfl
      · exact Nat.le_succ_of_le (h.past c)
  · refine ⟨l, ?_⟩
    have stays : brelse s b = s.set b { s.buf b with refcnt := (s.buf b).refcnt - 1 } := by
      simp [brelse, Cache.set, last]
    have stamp : age.record s (.brelse b) = age := by simp [Ages.record, stays, Cache.set, last]
    rw [stays, stamp]
    exact counted

lemma carries_iff : carries s dev blockno b = true ↔ (s.buf b).dev = dev ∧ (s.buf b).blockno = blockno := by
  simp [carries]

lemma hit (h : Inv s age l) (cached : carries s dev blockno b = true) :
    ∃ c, carries s dev blockno c = true ∧ bget s dev blockno = .ok (bpin s c, c) ∧ (dev ≠ 0 ∨ blockno ≠ 0 → c = b) := by
  obtain ⟨c, found⟩ := Option.isSome_iff_exists.mp (find?_isSome.mpr ⟨b, h.listed.all b, cached⟩)
  have has := find?_some found
  refine ⟨c, has, by simp [h.listed.bget_eq, found], fun used => ?_⟩
  by_contra ne
  obtain ⟨dev_b, blockno_b⟩ := carries_iff.mp cached
  obtain ⟨dev_c, blockno_c⟩ := carries_iff.mp has
  have initial := h.unique c b ne (dev_c.trans dev_b.symm) (blockno_c.trans blockno_b.symm)
  rw [dev_c, blockno_c] at initial
  exact used.elim (· initial.1) (· initial.2)

lemma miss (h : Inv s age l) (absent : ∀ b, carries s dev blockno b = false) :
    (bget s dev blockno = .error "bget: no buffers" ∧ ∀ b, (s.buf b).refcnt ≠ 0) ∨
    ∃ b, bget s dev blockno = .ok (s.set b ⟨false, dev, blockno, 1⟩, b) ∧ (s.buf b).refcnt = 0 ∧
      ∀ c, c ≠ b → (s.buf c).refcnt = 0 → age.last b < age.last c ∨ age.last b = 0 := by
  have none_found : l.find? (carries s dev blockno) = none := find?_eq_none.mpr fun b _ => by simp [absent b]
  cases found : l.reverse.find? (unused s) with
  | none =>
    refine .inl ⟨by simp [h.listed.bget_eq, none_found, found], fun b => ?_⟩
    have used := find?_eq_none.mp found b (by simp [h.listed.all b])
    simpa [unused] using used
  | some b =>
    have free := find?_some found
    refine .inr ⟨b, by simp [h.listed.bget_eq, none_found, found], by simpa [unused] using free, ?_⟩
    intro c ne unused_c
    -- the loop passes no unused buffer before `b`
    obtain ⟨_, passed, rest, whole, used⟩ := find?_eq_some_iff_append.mp found
    have older := whole ▸ pairwise_reverse.mpr h.sorted
    have mem := whole ▸ mem_reverse.mpr (h.listed.all c)
    rcases mem_append.mp mem with early | late
    · have busy := used c early
      simp [unused, unused_c] at busy
    · have later := mem_of_ne_of_mem ne late
      exact (pairwise_cons.mp (pairwise_append.mp older).2.1).1 c later

lemma step (h : Inv s age l) (hs : Step s op t) : ∃ m, Inv t (age.record s op) m := by
  cases op <;> simp only [Step, perform] at hs
  case bget dev blockno =>
    by_cases cached : ∃ c, carries s dev blockno c = true
    · obtain ⟨c, cached⟩ := cached
      obtain ⟨d, _, found, _⟩ := h.hit cached
      rw [found] at hs
      cases hs
      exact ⟨l, h.keep _ rfl rfl⟩
    · have absent : ∀ c, carries s dev blockno c = false := by simpa using cached
      rcases h.miss absent with ⟨stopped, _⟩ | ⟨d, found, _, _⟩
      · rw [stopped] at hs
        cases hs
      · rw [found] at hs
        cases hs
        exact ⟨l, h.recycle _ absent⟩
  case brelse b =>
    cases hs
    exact h.release b
  case bpin b =>
    cases hs
    exact ⟨l, h.keep _ rfl rfl⟩
  case bunpin b =>
    cases hs
    exact ⟨l, h.keep _ rfl rfl⟩

end Inv

def Rep (s : Cache n) : Prop := ∃ age l, Inv s age l

namespace Rep
lemma step (h : Rep s) (op : Op n) (hs : Step s op t) : Rep t := by
  obtain ⟨age, l, inv⟩ := h
  exact ⟨_, inv.step hs⟩

lemma keep (h : Rep s) (b) (dev : v.dev = (s.buf b).dev)
    (blockno : v.blockno = (s.buf b).blockno) : Rep (s.set b v) := by
  obtain ⟨age, l, inv⟩ := h
  exact ⟨age, l, inv.keep b dev blockno⟩

lemma unique (h : Rep s) (used : (s.buf b).dev ≠ 0)
    (dev : (s.buf b).dev = (s.buf c).dev) (blockno : (s.buf b).blockno = (s.buf c).blockno) :
    b = c := by
  obtain ⟨age, l, inv⟩ := h
  by_contra ne
  exact used (inv.unique b c ne dev blockno).1

lemma bget (h : Rep s) (hs : bget s dev blockno = .ok (t, b)) :
    ((s.buf b).dev = dev ∧ (s.buf b).blockno = blockno ∧ t = bpin s b) ∨
    ((∀ c, ¬ ((s.buf c).dev = dev ∧ (s.buf c).blockno = blockno)) ∧ (s.buf b).refcnt = 0 ∧
      t = s.set b ⟨false, dev, blockno, 1⟩) := by
  obtain ⟨age, l, inv⟩ := h
  by_cases cached : ∃ c, carries s dev blockno c = true
  · obtain ⟨c, cached⟩ := cached
    obtain ⟨d, has, found, _⟩ := inv.hit cached
    obtain ⟨rfl, rfl⟩ := Prod.mk.inj (Except.ok.inj (found.symm.trans hs))
    obtain ⟨dev, blockno⟩ := Inv.carries_iff.mp has
    exact .inl ⟨dev, blockno, rfl⟩
  · have absent : ∀ c, carries s dev blockno c = false := by simpa using cached
    rcases inv.miss absent with ⟨stopped, _⟩ | ⟨d, found, free, _⟩
    · rw [stopped] at hs
      cases hs
    · obtain ⟨rfl, rfl⟩ := Prod.mk.inj (Except.ok.inj (found.symm.trans hs))
      refine .inr ⟨fun c has => ?_, free, rfl⟩
      have hit := Inv.carries_iff.mpr has
      simp [absent c] at hit

end Rep

/-- The representation of the cache, and what `bget` does, after any sequence
of operations. -/
theorem cache_representation (n : Nat) (ops : List (Op n)) (s : Cache n) (age : Ages n)
    (run : Runs.Run Timed (binit n, .start) ops (s, age)) :
    (∃ l : List (Fin n), l.Nodup ∧ (∀ b, b ∈ l) ∧ Circle s.links none (l.map some)) ∧
    (∀ b c, b ≠ c → (s.buf b).dev = (s.buf c).dev → (s.buf b).blockno = (s.buf c).blockno →
      (s.buf b).dev = 0 ∧ (s.buf b).blockno = 0) ∧
    (∀ dev blockno b, carries s dev blockno b = true →
      ∃ c, carries s dev blockno c = true ∧ bget s dev blockno = .ok (bpin s c, c) ∧ (dev ≠ 0 ∨ blockno ≠ 0 → c = b)) ∧
    ∀ dev blockno, (∀ b, carries s dev blockno b = false) →
      (bget s dev blockno = .error "bget: no buffers" ∧ ∀ b, (s.buf b).refcnt ≠ 0) ∨
      ∃ b, bget s dev blockno = .ok (s.set b ⟨false, dev, blockno, 1⟩, b) ∧ (s.buf b).refcnt = 0 ∧
        ∀ c, c ≠ b → (s.buf c).refcnt = 0 → age.last b < age.last c ∨ age.last b = 0 := by
  obtain ⟨l, inv⟩ : ∃ l, Inv s age l := by
    refine run.invariant (fun x => ∃ l, Inv x.1 x.2 l) ?_ ⟨_, .binit n⟩
    rintro ⟨s, age⟩ op ⟨t, age'⟩ ⟨l, inv⟩ ⟨hs, rfl⟩
    exact inv.step hs
  exact ⟨⟨l, inv.listed.nodup, inv.listed.all, inv.listed.circle⟩, inv.unique,
    fun _ _ _ => inv.hit, fun _ _ => inv.miss⟩

/-- A cache of two buffers: the one that was released first is recycled. -/
theorem cache_representation_two_buffers : ∃ (ops : List (Op 2)) (s : Cache 2) (age : Ages 2),
    Runs.Run Timed (binit 2, .start) ops (s, age) ∧ age.last 1 < age.last 0 ∧
    bget s 1 9 = .ok (s.set 1 ⟨false, 1, 9, 1⟩, 1) := by
  have r0 : Runs.Run (Timed (n := 2)) (binit 2, .start) [] (binit 2, .start) := .nil _
  have r1 := r0.record (.bget 1 7) rfl
  have r2 := r1.record (.bget 1 8) rfl
  have r3 := r2.record (.brelse 1) rfl
  have r4 := r3.record (.brelse 0) rfl
  refine ⟨_, _, _, r4, by decide, ?_⟩
  rcases (cache_representation 2 _ _ _ r4).2.2.2 1 9 (by decide) with ⟨_, used⟩ | ⟨b, found, _, oldest⟩
  · exact absurd rfl (used 0)
  · obtain rfl : b = 1 := by
      by_contra ne
      obtain rfl : b = 0 := by omega
      exact absurd (oldest 1 (by decide) rfl) (by decide)
    exact found

end Xv6.BioCache
