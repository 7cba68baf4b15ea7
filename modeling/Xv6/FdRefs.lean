import Mathlib.Algebra.BigOperators.Ring.Finset
import Mathlib.Algebra.Order.BigOperators.Group.Finset
import Xv6.Counting
import Xv6.FdMachine
import Xv6.Runs
import Xv6.Total

/-! Who holds what: descriptors hold open files, and open files hold inodes and ends of
pipes. -/

namespace Xv6.FdRefs

open FdMachine Counting Total Runs Function Finset
open FsCalls (nfile nofile)

variable {n : Nat} {I P : Type} [DecidableEq I] [DecidableEq P]

/-- What an open file holds a reference to. -/
inductive Hold (I P : Type)
  | inode (i : I)
  | readEnd (x : P)
  | writeEnd (x : P)
  deriving DecidableEq

def holds (file : File I P) : Option (Hold I P) :=
  match file.type with
  | .none => none
  | .pipe => file.pipe.map fun x => if file.writable then .writeEnd x else .readEnd x
  | .inode | .device => file.ip.map .inode

def one {α : Type} [DecidableEq α] (o : Option α) (a : α) : Nat :=
  if o = some a then 1 else 0

def count (s : State n I P) (h : Hold I P) : Nat :=
  ∑ f, one (holds (s.ftable f)) h

def points (proc : Proc I) (f : Fin nfile) : Nat :=
  ∑ fd, one (proc.ofile fd) f

def slots (s : State n I P) (f : Fin nfile) : Nat :=
  ∑ p, points (s.proc p) f

def cwds (s : State n I P) (i : I) : Nat :=
  ∑ p, one (s.proc p).cwd i

def ends (r w : Int) : Option Pipe :=
  if r = 0 ∧ w = 0 then none else some ⟨r ≠ 0, w ≠ 0⟩

variable {s : State n I P} {p : Fin n} {f : Fin nfile} {fd : Fin nofile}

lemma count_putFile (s : State n I P) (f) (file : File I P) (h : Hold I P) :
    count (putFile s f file) h + one (holds (s.ftable f)) h = count s h + one (holds file) h :=
  sum_update (fun file => one (holds file) h) s.ftable f file

omit [DecidableEq I] in
lemma points_update (proc : Proc I) (fd v f) :
    points { proc with ofile := update proc.ofile fd v } f + one (proc.ofile fd) f = points proc f + one v f :=
  sum_update (fun o => one o f) proc.ofile fd v

section
omit [DecidableEq I] [DecidableEq P]

lemma slots_putProc (s : State n I P) (p) (proc : Proc I) (f) :
    slots (putProc s p proc) f + points (s.proc p) f = slots s f + points proc f :=
  sum_update (fun proc => points proc f) s.proc p proc

lemma slots_putOfile (s : State n I P) (p fd v f) :
    slots (putOfile s p fd v) f + one ((s.proc p).ofile fd) f = slots s f + one v f := by
  have outer := slots_putProc s p { s.proc p with ofile := update (s.proc p).ofile fd v } f
  have inner := points_update (s.proc p) fd v f
  change slots (putProc s p { s.proc p with ofile := update (s.proc p).ofile fd v }) f + _ = _
  dsimp only at outer inner ⊢
  omega

end

omit [DecidableEq P] in
lemma cwds_putProc (s : State n I P) (p) (proc : Proc I) (i : I) :
    cwds (putProc s p proc) i + one (s.proc p).cwd i = cwds s i + one proc.cwd i :=
  sum_update (fun proc : Proc I => one proc.cwd i) s.proc p proc

omit [DecidableEq P] in
lemma cwds_putOfile (s : State n I P) (p fd v) (i : I) : cwds (putOfile s p fd v) i = cwds s i := by
  have moved := cwds_putProc s p { s.proc p with ofile := update (s.proc p).ofile fd v } i
  exact Nat.add_right_cancel moved

omit [DecidableEq I] [DecidableEq P] in
lemma slots_pos (at_ : (s.proc p).ofile fd = some f) : 1 ≤ slots s f := by
  have inner : one ((s.proc p).ofile fd) f ≤ points (s.proc p) f :=
    single_le_sum (f := fun fd => one ((s.proc p).ofile fd) f) (fun _ _ => Nat.zero_le _) (mem_univ fd)
  have outer : points (s.proc p) f ≤ slots s f :=
    single_le_sum (f := fun p => points (s.proc p) f) (fun _ _ => Nat.zero_le _) (mem_univ p)
  have here : one ((s.proc p).ofile fd) f = 1 := if_pos at_
  omega

omit [DecidableEq P] in
lemma cwds_pos (at_ : (s.proc p).cwd = some i) : 1 ≤ cwds s i := by
  have here : one (s.proc p).cwd i = 1 := if_pos at_
  have le : one (s.proc p).cwd i ≤ cwds s i :=
    single_le_sum (f := fun p => one (s.proc p).cwd i) (fun _ _ => Nat.zero_le _) (mem_univ p)
  omega

lemma count_pos (held : holds (s.ftable f) = some h) : 1 ≤ count s h := by
  have here : one (holds (s.ftable f)) h = 1 := if_pos held
  have le : one (holds (s.ftable f)) h ≤ count s h :=
    single_le_sum (f := fun f => one (holds (s.ftable f)) h) (fun _ _ => Nat.zero_le _) (mem_univ f)
  omega

@[simp] lemma one_none [DecidableEq α] (a : α) : one none a = 0 := if_neg nofun

lemma one_some [DecidableEq α] (a b : α) : one (some a) b = if b = a then 1 else 0 := by simp [one, eq_comm]

def owned (s : State n I P) (k : Hold I P → Int) (h : Hold I P) : Int :=
  count s h + k h

structure Sound (s : State n I P) (d : Fin nfile → Int) (k : Hold I P → Int) : Prop where
  refs : ∀ f, ((s.ftable f).ref : Int) = slots s f + d f
  closed : ∀ f, (s.ftable f).ref = 0 → (s.ftable f).type = .none
  formed : ∀ f, (s.ftable f).type ≠ .none → (holds (s.ftable f)).isSome
  irefs : ∀ i, (s.iref i : Int) = owned s k (.inode i) + cwds s i
  reader : ∀ x, 0 ≤ owned s k (.readEnd x) ∧ owned s k (.readEnd x) ≤ 1
  writer : ∀ x, 0 ≤ owned s k (.writeEnd x) ∧ owned s k (.writeEnd x) ≤ 1
  page : ∀ x, s.page x = ends (owned s k (.readEnd x)) (owned s k (.writeEnd x))
  allocs : ∀ x, s.allocs x = s.frees x + if (s.page x).isSome then 1 else 0

variable {t : State n I P}

lemma Sound.withOfile (h : Sound s d k) (v : Option (Fin nfile))
    (hd : ∀ g, d' g = d g + one ((s.proc p).ofile fd) g - one v g) :
    Sound (putOfile s p fd v) d' k where
  __ := h
  refs g := by
    have moved := slots_putOfile s p fd v g
    have old := h.refs g
    have new := hd g
    change ((s.ftable g).ref : Int) = _
    omega
  irefs i := by
    rw [cwds_putOfile]
    exact h.irefs i

lemma Sound.withFile (h : Sound s d k) (closed : file.ref = 0 → file.type = .none)
    (formed : file.type ≠ .none → (holds file).isSome)
    (hd : ∀ g, d' g = d g + if g = f then (file.ref : Int) - (s.ftable f).ref else 0)
    (hk : ∀ x, k' x = k x + one (holds (s.ftable f)) x - one (holds file) x) :
    Sound (putFile s f file) d' k' := by
  have same : ∀ x, owned (putFile s f file) k' x = owned s k x := by
    intro x
    have moved := count_putFile s f file x
    have new := hk x
    unfold owned
    omega
  have at_ : ∀ g, (putFile s f file).ftable g = if g = f then file else s.ftable g := by
    intro g
    exact update_apply ..
  refine ⟨fun g => ?_, fun g => ?_, fun g => ?_, fun i => ?_, fun x => ?_, fun x => ?_, fun x => ?_, h.allocs⟩
  · have old := h.refs g
    rw [at_, hd]
    change _ = (slots s g : Int) + _
    split_ifs with here
    · subst here
      omega
    · omega
  · rw [at_]
    split_ifs with here
    · exact closed
    · exact h.closed g
  · rw [at_]
    split_ifs with here
    · exact formed
    · exact h.formed g
  · rw [same]
    exact h.irefs i
  · rw [same]
    exact h.reader x
  · rw [same]
    exact h.writer x
  · rw [same, same]
    exact h.page x

lemma Sound.withRef (h : Sound s d k) {r : Nat} (used : r ≠ 0)
    (hd : ∀ g, d' g = d g + if g = f then (r : Int) - (s.ftable f).ref else 0) :
    Sound (putFile s f { s.ftable f with ref := r }) d' k :=
  h.withFile (fun zero => absurd zero used) (h.formed f) hd fun x => by
    have same : holds { s.ftable f with ref := r } = holds (s.ftable f) := rfl
    rw [same]
    omega

/-- A file that holds nothing gets something to hold. -/
lemma Sound.setUp (h : Sound s d k) (ref : file.ref = (s.ftable f).ref)
    (used : (s.ftable f).ref = 1) (empty : holds (s.ftable f) = none) (held : holds file = some e)
    (hk : ∀ x, k' x = k x - one (some e) x) : Sound (putFile s f file) d k' := by
  refine h.withFile (fun zero => by omega) (fun _ => by rw [held]; rfl) (fun g => ?_) fun x => ?_
  · rw [ref]
    split_ifs <;> omega
  · rw [empty, held, one_none, hk]
    omega

lemma Sound.withIref (h : Sound s d k) {r : Nat}
    (hk : ∀ x, k' x = k x + if x = .inode i then (r : Int) - s.iref i else 0) :
    Sound (putIref s i r) d k' := by
  have ends : ∀ x, x ≠ .inode i → owned (putIref s i r) k' x = owned s k x := by
    intro x other
    have new := hk x
    rw [if_neg other, add_zero] at new
    change (count s x : Int) + _ = _
    rw [new]
    rfl
  refine ⟨h.refs, h.closed, h.formed, fun j => ?_, fun x => ?_, fun x => ?_, fun x => ?_, h.allocs⟩
  · have old := h.irefs j
    by_cases here : j = i
    · subst here
      have new := hk (.inode j)
      rw [if_pos rfl] at new
      have at_ : (putIref s j r).iref j = r := update_self ..
      rw [at_]
      change (r : Int) = count s (.inode j) + k' (.inode j) + cwds s j
      unfold owned at old
      omega
    · have at_ : (putIref s i r).iref j = s.iref j := update_of_ne here ..
      rw [at_, ends _ (by simpa using here)]
      exact old
  · rw [ends (.readEnd x) nofun]
    exact h.reader x
  · rw [ends (.writeEnd x) nofun]
    exact h.writer x
  · rw [ends (.readEnd x) nofun, ends (.writeEnd x) nofun]
    exact h.page x

lemma Sound.putPage (h : Sound s d k) (files : t.ftable = s.ftable)
    (procs : t.proc = s.proc) (irefs : t.iref = s.iref) (page : t.page = update s.page x v)
    (allocs : ∀ y, y ≠ x → t.allocs y = s.allocs y) (frees : ∀ y, y ≠ x → t.frees y = s.frees y)
    (balance : t.allocs x = t.frees x + if v.isSome then 1 else 0)
    (others : ∀ y, y ≠ .readEnd x → y ≠ .writeEnd x → k' y = k y)
    (reader : 0 ≤ owned s k' (.readEnd x) ∧ owned s k' (.readEnd x) ≤ 1)
    (writer : 0 ≤ owned s k' (.writeEnd x) ∧ owned s k' (.writeEnd x) ≤ 1)
    (hv : v = ends (owned s k' (.readEnd x)) (owned s k' (.writeEnd x))) : Sound t d k' := by
  have own : ∀ y, owned t k' y = owned s k' y := by
    intro y
    unfold owned count
    rw [files]
  have far : ∀ y, y ≠ .readEnd x → y ≠ .writeEnd x → owned t k' y = owned s k y := by
    intro y ne1 ne2
    rw [own, owned, others y ne1 ne2]
    rfl
  refine ⟨fun g => ?_, fun g => ?_, fun g => ?_, fun i => ?_, fun y => ?_, fun y => ?_, fun y => ?_, fun y => ?_⟩
  · have same : slots t g = slots s g := by
      unfold slots
      rw [procs]
    rw [files, same]
    exact h.refs g
  · rw [files]
    exact h.closed g
  · rw [files]
    exact h.formed g
  · have same : cwds t i = cwds s i := by
      unfold cwds
      rw [procs]
    rw [irefs, same, far (.inode i) nofun nofun]
    exact h.irefs i
  · by_cases here : y = x
    · subst here
      rw [own]
      exact reader
    · rw [far (.readEnd y) (by simpa using here) nofun]
      exact h.reader y
  · by_cases here : y = x
    · subst here
      rw [own]
      exact writer
    · rw [far (.writeEnd y) nofun (by simpa using here)]
      exact h.writer y
  · rw [page]
    by_cases here : y = x
    · subst here
      rw [update_self, own, own]
      exact hv
    · rw [update_of_ne here, far (.readEnd y) (by simpa using here) nofun,
        far (.writeEnd y) nofun (by simpa using here)]
      exact h.page y
  · rw [page]
    by_cases here : y = x
    · subst here
      rw [update_self]
      exact balance
    · rw [update_of_ne here, allocs y here, frees y here]
      exact h.allocs y

lemma ends_eq_none (h : ends r w = none) : r = 0 ∧ w = 0 := by
  unfold ends at h
  split_ifs at h with both
  exact both

lemma Sound.withPipe (h : Sound s d (fun _ => 0)) (vacant : s.page x = none) :
    Sound (putPipe s x) d fun y => one (some (.readEnd x)) y + one (some (.writeEnd x)) y := by
  obtain ⟨reader, writer⟩ := ends_eq_none ((h.page x).symm.trans vacant)
  have balance := h.allocs x
  rw [vacant] at balance
  have reader' : owned s (fun y => one (some (.readEnd x)) y + one (some (.writeEnd x)) y) (.readEnd x) = 1 := by
    have here : one (some (Hold.readEnd x : Hold I P)) (.readEnd x) = 1 := if_pos rfl
    have there : one (some (Hold.writeEnd x : Hold I P)) (.readEnd x) = 0 := if_neg nofun
    unfold owned at reader ⊢
    dsimp only at reader ⊢
    rw [here, there]
    omega
  have writer' : owned s (fun y => one (some (.readEnd x)) y + one (some (.writeEnd x)) y) (.writeEnd x) = 1 := by
    have here : one (some (Hold.writeEnd x : Hold I P)) (.writeEnd x) = 1 := if_pos rfl
    have there : one (some (Hold.readEnd x : Hold I P)) (.writeEnd x) = 0 := if_neg nofun
    unfold owned at writer ⊢
    dsimp only at writer ⊢
    rw [here, there]
    omega
  refine h.putPage rfl rfl rfl rfl (fun y other => ?_) (fun _ _ => rfl) ?_ (fun y ne1 ne2 => ?_)
    (by omega) (by omega) ?_
  · exact update_of_ne other ..
  · change update s.allocs x (s.allocs x + 1) x = s.frees x + 1
    rw [update_self, balance]
    rfl
  · rw [one_some, one_some, if_neg ne1, if_neg ne2]
    rfl
  · rw [reader', writer']
    rfl

section
omit [DecidableEq I] [DecidableEq P]

lemma filealloc_eq (s : State n I P) : filealloc s = .ok (none, s) ∨ ∃ f, (s.ftable f).ref = 0 ∧
        filealloc s = .ok (some f, putFile s f { s.ftable f with ref := 1 }) := by
  unfold filealloc
  rw [bind_of_eq rfl]
  cases found : (List.finRange nfile).find? fun f => decide ((s.ftable f).ref = 0) with
  | none => exact .inl rfl
  | some f =>
    have zero := List.find?_some found
    exact .inr ⟨f, of_decide_eq_true zero, rfl⟩

lemma fdalloc_eq (s : State n I P) (p f) : fdalloc p f s = .ok (none, s) ∨
    ∃ fd, (s.proc p).ofile fd = none ∧ fdalloc p f s = .ok (some fd, putOfile s p fd (some f)) := by
  unfold fdalloc
  rw [bind_of_eq rfl]
  cases found : (List.finRange nofile).find? fun fd => decide ((s.proc p).ofile fd = none) with
  | none => exact .inl rfl
  | some fd =>
    have vacant := List.find?_some found
    exact .inr ⟨fd, of_decide_eq_true vacant, rfl⟩

lemma filedup_eq (used : 1 ≤ (s.ftable f).ref) :
    filedup f s = .ok ((), putFile s f { s.ftable f with ref := (s.ftable f).ref + 1 }) := by
  unfold filedup
  rw [bind_of_eq rfl, if_neg (by omega)]
  rfl

lemma argfd_eq (s : State n I P) (p fd) : argfd p fd s = .ok (none, s) ∨
    ∃ slot f, (s.proc p).ofile slot = some f ∧ argfd p fd s = .ok (some (slot, f), s) := by
  unfold argfd
  rw [bind_of_eq rfl]
  by_cases bound : 0 ≤ fd ∧ fd < nofile
  · rw [dif_pos bound]
    cases at_ : (s.proc p).ofile ⟨fd.toNat, by omega⟩ with
    | none => exact .inl rfl
    | some f => exact .inr ⟨_, f, at_, rfl⟩
  · rw [dif_neg bound]
    exact .inl rfl

end

lemma iput_safe (h : Sound s d k) {i : I} (mine : 1 ≤ owned s k (.inode i) + cwds s i)
    (k') (hk : ∀ x, k' x = k x - if x = .inode i then 1 else 0) :
    Safe E (iput i) s fun _ t => Sound t d k' ∧ t.proc = s.proc ∧ t.ftable = s.ftable := by
  have old := h.irefs i
  refine safe_modify ⟨h.withIref fun x => ?_, rfl, rfl⟩
  rw [hk]
  split_ifs <;> omega

lemma ends_one_left : ends 1 w = some ⟨true, decide (w ≠ 0)⟩ := by
  rw [ends, if_neg (by omega)]
  rfl

lemma ends_one_right : ends r 1 = some ⟨decide (r ≠ 0), true⟩ := by
  rw [ends, if_neg (by omega)]
  rfl

lemma ends_close (last : if writable then w = 1 ∧ w' = 0 ∧ r' = r else r = 1 ∧ r' = 0 ∧ w' = w) :
    ∃ pi, ends r w = some pi ∧ ends r' w' =
      if (closeEnd pi writable).readopen = false ∧ (closeEnd pi writable).writeopen = false then none
      else some (closeEnd pi writable) := by
  cases writable with
  | false =>
    obtain ⟨rfl, rfl, rfl⟩ := last
    refine ⟨_, ends_one_left, ?_⟩
    by_cases zero : w' = 0 <;> simp [ends, closeEnd, zero]
  | true =>
    obtain ⟨rfl, rfl, rfl⟩ := last
    refine ⟨_, ends_one_right, ?_⟩
    by_cases zero : r' = 0 <;> simp [ends, closeEnd, zero]

lemma pipeclose_safe (h : Sound s d k) (he : e = if writable then .writeEnd x else .readEnd x) (mine : 1 ≤ k e)
    (hk : ∀ y, k' y = k y - if y = e then 1 else 0) :
    Safe E (pipeclose x writable) s fun _ t => Sound t d k' ∧ t.proc = s.proc ∧ t.ftable = s.ftable := by
  have less : ∀ y, owned s k' y = owned s k y - if y = e then 1 else 0 := by
    intro y
    have new := hk y
    unfold owned
    omega
  have atLeast : 1 ≤ owned s k e := by
    unfold owned
    omega
  have reader := h.reader x
  have writer := h.writer x
  have reader' := less (.readEnd x)
  have writer' := less (.writeEnd x)
  have last : if writable then owned s k (.writeEnd x) = 1 ∧ owned s k' (.writeEnd x) = 0 ∧
        owned s k' (.readEnd x) = owned s k (.readEnd x)
      else owned s k (.readEnd x) = 1 ∧ owned s k' (.readEnd x) = 0 ∧
        owned s k' (.writeEnd x) = owned s k (.writeEnd x) := by
    cases writable <;> subst he <;> simp at reader' writer' atLeast ⊢ <;> omega
  have bounds : 0 ≤ owned s k' (.readEnd x) ∧ owned s k' (.readEnd x) ≤ 1 ∧
    0 ≤ owned s k' (.writeEnd x) ∧ owned s k' (.writeEnd x) ≤ 1 := by
    cases writable <;> simp at last <;> omega
  obtain ⟨pi, open_, closed⟩ := ends_close last
  have here := (h.page x).trans open_
  have balance := h.allocs x
  rw [here, Option.isSome_some, if_pos rfl] at balance
  have others : ∀ y, y ≠ .readEnd x → y ≠ .writeEnd x → k' y = k y := by
    intro y ne1 ne2
    rw [hk, if_neg, sub_zero]
    rw [he]
    cases writable <;> assumption
  refine safe_get ?_
  rw [here]
  refine safe_bind_eq rfl ?_
  by_cases both : (closeEnd pi writable).readopen = false ∧ (closeEnd pi writable).writeopen = false
  · rw [if_pos both] at closed ⊢
    refine safe_modify ⟨h.putPage rfl rfl rfl ?_ (fun _ _ => rfl) (fun y other => ?_) ?_ others
      ⟨bounds.1, bounds.2.1⟩ bounds.2.2 closed.symm, rfl, rfl⟩
    · exact update_idem ..
    · exact update_of_ne other ..
    · change s.allocs x = update s.frees x (s.frees x + 1) x + 0
      rw [update_self]
      exact balance
  · rw [if_neg both] at closed ⊢
    exact safe_pure ⟨h.putPage rfl rfl rfl rfl (fun _ _ => rfl) (fun _ _ => rfl) balance others
      ⟨bounds.1, bounds.2.1⟩ bounds.2.2 closed.symm, rfl, rfl⟩

structure Closed (s : State n I P) (f : Fin nfile) (t : State n I P) : Prop where
  proc : t.proc = s.proc
  ref : (t.ftable f).ref = (s.ftable f).ref - 1
  other : ∀ g, g ≠ f → t.ftable g = s.ftable g
  last : (s.ftable f).ref = 1 → (t.ftable f).type = .none

lemma fileclose_safe (h : Sound s d k) (hand : ∀ x, 0 ≤ k x) (used : 1 ≤ (s.ftable f).ref)
    (d') (hd : ∀ g, d' g = d g - if g = f then 1 else 0) :
    Safe E (fileclose f) s fun _ t => Sound t d' k ∧ Closed s f t := by
  refine safe_get ?_
  rw [if_neg (by omega)]
  by_cases more : 0 < (s.ftable f).ref - 1
  · rw [if_pos more]
    refine safe_set ⟨h.withRef (by omega) fun g => ?_, rfl, ?_, fun g other => ?_, fun last => ?_⟩
    · rw [hd]
      split_ifs <;> omega
    · exact congrArg File.ref (update_self f _ s.ftable)
    · exact update_of_ne other ..
    · omega
  · rw [if_neg more]
    refine safe_bind_eq rfl ?_
    -- The table no longer has the file, and what it held is in hand.
    have empty : holds { s.ftable f with ref := 0, type := .none } = none := rfl
    have freed : Sound (putFile s f { s.ftable f with ref := 0, type := .none }) d'
      fun x => k x + one (holds (s.ftable f)) x := by
      refine h.withFile (fun _ => rfl) (fun ne => absurd rfl ne) (fun g => ?_) fun x => ?_
      · rw [hd]
        split_ifs
        · change _ = d g + (((0 : Nat) : Int) - _)
          omega
        · omega
      · rw [empty, one_none]
        omega
    have shut : ∀ t, t.proc = (putFile s f { s.ftable f with ref := 0, type := .none }).proc →
      t.ftable = (putFile s f { s.ftable f with ref := 0, type := .none }).ftable → Closed s f t := by
      intro t proc files
      have at_ : t.ftable f = { s.ftable f with ref := 0, type := .none } := by
        rw [files]
        exact update_self ..
      refine ⟨proc, ?_, fun g other => ?_, fun _ => ?_⟩
      · rw [at_]
        change 0 = _
        omega
      · rw [files]
        exact update_of_ne other ..
      · rw [at_]
    have formed := h.formed f
    generalize putFile s f { s.ftable f with ref := 0, type := .none } = u at freed shut ⊢
    have putInode : ∀ i, holds (s.ftable f) = some (.inode i) →
      Safe E (iput i) u fun _ t => Sound t d' k ∧ Closed s f t := by
      intro i held
      have nonneg := hand (.inode i)
      rw [held] at freed
      refine (iput_safe freed ?_ k fun x => ?_).mono fun _ t post => ⟨post.1, shut t post.2.1 post.2.2⟩
      · have here : one (some (Hold.inode (P := P) i)) (.inode i) = 1 := if_pos rfl
        simp only [owned, here]
        omega
      · rw [one_some]
        split_ifs <;> omega
    cases type : (s.ftable f).type with
    | none =>
      have held : holds (s.ftable f) = none := by simp [holds, type]
      refine safe_pure ⟨?_, shut _ rfl rfl⟩
      simpa [held] using freed
    | pipe =>
      cases at_ : (s.ftable f).pipe with
      | none => simp [holds, type, at_] at formed
      | some x =>
        have held : holds (s.ftable f) = some (if (s.ftable f).writable then .writeEnd x else .readEnd x) := by
          simp [holds, type, at_]
        rw [held] at freed
        refine (pipeclose_safe freed rfl ?_ fun y => ?_).mono fun _ t post => ⟨post.1, shut t post.2.1 post.2.2⟩
        · rw [one_some, if_pos rfl]
          have nonneg := hand (if (s.ftable f).writable then .writeEnd x else .readEnd x)
          omega
        · rw [one_some]
          split_ifs <;> omega
    | inode =>
      cases at_ : (s.ftable f).ip with
      | none => simp [holds, type, at_] at formed
      | some i => exact putInode i (by simp [holds, type, at_])
    | device =>
      cases at_ : (s.ftable f).ip with
      | none => simp [holds, type, at_] at formed
      | some i => exact putInode i (by simp [holds, type, at_])

/-- A slot without a process has no descriptors, and a process has a directory. -/
structure Idle (s : State n I P) : Prop where
  vacant : ∀ p, (s.proc p).live = false → (∀ fd, (s.proc p).ofile fd = none) ∧ (s.proc p).cwd = none
  housed : ∀ p, (s.proc p).live = true → (s.proc p).cwd ≠ none

structure Inv (s : State n I P) : Prop where
  sound : Sound s (fun _ => 0) (fun _ => 0)
  idle : Idle s

structure Same (s t : State n I P) : Prop where
  proc : t.proc = s.proc
  ref : ∀ f, (t.ftable f).ref = (s.ftable f).ref
  iref : t.iref = s.iref
  page : t.page = s.page

variable {rf wf : Fin nfile}

omit [DecidableEq I] [DecidableEq P] in
lemma holds_of_none (h : file.type = .none) : holds file = none := by simp [holds, h]

lemma same_of_holds (hs : Sound s (fun _ => 0) (fun _ => 0)) (ht : Sound t (fun _ => 0) (fun _ => 0))
    (proc : t.proc = s.proc) (held : ∀ f, holds (t.ftable f) = holds (s.ftable f)) : Same s t := by
  have own : ∀ x, owned t (fun _ => 0) x = owned s (fun _ => 0) x := by
    intro x
    simp only [owned, count, held]
  refine ⟨proc, fun f => ?_, funext fun i => ?_, funext fun x => ?_⟩
  · have old := hs.refs f
    have new := ht.refs f
    have slot : slots t f = slots s f := by simp only [slots, proc]
    omega
  · have old := hs.irefs i
    have new := ht.irefs i
    have cwd : cwds t i = cwds s i := by simp only [cwds, proc]
    rw [own] at new
    omega
  · rw [ht.page, hs.page, own, own]

section
omit [DecidableEq I] [DecidableEq P]

lemma Idle.change (h : Idle s) (others : ∀ q, q ≠ p → t.proc q = s.proc q)
    (vacant : (t.proc p).live = false → (∀ fd, (t.proc p).ofile fd = none) ∧ (t.proc p).cwd = none)
    (housed : (t.proc p).live = true → (t.proc p).cwd ≠ none) : Idle t := by
  constructor
  · intro q dead
    by_cases here : q = p
    · subst here
      exact vacant dead
    · rw [others q here] at dead ⊢
      exact h.vacant q dead
  · intro q alive
    by_cases here : q = p
    · subst here
      exact housed alive
    · rw [others q here] at alive ⊢
      exact h.housed q alive

lemma putOfile_self (s : State n I P) (p fd v) :
    ((putOfile s p fd v).proc p) = { s.proc p with ofile := update (s.proc p).ofile fd v } :=
  update_self ..

lemma putOfile_other (s : State n I P) (ne : q ≠ p) (fd v) : (putOfile s p fd v).proc q = s.proc q :=
  update_of_ne ne ..

lemma Idle.putOfile (h : Idle s) (live : (s.proc p).live = true) (fd : Fin nofile) (v) : Idle (putOfile s p fd v) := by
  refine h.change (fun q other => putOfile_other s other fd v) (fun dead => ?_) fun _ => ?_
  · rw [putOfile_self] at dead
    change (s.proc p).live = false at dead
    rw [live] at dead
    cases dead
  · rw [putOfile_self]
    exact h.housed p live

lemma Idle.congr (h : Idle s) (proc : t.proc = s.proc) : Idle t := by
  constructor
  · rw [proc]
    exact h.vacant
  · rw [proc]
    exact h.housed

end

lemma Inv.used (inv : Inv s) (at_ : (s.proc p).ofile fd = some f) : 1 ≤ (s.ftable f).ref := by
  have refs := inv.sound.refs f
  have pos := slots_pos at_
  omega

lemma sysDup_safe (inv : Inv s) (live : (s.proc p).live = true) (fd : Int) :
    Safe E (sysDup p fd) s fun r t => Inv t ∧ (r = -1 → Same s t) := by
  have same := same_of_holds inv.sound inv.sound rfl fun _ => rfl
  rcases argfd_eq s p fd with bad | ⟨slot, f, at_, ok⟩
  · exact safe_bind_eq bad (safe_pure ⟨inv, fun _ => same⟩)
  refine safe_bind_eq ok ?_
  rcases fdalloc_eq s p f with full | ⟨fd, vacant, ok⟩
  · exact safe_bind_eq full (safe_pure ⟨inv, fun _ => same⟩)
  refine safe_bind_eq ok ?_
  -- The new descriptor is there before its reference.
  have early : Sound (putOfile s p fd (some f)) (fun g => -(one (some f) g)) (fun _ => 0) := by
    refine inv.sound.withOfile (some f) fun g => ?_
    rw [vacant, one_none]
    omega
  refine safe_bind_eq (filedup_eq (inv.used at_)) (safe_pure ⟨⟨?_, ?_⟩, fun eq => ?_⟩)
  · refine early.withRef (by omega) fun g => ?_
    rw [one_some]
    change _ = _ + if g = f then (((s.ftable f).ref + 1 : Nat) : Int) - (s.ftable f).ref else 0
    split_ifs <;> omega
  · exact (inv.idle.putOfile live fd (some f)).congr rfl
  · omega

lemma sysClose_safe (inv : Inv s) (live : (s.proc p).live = true) (fd : Int) :
    Safe E (sysClose p fd) s fun r t => Inv t ∧ (r = -1 → Same s t) := by
  have same := same_of_holds inv.sound inv.sound rfl fun _ => rfl
  rcases argfd_eq s p fd with bad | ⟨slot, f, at_, ok⟩
  · exact safe_bind_eq bad (safe_pure ⟨inv, fun _ => same⟩)
  refine safe_bind_eq ok (safe_mod ?_)
  have late : Sound (putOfile s p slot none) (fun g => one (some f) g) (fun _ => 0) := by
    refine inv.sound.withOfile none fun g => ?_
    rw [at_, one_none]
    omega
  refine (fileclose_safe late (fun _ => le_rfl) (inv.used at_) (fun _ => 0) fun g => ?_).bind
    fun _ t post => safe_pure ⟨⟨post.1, ?_⟩, fun eq => ?_⟩
  · rw [one_some]
    split_ifs <;> omega
  · exact (inv.idle.putOfile live slot none).congr post.2.proc
  · omega

lemma sysOpen_safe (inv : Inv s) (live : (s.proc p).live = true) (omode found) :
    Safe E (sysOpen p omode found) s fun r t => Inv t ∧ (r = -1 → Same s t) := by
  cases found with
  | none => exact safe_pure ⟨inv, fun _ => same_of_holds inv.sound inv.sound rfl fun _ => rfl⟩
  | some ip =>
    have hand : ∀ x : Hold I P, (0 : Int) ≤ one (some (.inode ip.ip)) x := fun x => by omega
    have got : Sound (putIref s ip.ip (s.iref ip.ip + 1)) (fun _ => 0) fun x => one (some (.inode ip.ip)) x := by
      refine inv.sound.withIref fun x => ?_
      rw [one_some]
      split_ifs <;> omega
    -- Every failure puts the inode back, in a state with the files as they were.
    have undo : ∀ u : State n I P, Sound u (fun _ => 0) (fun x => one (some (.inode ip.ip)) x) →
      u.proc = s.proc → (∀ f, holds (u.ftable f) = holds (s.ftable f)) →
      Safe E (do iput ip.ip; return -1) u fun r t => Inv t ∧ (r = -1 → Same s t) := by
      intro u hu proc held
      refine (iput_safe hu ?_ (fun _ => 0) fun x => ?_).bind fun _ t post => ?_
      · have here : one (some (Hold.inode (P := P) ip.ip)) (.inode ip.ip) = 1 := if_pos rfl
        simp only [owned, here]
        omega
      · rw [one_some]
        split_ifs <;> omega
      · obtain ⟨sound, proc', files⟩ := post
        refine safe_pure ⟨⟨sound, inv.idle.congr (proc'.trans proc)⟩, fun _ => ?_⟩
        refine same_of_holds inv.sound sound (proc'.trans proc) fun f => ?_
        rw [files]
        exact held f
    refine safe_mod ?_
    by_cases dir : omode &&& FsCalls.oCreate = 0 ∧ ip.type = .dir ∧ omode ≠ FsCalls.oRdonly
    · rw [if_pos dir]
      exact undo _ got rfl fun _ => rfl
    rw [if_neg dir]
    by_cases dev : ip.type = .device ∧ (ip.major < 0 ∨ FsCalls.ndev ≤ ip.major)
    · rw [if_pos dev]
      exact undo _ got rfl fun _ => rfl
    rw [if_neg dev]
    rcases filealloc_eq (putIref s ip.ip (s.iref ip.ip + 1)) with full | ⟨f, zero, ok⟩
    · exact safe_bind_eq full (undo _ got rfl fun _ => rfl)
    refine safe_bind_eq ok ?_
    have none_ := inv.sound.closed f zero
    have taken : Sound (putFile (putIref s ip.ip (s.iref ip.ip + 1)) f { s.ftable f with ref := 1 })
      (fun g => one (some f) g) fun x => one (some (.inode ip.ip)) x := by
      refine got.withRef (by omega) fun g => ?_
      rw [one_some, zero]
      split_ifs <;> omega
    have here : (putFile (putIref s ip.ip (s.iref ip.ip + 1)) f { s.ftable f with ref := 1 }).ftable f =
      { s.ftable f with ref := 1 } := update_self ..
    have away : ∀ g, g ≠ f → (putFile (putIref s ip.ip (s.iref ip.ip + 1)) f
      { s.ftable f with ref := 1 }).ftable g = s.ftable g := fun g other =>
      update_of_ne other ..
    change Safe E _ (putFile (putIref s ip.ip (s.iref ip.ip + 1)) f { s.ftable f with ref := 1 }) _
    have proc : (putFile (putIref s ip.ip (s.iref ip.ip + 1)) f { s.ftable f with ref := 1 }).proc = s.proc := rfl
    generalize putFile (putIref s ip.ip (s.iref ip.ip + 1)) f { s.ftable f with ref := 1 } = u at *
    rcases fdalloc_eq u p f with full | ⟨fd, vacant, ok⟩
    · refine safe_bind_eq full ?_
      refine (fileclose_safe taken hand (by rw [here]) (fun _ => 0) fun g => ?_).bind fun _ t post => ?_
      · rw [one_some]
        split_ifs <;> omega
      · obtain ⟨sound, shut⟩ := post
        refine undo t sound (shut.proc.trans proc) fun g => ?_
        by_cases mine : g = f
        · subst mine
          rw [holds_of_none (shut.last (by rw [here])), holds_of_none none_]
        · rw [shut.other g mine, away g mine]
    · refine safe_bind_eq ok (safe_mod (safe_pure ⟨⟨?_, ?_⟩, fun eq => ?_⟩))
      · have placed : Sound (putOfile u p fd (some f)) (fun _ => 0) fun x => one (some (.inode ip.ip)) x := by
          refine taken.withOfile (some f) fun g => ?_
          rw [vacant, one_none]
          omega
        have held : holds (opening (u.ftable f) ip omode) = some (.inode ip.ip) := by
          unfold holds opening
          by_cases device : ip.type = .device <;> simp [device]
        have before : holds (u.ftable f) = none := by
          rw [here]
          exact holds_of_none none_
        have ref : (u.ftable f).ref = 1 := by rw [here]
        exact placed.setUp rfl ref before held fun x => by omega
      · refine ((inv.idle.congr proc).putOfile ?_ fd (some f)).congr rfl
        rw [proc]
        exact live
      · omega

def inHand (rf wf g : Fin nfile) : Int := (if g = rf then 1 else 0) + if g = wf then 1 else 0

lemma closeBoth_safe (r : α) (h : Sound s (inHand rf wf) (fun _ => 0)) (ne : rf ≠ wf)
    (one0 : (s.ftable rf).ref = 1) (one1 : (s.ftable wf).ref = 1) :
    Safe E (do fileclose rf; fileclose wf; return r) s fun r' t => r' = r ∧
      Sound t (fun _ => 0) (fun _ => 0) ∧ t.proc = s.proc ∧ (t.ftable rf).type = .none ∧
      (t.ftable wf).type = .none ∧ ∀ g, g ≠ rf → g ≠ wf → t.ftable g = s.ftable g := by
  refine (fileclose_safe h (fun _ => le_rfl) (by omega) (fun g => if g = wf then 1 else 0)
    fun g => ?_).bind fun _ t first => ?_
  · rw [inHand]
    omega
  obtain ⟨sound, shut⟩ := first
  have still := shut.other wf ne.symm
  refine (fileclose_safe sound (fun _ => le_rfl) (by rw [still]; omega) (fun _ => 0)
    fun g => by omega).bind fun _ u second => ?_
  obtain ⟨sound', shut'⟩ := second
  refine safe_pure ⟨rfl, sound', shut'.proc.trans shut.proc, ?_, shut'.last (by rw [still]; exact one1),
    fun g ne0 ne1 => ?_⟩
  · rw [shut'.other rf ne]
    exact shut.last one0
  · rw [shut'.other g ne1, shut.other g ne0]

def withNew (s : State n I P) (f : Fin nfile) : State n I P :=
  putFile s f { s.ftable f with ref := 1 }

section
omit [DecidableEq I] [DecidableEq P]

lemma withNew_self (s : State n I P) (f) : (withNew s f).ftable f = { s.ftable f with ref := 1 } := update_self ..

lemma withNew_other (s : State n I P) (ne : g ≠ f) : (withNew s f).ftable g = s.ftable g := update_of_ne ne ..

end

structure Made (s : State n I P) (rf wf : Fin nfile) (t : State n I P) : Prop where
  sound : Sound t (inHand rf wf) (fun _ => 0)
  ne : rf ≠ wf
  proc : t.proc = s.proc
  ref₀ : (t.ftable rf).ref = 1
  ref₁ : (t.ftable wf).ref = 1
  none₀ : (s.ftable rf).type = .none
  none₁ : (s.ftable wf).type = .none
  other : ∀ g, g ≠ rf → g ≠ wf → t.ftable g = s.ftable g

lemma Made.undo (r : α) (inv : Inv s) (m : Made s rf wf t) :
    Safe E (do fileclose rf; fileclose wf; return r) t fun r' u => r' = r ∧ Inv u ∧ Same s u := by
  refine (closeBoth_safe r m.sound m.ne m.ref₀ m.ref₁).mono fun r' u post => ?_
  obtain ⟨eq, sound, proc, gone0, gone1, other⟩ := post
  have procs := proc.trans m.proc
  refine ⟨eq, ⟨sound, inv.idle.congr procs⟩, same_of_holds inv.sound sound procs fun g => ?_⟩
  by_cases here0 : g = rf
  · subst here0
    rw [holds_of_none gone0, holds_of_none m.none₀]
  by_cases here1 : g = wf
  · subst here1
    rw [holds_of_none gone1, holds_of_none m.none₁]
  · rw [other g here0 here1, m.other g here0 here1]

lemma pipealloc_safe (inv : Inv s) {page : Option P} (free : ∀ x, page = some x → s.page x = none) :
    Safe E (pipealloc page) s fun r t =>
      match r with
      | none => Inv t ∧ Same s t
      | some (rf, wf) => Made s rf wf t := by
  have same := same_of_holds inv.sound inv.sound rfl fun _ => rfl
  rcases filealloc_eq s with full | ⟨f0, zero0, ok0⟩
  · exact safe_bind_eq full (safe_pure ⟨inv, same⟩)
  refine safe_bind_eq ok0 ?_
  have none0 := inv.sound.closed f0 zero0
  have first : Sound (withNew s f0) (fun g => if g = f0 then 1 else 0) (fun _ => 0) := by
    refine inv.sound.withRef (by omega) fun g => ?_
    rw [zero0]
    split_ifs <;> omega
  change Safe E _ (withNew s f0) _
  rcases filealloc_eq (withNew s f0) with full | ⟨f1, zero1, ok1⟩
  · refine safe_bind_eq full ?_
    refine (fileclose_safe first (fun _ => le_rfl) (by rw [withNew_self]) (fun _ => 0)
      fun g => by omega).bind fun _ t post => ?_
    obtain ⟨sound, shut⟩ := post
    refine safe_pure ⟨⟨sound, inv.idle.congr shut.proc⟩, same_of_holds inv.sound sound shut.proc fun g => ?_⟩
    by_cases mine : g = f0
    · subst mine
      rw [holds_of_none (shut.last (by rw [withNew_self])), holds_of_none none0]
    · rw [shut.other g mine, withNew_other s mine]
  refine safe_bind_eq ok1 ?_
  have ne : f0 ≠ f1 := by
    rintro rfl
    rw [withNew_self] at zero1
    cases zero1
  have was : (withNew s f0).ftable f1 = s.ftable f1 := withNew_other s ne.symm
  have none1 := first.closed f1 zero1
  have second : Sound (withNew (withNew s f0) f1) (inHand f0 f1) (fun _ => 0) := by
    refine first.withRef (by omega) fun g => ?_
    rw [zero1, inHand]
    split_ifs <;> omega
  have here0 : (withNew (withNew s f0) f1).ftable f0 = { s.ftable f0 with ref := 1 } := by
    rw [withNew_other _ ne, withNew_self]
  have here1 : (withNew (withNew s f0) f1).ftable f1 = { s.ftable f1 with ref := 1 } := by rw [withNew_self, was]
  rw [was] at none1
  change Safe E _ (withNew (withNew s f0) f1) _
  cases page with
  | none =>
    refine (Made.undo (r := none) inv ⟨second, ne, rfl, by rw [here0], by rw [here1], none0, none1,
      fun g ne0 ne1 => ?_⟩).mono fun r u post => ?_
    · rw [withNew_other _ ne1, withNew_other _ ne0]
    · obtain ⟨rfl, inv', same'⟩ := post
      exact ⟨inv', same'⟩
  | some x =>
    have vacant : (withNew (withNew s f0) f1).page x = none := free x rfl
    refine safe_mod (safe_mod (safe_mod (safe_pure ?_)))
    have empty0 : holds ((withNew (withNew s f0) f1).ftable f0) = none := by
      rw [here0]
      exact holds_of_none none0
    have empty1 : holds ((withNew (withNew s f0) f1).ftable f1) = none := by
      rw [here1]
      exact holds_of_none none1
    have away : ∀ g, g ≠ f0 → g ≠ f1 → (withNew (withNew s f0) f1).ftable g = s.ftable g := by
      intro g ne0 ne1
      rw [withNew_other _ ne1, withNew_other _ ne0]
    have ref0 : ((withNew (withNew s f0) f1).ftable f0).ref = 1 := by rw [here0]
    have ref1 : ((withNew (withNew s f0) f1).ftable f1).ref = 1 := by rw [here1]
    have proc : (withNew (withNew s f0) f1).proc = s.proc := rfl
    generalize withNew (withNew s f0) f1 = u at *
    have piped := second.withPipe vacant
    have left : (putFile (putPipe u x) f0 (readEnd (u.ftable f0) x)).ftable f1 = u.ftable f1 :=
      update_of_ne ne.symm ..
    have one0 : Sound (putFile (putPipe u x) f0 (readEnd (u.ftable f0) x)) (inHand f0 f1)
      fun y => one (some (.writeEnd x)) y :=
      piped.setUp (e := .readEnd x) rfl ref0 empty0 rfl fun y => by omega
    have both : Sound (putFile (putFile (putPipe u x) f0 (readEnd (u.ftable f0) x)) f1
      (writeEnd (u.ftable f1) x)) (inHand f0 f1) (fun _ => 0) := by
      rw [← left] at ref1 empty1 ⊢
      exact one0.setUp (e := .writeEnd x) rfl ref1 empty1 rfl fun y => by omega
    change Made s f0 f1 (putFile (putFile (putPipe u x) f0 (readEnd (u.ftable f0) x)) f1
      (writeEnd ((putFile (putPipe u x) f0 (readEnd (u.ftable f0) x)).ftable f1) x))
    rw [left]
    have at0 : (putFile (putFile (putPipe u x) f0 (readEnd (u.ftable f0) x)) f1
      (writeEnd (u.ftable f1) x)).ftable f0 = readEnd (u.ftable f0) x :=
      (update_of_ne ne ..).trans (update_self ..)
    have at1 : (putFile (putFile (putPipe u x) f0 (readEnd (u.ftable f0) x)) f1
      (writeEnd (u.ftable f1) x)).ftable f1 = writeEnd (u.ftable f1) x :=
      update_self ..
    refine ⟨both, ne, proc, ?_, ?_, none0, none1, fun g ne0 ne1 => ?_⟩
    · rw [at0]
      exact ref0
    · rw [at1]
      exact ref1
    · rw [← away g ne0 ne1]
      exact (update_of_ne ne1 ..).trans (update_of_ne ne0 ..)

section
omit [DecidableEq I] [DecidableEq P]

lemma putOfile_comm (s : State n I P) (p) (ne : a ≠ b) (v w) :
    putOfile (putOfile s p a v) p b w = putOfile (putOfile s p b w) p a v := by
  unfold putOfile putProc
  simp [update_idem, update_comm ne]

lemma putOfile_undo (vacant : (s.proc p).ofile fd = none) (v) : putOfile (putOfile s p fd v) p fd none = s := by
  have same : update (s.proc p).ofile fd none = (s.proc p).ofile := by rw [← vacant, update_eq_self]
  unfold putOfile putProc
  simp [update_idem, same, update_eq_self]

end

lemma sysPipe_safe (inv : Inv s) (live : (s.proc p).live = true)
    (free : ∀ x, page = some x → s.page x = none) (copied) :
    Safe E (sysPipe p page copied) s fun r t => Inv t ∧ (r = -1 → Same s t) := by
  refine (pipealloc_safe inv free).bind fun r t post => ?_
  cases r with
  | none => exact safe_pure ⟨post.1, fun _ => post.2⟩
  | some files =>
    obtain ⟨rf, wf⟩ := files
    have m : Made s rf wf t := post
    have undo : Safe E (do fileclose rf; fileclose wf; return -1) t fun r t => Inv t ∧ (r = -1 → Same s t) :=
      (m.undo (-1) inv).mono fun _ _ post => ⟨post.2.1, fun _ => post.2.2⟩
    rcases fdalloc_eq t p rf with full | ⟨fd0, vacant0, ok0⟩
    · exact safe_bind_eq full undo
    refine safe_bind_eq ok0 ?_
    rcases fdalloc_eq (putOfile t p fd0 (some rf)) p wf with full | ⟨fd1, vacant1, ok1⟩
    · refine safe_bind_eq full (safe_mod ?_)
      rw [putOfile_undo vacant0]
      exact undo
    refine safe_bind_eq ok1 ?_
    have ne : fd0 ≠ fd1 := by
      rintro rfl
      rw [putOfile_self] at vacant1
      simp at vacant1
    have was : (t.proc p).ofile fd1 = none := by
      rw [putOfile_self] at vacant1
      simpa [update_of_ne ne.symm] using vacant1
    cases copied with
    | true =>
      refine safe_pure ⟨⟨?_, ?_⟩, nofun⟩
      · have one0 : Sound (putOfile t p fd0 (some rf)) (fun g => if g = wf then 1 else 0) (fun _ => 0) := by
          refine m.sound.withOfile (some rf) fun g => ?_
          rw [vacant0, one_none, one_some, inHand]
          split_ifs <;> omega
        refine one0.withOfile (some wf) fun g => ?_
        rw [vacant1, one_none, one_some]
        split_ifs <;> omega
      · have alive : (t.proc p).live = true := by
          rw [m.proc]
          exact live
        refine ((inv.idle.congr m.proc).putOfile alive fd0 (some rf)).putOfile ?_ fd1 (some wf)
        rw [putOfile_self]
        exact alive
    | false =>
      refine safe_mod (safe_mod ?_)
      rw [putOfile_comm t p ne, putOfile_undo (by
        rw [putOfile_self]
        simpa [update_of_ne ne] using vacant0), putOfile_undo was]
      exact undo

lemma dupFiles_safe {fds : List (Fin nofile)} (nodup : fds.Nodup)
    (h : Sound s (fun _ => 0) (fun _ => 0)) (vacant : ∀ fd ∈ fds, (s.proc np).ofile fd = none) :
    Safe E (dupFiles p np fds) s fun _ t => Sound t (fun _ => 0) (fun _ => 0) ∧
      (∀ q, q ≠ np → t.proc q = s.proc q) ∧ (t.proc np).cwd = (s.proc np).cwd := by
  induction fds generalizing s with
  | nil => exact safe_pure ⟨h, fun _ _ => rfl, rfl⟩
  | cons fd fds ih =>
    obtain ⟨notin, nodup⟩ := List.nodup_cons.mp nodup
    have here := vacant fd List.mem_cons_self
    have later : ∀ fd' ∈ fds, (s.proc np).ofile fd' = none := fun fd' mem =>
      vacant fd' (List.mem_cons_of_mem _ mem)
    refine safe_get ?_
    cases at_ : (s.proc p).ofile fd with
    | none => exact safe_pure_bind (ih nodup h later)
    | some f =>
      have refs := h.refs f
      have pos := slots_pos at_
      refine Safe.bind (Q := fun _ t => t = putOfile (putFile s f
        { s.ftable f with ref := (s.ftable f).ref + 1 }) np fd (some f)) ?_ ?_
      · exact safe_bind_eq (filedup_eq (by omega)) (safe_modify rfl)
      · rintro _ _ rfl
        have counted : Sound (putFile s f { s.ftable f with ref := (s.ftable f).ref + 1 })
          (fun g => one (some f) g) (fun _ => 0) := by
          refine h.withRef (by omega) fun g => ?_
          rw [one_some]
          split_ifs <;> omega
        have placed : Sound (putOfile (putFile s f
          { s.ftable f with ref := (s.ftable f).ref + 1 }) np fd (some f)) (fun _ => 0) (fun _ => 0) := by
          refine counted.withOfile (some f) fun g => ?_
          change (0 : Int) = _ + ((one ((s.proc np).ofile fd) g : Nat) : Int) - _
          rw [here, one_none]
          omega
        refine (ih nodup placed fun fd' mem => ?_).mono fun _ t post => ?_
        · rw [putOfile_self]
          change update (s.proc np).ofile fd (some f) fd' = none
          rw [update_of_ne (by rintro rfl; exact notin mem)]
          exact later fd' mem
        · obtain ⟨sound, others, cwd⟩ := post
          refine ⟨sound, fun q other => ?_, ?_⟩
          · rw [others q other, putOfile_other _ other]
            rfl
          · rw [cwd, putOfile_self]
            rfl

lemma Sound.withCwd (h : Sound s d k) (ofile : proc.ofile = (s.proc p).ofile)
    (hk : ∀ i, k' (.inode i) = k (.inode i) + one (s.proc p).cwd i - one proc.cwd i)
    (reader : ∀ x, k' (.readEnd x) = k (.readEnd x)) (writer : ∀ x, k' (.writeEnd x) = k (.writeEnd x)) :
    Sound (putProc s p proc) d k' := by
  have own : ∀ y, owned (putProc s p proc) k' y = count s y + k' y := fun _ => rfl
  have reader' : ∀ x, owned (putProc s p proc) k' (.readEnd x) = owned s k (.readEnd x) := by
    intro x
    rw [own, reader]
    rfl
  have writer' : ∀ x, owned (putProc s p proc) k' (.writeEnd x) = owned s k (.writeEnd x) := by
    intro x
    rw [own, writer]
    rfl
  refine ⟨fun g => ?_, h.closed, h.formed, fun i => ?_, fun x => ?_, fun x => ?_, fun x => ?_, h.allocs⟩
  · have moved := slots_putProc s p proc g
    have same : points proc g = points (s.proc p) g := by
      unfold points
      rw [ofile]
    have old := h.refs g
    change ((s.ftable g).ref : Int) = _
    omega
  · have moved := cwds_putProc s p proc i
    have old := h.irefs i
    have new := hk i
    rw [own]
    change (s.iref i : Int) = _
    unfold owned at old
    omega
  · rw [reader']
    exact h.reader x
  · rw [writer']
    exact h.writer x
  · rw [reader', writer']
    exact h.page x

lemma fork_safe (inv : Inv s) (live : (s.proc p).live = true) {child : Option (Fin n)}
    (unused : ∀ np, child = some np → (s.proc np).live = false) :
    Safe E (fork p child) s fun r t => Inv t ∧ (r = -1 → Same s t) := by
  cases child with
  | none => exact safe_pure ⟨inv, fun _ => same_of_holds inv.sound inv.sound rfl fun _ => rfl⟩
  | some np =>
    have dead := unused np rfl
    have ne : p ≠ np := by
      rintro rfl
      rw [live] at dead
      cases dead
    obtain ⟨noFiles, noCwd⟩ := inv.idle.vacant np dead
    refine (dupFiles_safe (List.nodup_finRange _) inv.sound fun fd _ => noFiles fd).bind fun _ t post => ?_
    obtain ⟨sound, others, cwd⟩ := post
    refine safe_get ?_
    obtain ⟨i, at_⟩ := Option.ne_none_iff_exists'.mp (inv.idle.housed p live)
    have there : (t.proc p).cwd = some i := by
      rw [others p ne]
      exact at_
    rw [there]
    refine safe_bind_eq rfl (safe_mod (safe_pure ⟨⟨?_, ?_⟩, nofun⟩))
    · have held : Sound (putIref t i (t.iref i + 1)) (fun _ => 0) fun x => one (some (.inode i)) x := by
        refine sound.withIref fun x => ?_
        rw [one_some]
        split_ifs <;> omega
      refine held.withCwd rfl (fun j => ?_) (fun x => ?_) fun x => ?_
      · change (0 : Int) = _ + ((one (t.proc np).cwd j : Nat) : Int) - (one (t.proc p).cwd j : Nat)
        rw [cwd, noCwd, there, one_none]
        simp only [one_some, Hold.inode.injEq]
        omega
      · rw [one_some, if_neg nofun]
        rfl
      · rw [one_some, if_neg nofun]
        rfl
    · refine inv.idle.change (p := np) (fun q other => ?_) (fun dead' => ?_) fun _ => ?_
      · exact (update_of_ne other ..).trans (others q other)
      · simp [putProc] at dead'
      · simp [putProc, putIref, there]

lemma closeFiles_safe (h : Sound s (fun _ => 0) (fun _ => 0)) :
    Safe E (closeFiles p fds) s fun _ t => Sound t (fun _ => 0) (fun _ => 0) ∧
      (∀ q, q ≠ p → t.proc q = s.proc q) ∧ (t.proc p).cwd = (s.proc p).cwd ∧
      (∀ fd, fd ∈ fds ∨ (s.proc p).ofile fd = none → (t.proc p).ofile fd = none) := by
  induction fds generalizing s with
  | nil => exact safe_pure ⟨h, fun _ _ => rfl, rfl, fun fd or => or.resolve_left nofun⟩
  | cons fd fds ih =>
    refine safe_get ?_
    cases at_ : (s.proc p).ofile fd with
    | none =>
      refine safe_pure_bind ((ih h).mono fun _ t post => ?_)
      obtain ⟨sound, others, cwd, gone⟩ := post
      refine ⟨sound, others, cwd, fun fd' or => gone fd' ?_⟩
      rcases or with mem | none_
      · rcases List.mem_cons.mp mem with rfl | mem
        · exact .inr at_
        · exact .inl mem
      · exact .inr none_
    | some f =>
      have refs := h.refs f
      have pos := slots_pos at_
      -- The reference goes before the descriptor.
      refine Safe.bind (Q := fun _ t => Sound t (fun _ => 0) (fun _ => 0) ∧
        ∃ u, u.proc = s.proc ∧ t = putOfile u p fd none) ?_ ?_
      · refine (fileclose_safe h (fun _ => le_rfl) (by omega) (fun g => -(one (some f) g))
          fun g => ?_).bind fun _ u post => ?_
        · rw [one_some]
          split_ifs <;> omega
        · obtain ⟨sound, shut⟩ := post
          refine safe_modify ⟨sound.withOfile none fun g => ?_, u, shut.proc, rfl⟩
          rw [shut.proc, at_, one_none]
          omega
      · rintro _ _ ⟨sound, u, proc, rfl⟩
        refine (ih sound).mono fun _ t post => ?_
        obtain ⟨sound', others, cwd, gone⟩ := post
        refine ⟨sound', fun q other => ?_, ?_, fun fd' or => gone fd' ?_⟩
        · rw [others q other, putOfile_other _ other, proc]
        · rw [cwd, putOfile_self, proc]
        · rw [putOfile_self, proc]
          by_cases here : fd' = fd
          · subst here
            exact .inr (update_self ..)
          · rcases or with mem | none_
            · exact .inl ((List.mem_cons.mp mem).resolve_left here)
            · exact .inr ((update_of_ne here ..).trans none_)

lemma exit_safe (inv : Inv s) (live : (s.proc p).live = true) :
    Safe E (exit p) s fun r t => Inv t ∧ (r = -1 → Same s t) := by
  refine (closeFiles_safe inv.sound).bind fun _ t post => ?_
  obtain ⟨sound, others, cwd, gone⟩ := post
  refine safe_get ?_
  obtain ⟨i, at_⟩ := Option.ne_none_iff_exists'.mp (inv.idle.housed p live)
  have there := cwd.trans at_
  rw [there]
  have pos := cwds_pos there
  refine (iput_safe sound ?_ (fun x => -(one (some (.inode i)) x)) fun x => ?_).bind fun _ u post => ?_
  · simp only [owned]
    omega
  · rw [one_some]
    split_ifs <;> omega
  · obtain ⟨sound', proc, -⟩ := post
    refine safe_mod (safe_pure ⟨⟨?_, ?_⟩, nofun⟩)
    · refine sound'.withCwd rfl (fun j => ?_) (fun x => ?_) fun x => ?_
      · rw [proc, there]
        simp only [one_some, Hold.inode.injEq, one_none]
        omega
      · rw [one_some, if_neg nofun]
        rfl
      · rw [one_some, if_neg nofun]
        rfl
    · refine inv.idle.change (p := p) (fun q other => ?_) (fun _ => ⟨fun fd => ?_, ?_⟩) fun alive => ?_
      · rw [← others q other, ← proc]
        exact update_of_ne other ..
      · have none_ := gone fd (.inl (List.mem_finRange fd))
        simpa [putProc, proc] using none_
      · simp [putProc]
      · simp [putProc] at alive

lemma perform_safe (inv : Inv s) (enabled : Enabled s a) :
    Safe E (perform a) s fun r t => Inv t ∧ (r = -1 → Same s t) := by
  obtain ⟨live, more⟩ := enabled
  cases a with
  | sysOpen p omode found => exact sysOpen_safe inv live omode found
  | sysPipe p page copied =>
    refine sysPipe_safe inv live (fun x eq => ?_) copied
    subst eq
    exact more
  | sysDup p fd => exact sysDup_safe inv live fd
  | sysClose p fd => exact sysClose_safe inv live fd
  | fork p child =>
    refine fork_safe inv live fun np eq => ?_
    subst eq
    exact more
  | exit p => exact exit_safe inv live

variable {first : Fin n} {root : I} {as : List (Act n I P)}

lemma inv_start : Inv (start first root : State n I P) := by
  have none_ : ∀ h, owned (start first root : State n I P) (fun _ => 0) h = 0 := by
    intro h
    have zero : count (start first root : State n I P) h = 0 := sum_eq_zero fun f _ => one_none h
    rw [owned, zero]
    rfl
  have procs : ∀ p, (start first root : State n I P).proc p =
    if p = first then ⟨true, some root, fun _ => none⟩ else ⟨false, none, fun _ => none⟩ := fun _ => rfl
  have files : ∀ p fd, ((start first root : State n I P).proc p).ofile fd = none := by
    intro p fd
    rw [procs]
    split_ifs <;> rfl
  refine ⟨⟨fun f => ?_, fun _ _ => rfl, fun f ne => absurd rfl ne, fun i => ?_, fun x => ?_, fun x => ?_,
    fun x => ?_, fun _ => rfl⟩, fun p dead => ⟨files p, ?_⟩, fun p alive => ?_⟩
  · have zero : slots (start first root : State n I P) f = 0 :=
      sum_eq_zero fun p _ => sum_eq_zero fun fd _ => by rw [files, one_none]
    rw [zero]
    rfl
  · have cwd : cwds (start first root : State n I P) i = if i = root then 1 else 0 := by
      have weight : ∀ p, one ((start first root : State n I P).proc p).cwd i =
        if p = first then (if i = root then 1 else 0) else 0 := by
        intro p
        rw [procs]
        by_cases here : p = first
        · rw [if_pos here, if_pos here, one_some]
        · rw [if_neg here, if_neg here, one_none]
      unfold cwds
      simp [weight]
    rw [none_, cwd, zero_add]
    rfl
  · rw [none_]
    omega
  · rw [none_]
    omega
  · rw [none_, none_]
    rfl
  · rw [procs] at dead ⊢
    split_ifs at dead ⊢
    rfl
  · rw [procs] at alive ⊢
    split_ifs at alive ⊢
    nofun

lemma inv_of_run (run : Run Step (start first root) as s) : Inv s := by
  refine run.invariant Inv (fun s a t inv step => ?_) inv_start
  unfold Step next at step
  split_ifs at step with enabled
  obtain ⟨r, u, eq, inv', -⟩ := (perform_safe inv enabled).returns
  rw [eq] at step
  cases step
  exact inv'

theorem file_refs_exact {n : Nat} {I P : Type} [DecidableEq I] [DecidableEq P] {first : Fin n}
    {root : I} {as : List (Act n I P)} {s : State n I P} (run : Run Step (start first root) as s) :
    (∀ f, (s.ftable f).ref = slots s f) ∧
    (∀ f, (s.ftable f).ref = 0 → (s.ftable f).type = .none ∧ ∀ p fd, (s.proc p).ofile fd ≠ some f) ∧
    (∀ f, (s.ftable f).type = .inode ∨ (s.ftable f).type = .device →
      ∃ i, (s.ftable f).ip = some i ∧ holds (s.ftable f) = some (.inode i)) ∧
    (∀ i, s.iref i = count s (.inode i) + cwds s i) ∧
    (∀ f x, (s.ftable f).type = .pipe → (s.ftable f).pipe = some x → s.page x ≠ none) ∧
    (∀ x, count s (.readEnd x) ≤ 1 ∧ count s (.writeEnd x) ≤ 1 ∧
      s.page x = ends (count s (.readEnd x)) (count s (.writeEnd x)) ∧
      s.allocs x = s.frees x + if count s (.readEnd x) = 0 ∧ count s (.writeEnd x) = 0 then 0 else 1) ∧
    (∀ a, Enabled s a → ∃ r t, perform a s = .ok (r, t) ∧ (r = -1 → Same s t)) := by
  have inv := inv_of_run run
  have own : ∀ h, owned s (fun _ => 0) h = count s h := fun h => add_zero _
  refine ⟨fun f => ?_, fun f zero => ⟨inv.sound.closed f zero, fun p fd at_ => ?_⟩, fun f type => ?_,
    fun i => ?_, fun f x type at_ => ?_, fun x => ?_, fun a enabled => ?_⟩
  · have refs := inv.sound.refs f
    omega
  · have used := inv.used at_
    omega
  · have formed := inv.sound.formed f
    have held : holds (s.ftable f) = (s.ftable f).ip.map .inode := by
      rcases type with type | type <;> simp only [holds, type]
    have isOpen : (s.ftable f).type ≠ .none := by
      rcases type with type | type <;> rw [type] <;> exact nofun
    have some' := formed isOpen
    rw [held, Option.isSome_map] at some'
    obtain ⟨i, ip⟩ := Option.isSome_iff_exists.mp some'
    exact ⟨i, ip, by rw [held, ip]; rfl⟩
  · have irefs := inv.sound.irefs i
    rw [own] at irefs
    omega
  · intro vacant
    have held : holds (s.ftable f) = some (if (s.ftable f).writable then .writeEnd x else .readEnd x) := by
      simp only [holds, type, at_, Option.map_some]
    have pos := count_pos held
    have page := inv.sound.page x
    rw [vacant, own, own] at page
    obtain ⟨reader, writer⟩ := ends_eq_none page.symm
    split_ifs at pos <;> omega
  · have reader := (inv.sound.reader x).2
    have writer := (inv.sound.writer x).2
    have page := inv.sound.page x
    have allocs := inv.sound.allocs x
    rw [own] at reader writer
    rw [own, own] at page
    refine ⟨by omega, by omega, page, ?_⟩
    rw [allocs, page, ends]
    by_cases both : count s (.readEnd x) = 0 ∧ count s (.writeEnd x) = 0
    · have none' : (count s (.readEnd x) : Int) = 0 ∧ (count s (.writeEnd x) : Int) = 0 := by omega
      rw [if_pos both, if_pos none']
      rfl
    · have some' : ¬ ((count s (.readEnd x) : Int) = 0 ∧ (count s (.writeEnd x) : Int) = 0) := by omega
      rw [if_neg both, if_neg some']
      rfl
  · obtain ⟨r, t, eq, -, same⟩ := (perform_safe inv enabled).returns
    exact ⟨r, t, eq, same⟩

def sharedPipe : List (Act 2 Unit Unit) :=
  [.sysPipe 0 (some ()) true, .fork 0 (some 1), .sysClose 0 0, .sysDup 0 1, .sysClose 0 1,
    .sysClose 0 0, .exit 1]

theorem file_refs_exact_shared_pipe :
    ∃ s : State 2 Unit Unit, Run Step (start 0 ()) sharedPipe s ∧ s.frees () = 1 ∧ s.iref () = 1 ∧
      ∀ f, (s.ftable f).ref = 0 → ∀ p fd, (s.proc p).ofile fd ≠ some f := by
  have ran : ((exec next (start 0 () : State 2 Unit Unit) sharedPipe).map fun s =>
    (s.frees (), s.iref ())) = some (1, 1) := by
    decide +kernel
  obtain ⟨s, hs, eq⟩ := Option.map_eq_some_iff.mp ran
  have run := run_of_exec next hs
  exact ⟨s, run, congrArg Prod.fst eq, congrArg Prod.snd eq, fun f zero => ((file_refs_exact run).2.1 f zero).2⟩

end Xv6.FdRefs
