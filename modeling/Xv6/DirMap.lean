import Xv6.FsDir
import Xv6.FsImage
import Xv6.Runs

/-! A directory is a partial map from strings to inode numbers: while `dirlookup`, `dirlink` and the
erasure of `sys_unlink` work on it in any order, no two entries in use have one name, and each
function does to the map what its name says. -/

namespace Xv6.DirMap

open Params CString FsMachine FsTree FsBlocks FsDisk FsTable FsDir Total Runs List
open Function (update update_of_ne update_self)

def bindings (es : List Dirent) (str : List UInt8) : Option Nat :=
  (es.find? fun e => e.inum ≠ 0 ∧ e.name = str).map Dirent.inum

def Distinct (es : List Dirent) : Prop :=
  ∀ (j j' : Nat) (e e' : Dirent), es[j]? = some e → es[j']? = some e' →
    e.inum ≠ 0 → e'.inum ≠ 0 → e.name = e'.name → j = j'

variable {i j : Nat}

lemma bindings_eq_some (distinct : Distinct es) :
    bindings es str = some i ↔ ∃ j : Nat, es[j]? = some ⟨i, str⟩ ∧ i ≠ 0 := by
  constructor
  · intro bound
    obtain ⟨e, found, rfl⟩ := Option.map_eq_some_iff.mp bound
    have here : e.inum ≠ 0 ∧ e.name = str := by simpa using find?_some found
    obtain ⟨j, at_⟩ := mem_iff_getElem?.mp (mem_of_find?_eq_some found)
    exact ⟨j, by rw [at_, ← here.2], here.1⟩
  · rintro ⟨j, here, used⟩
    cases found : es.find? fun e => e.inum ≠ 0 ∧ e.name = str with
    | none =>
      have absent := find?_eq_none.mp found _ (mem_of_getElem? here)
      simp [used] at absent
    | some e =>
      have match_ : e.inum ≠ 0 ∧ e.name = str := by simpa using find?_some found
      obtain ⟨j', at_⟩ := mem_iff_getElem?.mp (mem_of_find?_eq_some found)
      obtain rfl := distinct j j' _ _ here at_ used match_.1 match_.2.symm
      obtain rfl := Option.some.inj (here.symm.trans at_)
      rw [bindings, found]
      rfl

lemma bindings_eq_none : bindings es str = none ↔ ∀ e ∈ es, e.inum ≠ 0 → e.name ≠ str := by simp [bindings]

section
variable (distinct : Distinct es)
include distinct

lemma bindings_ext
    (same : ∀ str i, f str = some i ↔ ∃ j : Nat, es[j]? = some ⟨i, str⟩ ∧ i ≠ 0) : bindings es = f := by
  funext str
  apply Option.ext
  intro i
  rw [bindings_eq_some distinct, same]

lemma distinct_put (le : j ≤ es.length) (absent : bindings es str = none) (i) : Distinct (putEnt es j ⟨i, str⟩) := by
  rw [bindings_eq_none] at absent
  intro a b e e' ha hb used used' same
  rw [putEnt_getElem? _ _ le] at ha hb
  split at ha <;> split at hb
  · omega
  · cases ha
    exact absurd same.symm (absent e' (mem_of_getElem? hb) used')
  · cases hb
    exact absurd same (absent e (mem_of_getElem? ha) used)
  · exact distinct a b e e' ha hb used used' same

lemma bindings_put (le : j ≤ es.length)
    (free : ∀ e, es[j]? = some e → e.inum = 0) (absent : bindings es str = none) (used : i ≠ 0) :
    bindings (putEnt es j ⟨i, str⟩) = update (bindings es) str (some i) := by
  apply bindings_ext (distinct_put distinct le absent i)
  intro str' i'
  by_cases hs : str' = str
  · subst hs
    rw [update_self, Option.some.injEq]
    constructor
    · rintro rfl
      exact ⟨j, by rw [putEnt_getElem? _ _ le, if_pos rfl], used⟩
    · rintro ⟨j', here, used'⟩
      rw [putEnt_getElem? _ _ le] at here
      split at here
      · cases here
        rfl
      · exact absurd rfl (bindings_eq_none.mp absent _ (mem_of_getElem? here) used')
  · rw [update_of_ne hs, bindings_eq_some distinct]
    refine exists_congr fun j' => and_congr_left fun used' => ?_
    rw [putEnt_getElem? _ _ le]
    by_cases hj : j' = j
    · subst hj
      rw [if_pos rfl]
      constructor
      · intro here
        exact absurd (free _ here) used'
      · intro here
        cases here
        exact absurd rfl hs
    · rw [if_neg hj]

lemma distinct_clear (le : j ≤ es.length) : Distinct (putEnt es j ⟨0, []⟩) := by
  intro a b e e' ha hb used used' same
  rw [putEnt_getElem? _ _ le] at ha hb
  split at ha
  · cases ha
    exact absurd rfl used
  · split at hb
    · cases hb
      exact absurd rfl used'
    · exact distinct a b e e' ha hb used used' same

lemma bindings_clear (here : es[j]? = some ⟨i, str⟩) (used : i ≠ 0) :
    bindings (putEnt es j ⟨0, []⟩) = update (bindings es) str none := by
  have le : j ≤ es.length := le_of_lt (List.getElem?_eq_some_iff.mp here).1
  apply bindings_ext (distinct_clear distinct le)
  intro str' i'
  by_cases hs : str' = str
  · subst hs
    rw [update_self]
    constructor
    · intro bad
      cases bad
    · rintro ⟨j', at_, used'⟩
      rw [putEnt_getElem? _ _ le] at at_
      split at at_
      · cases at_
        exact absurd rfl used'
      · rename_i ne
        exact absurd (distinct j' j _ _ at_ here used' used rfl) ne
  · rw [update_of_ne hs, bindings_eq_some distinct]
    refine exists_congr fun j' => and_congr_left fun used' => ?_
    rw [putEnt_getElem? _ _ le]
    by_cases hj : j' = j
    · subst hj
      rw [if_pos rfl, here]
      constructor
      · intro eq
        cases eq
        exact absurd rfl hs
      · intro eq
        cases eq
        exact absurd rfl used'
    · rw [if_neg hj]

lemma bindings_of_find (here : es[j]? = some ⟨i, cstr name⟩) (used : i ≠ 0) : bindings es (cstr name) = some i :=
  (bindings_eq_some distinct).mpr ⟨j, here, used⟩

end

lemma bindings_of_find_none (absent : find es name = none) : bindings es (cstr name) = none :=
  bindings_eq_none.mpr fun _ mem used => find_none absent mem used

section

def entries (k : Slot) (s : Fs) : List Dirent := (tree s).ents (s.itable k).inum

inductive Op
  | lookup (name : List UInt8)
  | link (name : List UInt8) (inum : Nat)
  | erase (name : List UInt8)
  | release (l : Slot)

def taken (refs : Slot → Nat) (r : Option (Nat × Slot)) : Slot → Nat :=
  match r with
  | none => refs
  | some (_, l) => bump refs l

variable (sb : Super) (k : Slot)

def erase (off : Nat) : F Int :=
  writei sb k (kernelSrc (List.replicate direntSize 0)) off direntSize

/-- Beside the file system stand the references to its table. A reference that a
lookup took is dropped at any later time; the one to the directory itself stays. -/
def Step (s : Fs × (Slot → Nat)) (op : Op) (t : Fs × (Slot → Nat)) : Prop :=
  match op with
  | .lookup name => ∃ r, dirlookup sb k name s.1 = .ok (r, t.1) ∧ t.2 = taken s.2 r
  | .link name inum =>
    0 < inum ∧ inum < sb.ninodes ∧ (∃ r, dirlink sb k name inum s.1 = .ok (r, t.1)) ∧ t.2 = s.2
  | .erase name => ∃ off l u r, dirlookup sb k name s.1 = .ok (some (off, l), u) ∧
      erase sb k off u = .ok (r, t.1) ∧ t.2 = bump s.2 l
  | .release l => s.2 = bump t.2 l ∧ 0 < t.2 k ∧ iput sb l s.1 = .ok ((), t.1)

structure Directory (orphan : Nat → Prop) (s : Fs × (Slot → Nat)) : Prop where
  sound : Sound sb orphan s.1 s.2
  pos : 0 < s.2 k
  valid : (s.1.itable k).valid = true
  isDir : (s.1.itable k).copy.type = .dir
  aligned : Aligned s.1 k
  distinct : Distinct (entries k s.1)

end

variable {E : String → Prop} {sb : Super} {s t u : Fs}
  {refs refs' : Slot → Nat} {k : Slot} {name : List UInt8}

section
variable (h : Directory sb k O (s, refs))
include h

lemma Directory.elsewhere (sound : Sound sb O t refs') (pos : 0 < refs' k)
    (valid : (t.itable k).valid = true) (copy : (t.itable k).copy = (s.itable k).copy)
    (same : entries k t = entries k s) : Directory sb k O (t, refs') where
  sound := sound
  pos := pos
  valid := valid
  isDir := by
    rw [copy]
    exact h.isDir
  aligned := by
    unfold Aligned
    rw [copy]
    exact h.aligned
  distinct := by
    rw [same]
    exact h.distinct

lemma Directory.got (got : Got sb O refs i l s t) :
    entries k t = entries k s ∧ Directory sb k O (t, bump refs l) := by
  have same : entries k t = entries k s := by rw [entries, entries, got.onTable.tree, got.keeps.inum k h.pos]
  refine ⟨same, h.elsewhere got.sound (bump_pos h.pos) (got.keeps.valid k h.pos h.valid) ?_ same⟩
  exact got.onTable.copy h.sound got.sound got.keeps h.pos (bump_pos h.pos) h.valid

lemma Directory.edit (sound : Sound sb O t refs) (keeps : Keeps refs s t) (aligned : Aligned t k)
    (changed : tree t = (tree s).setEnts (s.itable k).inum es) (distinct : Distinct es) :
    entries k t = es ∧ Directory sb k O (t, refs) := by
  have inum := keeps.inum k h.pos
  have valid := keeps.valid k h.pos h.valid
  have here : entries k t = es := by
    rw [entries, changed, inum, Tree.setEnts]
    exact update_self ..
  refine ⟨here, sound, h.pos, valid, ?_, aligned, by rwa [here]⟩
  have typ := sound.typ h.pos valid
  rw [changed, inum] at typ
  rw [← typ]
  exact (h.sound.typ h.pos h.valid).trans h.isDir

end

/-- The panics of `dirlookup` and `dirlink` on a whole directory. -/
def Fails (s : Fs) (e : String) : Prop :=
  e = "iget: no inodes" ∨ e = "log_write outside of trans" ∧ s.outstanding < 1

lemma fails_logged (s) : Logged (Fails s) s := by
  by_cases inside : 1 ≤ s.outstanding
  · exact .inl inside
  · exact .inr (.inr ⟨rfl, by omega⟩)

section
variable (h : Directory sb k O (s, refs))
include h

lemma lookup_safe (full : E "iget: no inodes") (name) :
    Safe E (dirlookup sb k name) s fun r t => Directory sb k O (t, taken refs r) ∧ entries k t = entries k s ∧
      match r with
      | none => bindings (entries k s) (cstr name) = none
      | some (off, l) => bindings (entries k s) (cstr name) = some (t.itable l).inum ∧
          ∃ j, off = direntSize * j ∧ (entries k s)[j]? = some ⟨(t.itable l).inum, cstr name⟩ := by
  apply (dirlookup_safe (fun _ => full) (.inl h.aligned) h.sound h.pos h.valid h.isDir name).mono
  rintro r t (⟨rfl, rfl, absent, -⟩ | ⟨j, i, l, rfl, found, here, got⟩)
  · exact ⟨h, rfl, bindings_of_find_none absent⟩
  · obtain ⟨same, dir⟩ := h.got got
    obtain ⟨i', here', used⟩ := find_some found
    obtain rfl : i = i' := by
      have both := here.symm.trans here'
      injection both with both
      injection both
    refine ⟨dir, same, ?_, j, rfl, ?_⟩
    · rw [got.inum]
      exact bindings_of_find h.distinct here used
    · rw [got.inum]
      exact here

lemma link_safe (name) (used : 0 < inum) (small : inum < sb.ninodes) :
    Safe (Fails s) (dirlink sb k name inum) s fun ok t => Directory sb k O (t, refs) ∧
      (ok = true ∧ bindings (entries k s) (cstr name) = none ∧ bindings (entries k t) =
            update (bindings (entries k s)) (cstr name) (some inum) ∧
          (∃ j, j ≤ (entries k s).length ∧ (∀ e, (entries k s)[j]? = some e → e.inum = 0) ∧
            entries k t = putEnt (entries k s) j ⟨inum, cstr name⟩) ∨
        ok = false ∧ entries k t = entries k s ∧ (bindings (entries k s) (cstr name) ≠ none ∨ Full sb t.bitmap ∨
          maxfile * bsize < direntSize * (entries k s).length + direntSize)) := by
  apply (dirlink_safe (.inl rfl) (.inl h.aligned) (fails_logged s) h.sound h.pos h.valid h.isDir name small).mono
  rintro ok t ⟨sound, keeps, aligned, ⟨rfl, absent, changed⟩ | ⟨rfl, same, why⟩⟩
  · have unbound := bindings_of_find_none absent
    have le : freeIdx (entries k s) ≤ (entries k s).length := freeIdx_le _
    obtain ⟨here, dir⟩ := h.edit sound keeps (aligned h.aligned) changed (distinct_put h.distinct le unbound inum)
    refine ⟨dir, .inl ⟨rfl, unbound, ?_, _, le, fun e => freeIdx_free, here⟩⟩
    rw [here]
    exact bindings_put h.distinct le (fun e => freeIdx_free) unbound (ne_of_gt used)
  · have kept : tree t = (tree s).setEnts (s.itable k).inum (entries k s) := same.trans (setEnts_self _ _).symm
    obtain ⟨here, dir⟩ := h.edit sound keeps (aligned h.aligned) kept h.distinct
    refine ⟨dir, .inr ⟨rfl, here, why.imp ?_ (Or.imp_right ?_)⟩⟩
    · intro present unbound
      obtain ⟨j, found⟩ := Option.ne_none_iff_exists'.mp present
      obtain ⟨i, at_, used⟩ := find_some found
      rw [bindings_of_find h.distinct at_ used] at unbound
      cases unbound
    · intro long
      have le : freeIdx (entries k s) ≤ (entries k s).length := freeIdx_le _
      exact long.trans_le (Nat.add_le_add_right (Nat.mul_le_mul_left _ le) _)

lemma erase_at_safe (used : i ≠ 0) (here : (entries k s)[j]? = some ⟨i, cstr name⟩) :
    Safe (fun e => e = "log_write outside of trans" ∧ s.outstanding < 1)
      (erase sb k (direntSize * j)) s fun r t => Directory sb k O (t, refs) ∧ r = direntSize ∧
        bindings (entries k t) = update (bindings (entries k s)) (cstr name) none ∧
        entries k t = putEnt (entries k s) j ⟨0, []⟩ := by
  have lt : j < (entries k s).length := (List.getElem?_eq_some_iff.mp here).1
  have log : Logged (fun e => e = "log_write outside of trans" ∧ s.outstanding < 1) s := by
    by_cases inside : 1 ≤ s.outstanding
    · exact .inl inside
    · exact .inr ⟨rfl, by omega⟩
  apply (erase_safe log h.sound h.pos h.valid h.isDir lt).mono
  rintro r t ⟨sound, keeps, aligned, rfl, changed⟩
  obtain ⟨same, dir⟩ := h.edit sound keeps (aligned h.aligned) changed (distinct_clear h.distinct (le_of_lt lt))
  refine ⟨dir, rfl, ?_, same⟩
  rw [same]
  exact bindings_clear h.distinct here used

end

lemma release_safe (h : Directory sb k O (s, bump refs l)) (pos : 0 < refs k) :
    Safe (fun _ => True) (iput sb l) s fun _ t => Directory sb k O (t, refs) := by
  apply (iput_safe (fun _ _ => trivial) h.sound).mono
  rintro _ t ⟨sound, keeps, reaps, copy, -⟩
  refine h.elsewhere sound pos (keeps.valid k pos h.valid) (copy k pos) ?_
  rw [entries, entries, keeps.inum k pos]
  exact (reaps.kept ⟨k, pos, rfl⟩).2.2

lemma step_directory {s t : Fs × (Slot → Nat)} (h : Directory sb k O s)
    (hs : Step sb k s op t) : Directory sb k O t := by
  obtain ⟨s, refs⟩ := s
  obtain ⟨t, refs'⟩ := t
  cases op with
  | lookup name =>
    obtain ⟨r, ran, rfl⟩ : ∃ r, _ ∧ refs' = _ := hs
    exact ((lookup_safe h (E := fun _ => True) trivial name).ensures r t ran).1
  | link name inum =>
    obtain ⟨used, small, ⟨r, ran⟩, rfl⟩ : _ ∧ _ ∧ _ ∧ refs' = _ := hs
    exact ((link_safe h name used small).ensures r t ran).1
  | erase name =>
    obtain ⟨off, l, u, r, found, ran, rfl⟩ : ∃ off l u r, _ ∧ _ ∧ refs' = _ := hs
    obtain ⟨dir, same, bound, j, rfl, here⟩ := (lookup_safe h (E := fun _ => True) trivial name).ensures _ u found
    have used := ((bindings_eq_some h.distinct).mp bound).choose_spec.2
    rw [← same] at here
    exact ((erase_at_safe dir used here).ensures r t ran).1
  | release l =>
    obtain ⟨rfl, pos, ran⟩ : refs = _ ∧ _ ∧ _ := hs
    exact (release_safe h pos).ensures () t ran

/-- In every state that lookups, links, erasures and releases lead to, the entries are a partial map,
keyed by names cut off at `DIRSIZ` bytes, and the next call of each function does what it should. -/
theorem directory_is_map {sb : Super} {orphan : Nat → Prop} {k : Slot}
    {s t : Fs × (Slot → Nat)} {ops : List Op} (h : Directory sb k orphan s)
    (run : Run (Step sb k) s ops t) :
    Distinct (entries k t.1) ∧ (∀ name, (0 : UInt8) ∉ name → cstr name = name.take dirsiz) ∧
    (∀ name, Safe (· = "iget: no inodes") (dirlookup sb k name) t.1 fun r u =>
      entries k u = entries k t.1 ∧
      match r with
      | none => bindings (entries k t.1) (cstr name) = none
      | some (off, l) => bindings (entries k t.1) (cstr name) = some (u.itable l).inum ∧
          ∃ j, off = direntSize * j ∧ (entries k t.1)[j]? = some ⟨(u.itable l).inum, cstr name⟩) ∧
    (∀ name inum, 0 < inum → inum < sb.ninodes → Safe (Fails t.1) (dirlink sb k name inum) t.1 fun ok u =>
      ok = true ∧ bindings (entries k t.1) (cstr name) = none ∧ bindings (entries k u) =
            Function.update (bindings (entries k t.1)) (cstr name) (some inum) ∧
          (∃ j, j ≤ (entries k t.1).length ∧ (∀ e, (entries k t.1)[j]? = some e → e.inum = 0) ∧
            entries k u = putEnt (entries k t.1) j ⟨inum, cstr name⟩) ∨
        ok = false ∧ entries k u = entries k t.1 ∧ (bindings (entries k t.1) (cstr name) ≠ none ∨ Full sb u.bitmap ∨
            maxfile * bsize < direntSize * (entries k t.1).length + direntSize)) ∧
    ∀ name off l u, dirlookup sb k name t.1 = .ok (some (off, l), u) →
      Safe (fun e => e = "log_write outside of trans" ∧ u.outstanding < 1) (erase sb k off) u fun r v =>
        r = direntSize ∧
          bindings (entries k v) = Function.update (bindings (entries k t.1)) (cstr name) none ∧
          ∃ j, off = direntSize * j ∧ entries k v = putEnt (entries k t.1) j ⟨0, []⟩ := by
  have dir : Directory sb k orphan t :=
    run.invariant (Directory sb k orphan) (fun _ _ _ h hs => step_directory h hs) h
  obtain ⟨t, refs⟩ := t
  refine ⟨dir.distinct, fun name plain => text_eq_take plain dirsiz, fun name => ?_, ?_, ?_⟩
  · exact (lookup_safe dir (E := (· = "iget: no inodes")) rfl name).mono fun r u post => post.2
  · intro name inum used small
    exact (link_safe dir name used small).mono fun ok u post => post.2
  · intro name off l u found
    obtain ⟨dir', same, bound, j, rfl, here⟩ :=
      (lookup_safe dir (E := fun _ => True) trivial name).ensures _ u found
    have used := ((bindings_eq_some dir.distinct).mp bound).choose_spec.2
    rw [← same] at here ⊢
    exact (erase_at_safe dir' used here).mono fun r v post => ⟨post.2.1, post.2.2.1, j, rfl, post.2.2.2⟩

section
open FsImage

def lockedRoot : Fs :=
  match ilock 0 { image with outstanding := 1 } with
  | .ok (_, s) => s
  | .error _ => image

lemma distinct_of_pairwise (h : es.Pairwise fun a b => a.inum ≠ 0 → b.inum ≠ 0 → a.name ≠ b.name) : Distinct es := by
  rw [List.pairwise_iff_getElem] at h
  intro j j' e e' hj hj' used used' same
  obtain ⟨lt, rfl⟩ := List.getElem?_eq_some_iff.mp hj
  obtain ⟨lt', rfl⟩ := List.getElem?_eq_some_iff.mp hj'
  rcases Nat.lt_trichotomy j j' with less | eq | more
  · exact absurd same (h j j' lt lt' less used used')
  · exact eq
  · exact absurd same.symm (h j' j lt' lt more used' used)

lemma directory_root : Directory super 0 (fun _ => False) (lockedRoot, cwdRefs) := by
  have sound : Sound super (fun _ => False) { image with outstanding := 1 } cwdRefs :=
    ⟨disk_image, (sound_image _).table⟩
  have pos : 0 < cwdRefs 0 := by decide
  have locks := ilock_safe (fun _ _ => trivial) sound pos (.inr trivial)
  obtain ⟨sound', keeps, on, valid⟩ := locks.ensures () lockedRoot rfl
  have whole : direntSize ∣ bsize := by decide
  refine ⟨sound', pos, valid, rfl, whole, distinct_of_pairwise ?_⟩
  rw [entries, on.tree]
  decide +kernel

theorem directory_is_map_long_name : ∃ t : Fs × (Slot → Nat),
    Run (Step super 0) (lockedRoot, cwdRefs) [.link (List.replicate 15 97) 5] t ∧
    Distinct (entries 0 t.1) ∧
    cstr (List.replicate 15 97) = List.replicate 14 97 := by
  have ran : (dirlink super 0 (List.replicate 15 97) 5 lockedRoot).toOption.isSome = true := by decide +kernel
  cases done : dirlink super 0 (List.replicate 15 97) 5 lockedRoot with
  | error e =>
    rw [done] at ran
    cases ran
  | ok p =>
    have run : Run (Step super 0) (lockedRoot, cwdRefs) [.link (List.replicate 15 97) 5] (p.2, cwdRefs) :=
      .single ⟨by decide, by decide, ⟨p.1, done⟩, rfl⟩
    obtain ⟨distinct, cut, -⟩ := directory_is_map directory_root run
    exact ⟨_, run, distinct, cut _ (by decide)⟩

end

end Xv6.DirMap
