import Xv6.FsMachine

/-! The directory tree that a file system holds: the type and the link count of every inode,
and the entries of every directory, with names as the C strings that they are compared
as. -/

namespace Xv6.FsTree

open CString FsMachine List

structure Tree where
  typ : Nat → FType
  nlink : Nat → Int16
  ents : Nat → List Dirent

@[ext]
lemma Tree.ext {S T : Tree} (typ : ∀ i, S.typ i = T.typ i) (nlink : ∀ i, S.nlink i = T.nlink i)
    (ents : ∀ i, S.ents i = T.ents i) : S = T := by
  obtain ⟨_, _, _⟩ := S
  obtain ⟨_, _, _⟩ := T
  obtain rfl := funext typ
  obtain rfl := funext nlink
  obtain rfl := funext ents
  rfl

def cstr (name : List UInt8) : List UInt8 := text name dirsiz

lemma namecmp_eq_zero (s t) : namecmp s t = 0 ↔ cstr s = cstr t := strncmp_eq_zero s t dirsiz

def find (es : List Dirent) (name : List UInt8) : Option Nat :=
  es.findIdx? fun e => e.inum ≠ 0 ∧ e.name = cstr name

def freeIdx (es : List Dirent) : Nat := es.findIdx fun e => e.inum = 0

def putEnt (es : List Dirent) (j : Nat) (e : Dirent) : List Dirent :=
  if j < es.length then es.set j e else es ++ [e]

lemma putEnt_getElem? (es e) (le : j ≤ es.length) (j') :
    (putEnt es j e)[j']? = if j' = j then some e else es[j']? := by
  unfold putEnt
  split
  · rename_i lt
    by_cases h : j' = j
    · simp [h, lt]
    · rw [if_neg h, getElem?_set_ne (Ne.symm h)]
  · have last : j = es.length := by omega
    subst last
    by_cases h : j' = es.length
    · simp [h]
    · by_cases lt : j' < es.length
      · simp [h, getElem?_append_left lt]
      · have past : (es ++ [e]).length ≤ j' := by
          rw [length_append, length_singleton]
          omega
        rw [if_neg h, getElem?_eq_none past, getElem?_eq_none (by omega)]

lemma find_cons (e es name) : find (e :: es) name =
    if e.inum ≠ 0 ∧ e.name = cstr name then some 0 else (find es name).map (· + 1) := by
  simp [find, findIdx?_cons]

lemma find_some (h : find es name = some j) : ∃ i, es[j]? = some ⟨i, cstr name⟩ ∧ i ≠ 0 := by
  obtain ⟨lt, here, -⟩ := findIdx?_eq_some_iff_getElem.mp h
  have here : es[j].inum ≠ 0 ∧ es[j].name = cstr name := by simpa using here
  refine ⟨es[j].inum, ?_, here.1⟩
  rw [getElem?_eq_getElem lt, ← here.2]

lemma find_none (h : find es name = none) (mem : e ∈ es) (used : e.inum ≠ 0) : e.name ≠ cstr name := by
  have here := findIdx?_eq_none_iff.mp h e mem
  simpa [used] using here

lemma freeIdx_le (es) : freeIdx es ≤ es.length := findIdx_le_length

lemma freeIdx_free (h : es[freeIdx es]? = some e) : e.inum = 0 := by
  obtain ⟨lt, rfl⟩ := List.getElem?_eq_some_iff.mp h
  exact of_decide_eq_true (List.findIdx_getElem (w := lt))

def isEmpty (es : List Dirent) : Bool := (es.drop 2).all fun e => e.inum = 0

namespace Tree
variable (T : Tree)

def free (gone : Nat → Bool) : Tree where
  typ i := if gone i then .free else T.typ i
  nlink i := if gone i then 0 else T.nlink i
  ents i := if gone i then [] else T.ents i

def setNlink (i : Nat) (v : Int16) : Tree := { T with nlink := Function.update T.nlink i v }

def setEnts (d : Nat) (es : List Dirent) : Tree := { T with ents := Function.update T.ents d es }

def make (i : Nat) (type : FType) : Tree where
  typ := Function.update T.typ i type
  nlink := Function.update T.nlink i 1
  ents := Function.update T.ents i []

end Tree

section
variable {keep keep' : Nat → Prop} {S T U : Tree}

def Reaps (keep : Nat → Prop) (S T : Tree) : Prop :=
  ∃ gone : Nat → Bool, (∀ i, gone i = true → S.nlink i = 0 ∧ ¬ keep i) ∧ T = S.free gone

lemma Reaps.refl : Reaps keep S S := by
  refine ⟨fun _ => false, fun _ h => absurd h Bool.false_ne_true, ?_⟩
  apply Tree.ext <;> simp [Tree.free]

lemma Reaps.trans (h : Reaps keep S T) (h' : Reaps keep T U) : Reaps keep S U := by
  obtain ⟨gone, ok, rfl⟩ := h
  obtain ⟨gone', ok', rfl⟩ := h'
  refine ⟨fun i => gone i || gone' i, ?_, ?_⟩
  · intro i either
    by_cases first : gone i = true
    · exact ok i first
    · have later : gone' i = true := by simpa [first] using either
      obtain ⟨zero, free⟩ := ok' i later
      exact ⟨by simpa [Tree.free, first] using zero, free⟩
  · apply Tree.ext
    all_goals
      intro i
      simp only [Tree.free, Bool.or_eq_true]
      by_cases first : gone i = true <;> by_cases later : gone' i = true <;> simp [first, later]

lemma Reaps.mono (h : Reaps keep S T) (sub : ∀ i, keep' i → keep i) : Reaps keep' S T := by
  obtain ⟨gone, ok, rfl⟩ := h
  exact ⟨gone, fun i here => ⟨(ok i here).1, fun inKeep => (ok i here).2 (sub i inKeep)⟩, rfl⟩

lemma Reaps.kept (h : Reaps keep S T) (inKeep : keep i) :
    T.typ i = S.typ i ∧ T.nlink i = S.nlink i ∧ T.ents i = S.ents i := by
  obtain ⟨gone, ok, rfl⟩ := h
  have here : gone i ≠ true := fun bad => (ok i bad).2 inKeep
  simp [Tree.free, here]

end

end Xv6.FsTree
