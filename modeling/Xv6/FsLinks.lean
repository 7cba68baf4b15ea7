import Mathlib.Algebra.Order.BigOperators.Group.Finset
import Xv6.Counting
import Xv6.FsEdit

/-! Link counts. A directory is attached as long as it has a link. In a well linked tree the link
count of an inode is the number of entries of attached directories that name it, `.` apart; an
attached directory is named once, in the directory that its `..` names; one without links is
empty. -/

namespace Xv6.FsLinks

open FsMachine FsTree FsEdit Counting Function Finset Option

def Attached (T : Tree) (d : Nat) : Prop := T.typ d = .dir ∧ 1 ≤ T.nlink d

instance (T : Tree) (d : Nat) : Decidable (Attached T d) := by
  unfold Attached
  infer_instance

def names (i : Nat) (e : Dirent) : Bool := e.inum = i ∧ e.name ≠ dot

def links (T : Tree) (d i : Nat) : Nat := if Attached T d then (T.ents d).countP (names i) else 0

/-- The entries, not named `.`, that name `i` in directories with a link of their own. -/
def count (N : Nat) (T : Tree) (i : Nat) : Nat := ∑ d ∈ Finset.range N, links T d i

def parent (T : Tree) (d : Nat) : Nat := ((T.ents d)[1]?.map Dirent.inum).getD 0

variable {N : Nat} {S T U : Tree} {d i j x : Nat} {e : Dirent}

lemma dotdot_ne : dotdot ≠ dot := by decide

lemma links_congr (typ : U.typ d = T.typ d) (nlink : U.nlink d = T.nlink d)
    (ents : U.ents d = T.ents d) : links U d x = links T d x := by
  simp [links, Attached, typ, nlink, ents]

lemma links_of_typ (typ : T.typ d ≠ .dir) : links T d x = 0 := if_neg fun attached => typ attached.1

lemma links_of_attached (h : Attached T d) : links T d x = (T.ents d).countP (names x) := if_pos h

lemma links_pos (h : Attached T d) (here : (T.ents d)[j]? = some e) (name : e.name ≠ dot) : 0 < links T d e.inum := by
  rw [links_of_attached h, List.countP_pos_iff]
  exact ⟨e, List.mem_of_getElem? here, by simp [names, name]⟩

lemma parent_congr (ents : U.ents d = T.ents d) : parent U d = parent T d := by simp [parent, ents]

lemma countP_putEnt (p es) (le : j ≤ es.length) (e) :
    (putEnt es j e).countP p + ((es[j]?.map fun o => if p o then 1 else 0).getD 0) =
      es.countP p + if p e then 1 else 0 := by
  unfold putEnt
  split
  · rename_i lt
    have old : (if p es[j] = true then 1 else 0) ≤ es.countP p := by
      split
      · rename_i yes
        exact List.countP_pos_iff.mpr ⟨es[j], List.getElem_mem lt, yes⟩
      · exact Nat.zero_le _
    rw [List.countP_set lt, List.getElem?_eq_getElem lt]
    simp only [map_some, getD_some]
    omega
  · rename_i past
    rw [List.getElem?_eq_none (by omega), List.countP_append, List.countP_singleton]
    rfl

section

/-- The entries of a directory: `.`, `..` and the others, none of which is called `.`. -/
structure Dir (T : Tree) (d : Nat) : Prop where
  self : (T.ents d)[0]? = some ⟨d, dot⟩
  up : (T.ents d)[1]? = some ⟨parent T d, dotdot⟩
  parent_ne : parent T d ≠ 0
  named : ∀ j e, 2 ≤ j → (T.ents d)[j]? = some e → e.inum ≠ 0 → e.name ≠ dot

structure Linked (N : Nat) (T : Tree) : Prop where
  zero : T.typ 0 = .free
  outside : ∀ i, N ≤ i → T.typ i = .free
  free : ∀ i, T.typ i = .free → T.nlink i = 0
  files : ∀ i, T.typ i ≠ .dir → T.ents i = []
  counted : ∀ i, i ≠ 0 → (T.nlink i).toInt = count N T i
  dirs : ∀ d, T.typ d = .dir → Dir T d
  removed : ∀ d, T.typ d = .dir → T.nlink d = 0 → isEmpty (T.ents d) = true
  root : Attached T rootIno ∧ parent T rootIno = rootIno
  attached : ∀ d, Attached T d → d ≠ rootIno → Attached T (parent T d) ∧
    ∃ j e, 2 ≤ j ∧ (T.ents (parent T d))[j]? = some e ∧ e.inum = d
  single : ∀ d j e, Attached T d → 2 ≤ j → (T.ents d)[j]? = some e → T.typ e.inum = .dir →
    e.inum ≠ rootIno ∧ parent T e.inum = d ∧
    ∀ j' e', 2 ≤ j' → (T.ents d)[j']? = some e' → e'.inum = e.inum → j' = j

lemma Dir.congr (h : Dir T d) (ents : U.ents d = T.ents d) : Dir U d := by
  have up := parent_congr ents
  exact ⟨by rw [ents]; exact h.self, by rw [ents, up]; exact h.up, by rw [up]; exact h.parent_ne,
    by rw [ents]; exact h.named⟩

lemma Attached.congr (h : Attached T d) (typ : U.typ d = T.typ d) (nlink : U.nlink d = T.nlink d) : Attached U d := by
  unfold Attached
  rw [typ, nlink]
  exact h

lemma Attached.ne_zero (h : Attached T d) : T.nlink d ≠ 0 := by
  intro zero
  have le := h.2
  rw [zero] at le
  exact absurd le (by decide)

namespace Linked

lemma ne_zero (h : Linked N T) (used : T.typ i ≠ .free) : i ≠ 0 := by
  rintro rfl
  exact used h.zero

lemma inside (h : Linked N T) (used : T.typ i ≠ .free) : i ∈ range N := by
  rw [mem_range]
  by_contra past
  exact used (h.outside i (by omega))

lemma dir_used (isDir : T.typ d = .dir) : T.typ d ≠ .free := by
  rw [isDir]
  decide

lemma attached_of (h : Linked N T) (isDir : T.typ d = .dir) (linked : T.nlink d ≠ 0) : Attached T d := by
  refine ⟨isDir, ?_⟩
  have nonneg := h.counted d (h.ne_zero (dir_used isDir))
  have ne : (T.nlink d).toInt ≠ 0 := fun eq => linked (Int16.toInt_inj.mp eq)
  rw [Int16.le_iff_toInt_le]
  change (1 : Int) ≤ _
  omega

lemma named_linked (h : Linked N T) (att : Attached T d) (here : (T.ents d)[j]? = some e)
    (used : e.inum ≠ 0) (name : e.name ≠ dot) : T.nlink e.inum ≠ 0 := by
  intro zero
  have pos := links_pos att here name
  have le : links T d e.inum ≤ count N T e.inum :=
    single_le_sum (f := fun d => links T d e.inum) (fun _ _ => Nat.zero_le _) (h.inside (dir_used att.1))
  have eq := h.counted e.inum used
  rw [zero] at eq
  change (0 : Int) = _ at eq
  omega

lemma reaps (h : Linked N S) (reaps : Reaps keep S T) : Linked N T := by
  obtain ⟨gone, ok, rfl⟩ := reaps
  have kept : ∀ i, S.nlink i ≠ 0 → gone i ≠ true := fun i linked bad => linked (ok i bad).1
  have nlink : ∀ i, (S.free gone).nlink i = S.nlink i := by
    intro i
    by_cases freed : gone i = true
    · simp [Tree.free, freed, (ok i freed).1]
    · exact if_neg freed
  have typ : ∀ i, gone i ≠ true → (S.free gone).typ i = S.typ i := fun i stays => if_neg stays
  have ents : ∀ i, gone i ≠ true → (S.free gone).ents i = S.ents i := fun i stays => if_neg stays
  have dirs : ∀ d, (S.free gone).typ d = .dir → gone d ≠ true := by
    intro d isDir bad
    simp only [Tree.free, bad, if_true] at isDir
    cases isDir
  have back : ∀ d, Attached (S.free gone) d → gone d ≠ true ∧ Attached S d := by
    intro d att
    have stays := dirs d att.1
    exact ⟨stays, att.congr (typ d stays).symm (nlink d).symm⟩
  have forth : ∀ d, Attached S d → gone d ≠ true ∧ Attached (S.free gone) d := by
    intro d att
    have stays := kept d att.ne_zero
    exact ⟨stays, att.congr (typ d stays) (nlink d)⟩
  have same : ∀ d x, links (S.free gone) d x = links S d x := by
    intro d x
    by_cases freed : gone d = true
    · have zero := (ok d freed).1
      have none : ¬ Attached S d := fun att => att.ne_zero zero
      have none' : ¬ Attached (S.free gone) d := fun att => (back d att).1 freed
      rw [links, links, if_neg none, if_neg none']
    · exact links_congr (typ d freed) (nlink d) (ents d freed)
  constructor
  · by_cases freed : gone 0 = true
    · exact if_pos freed
    · rw [typ 0 freed]
      exact h.zero
  · intro i past
    by_cases freed : gone i = true
    · exact if_pos freed
    · rw [typ i freed]
      exact h.outside i past
  · intro i free
    rw [nlink]
    by_cases freed : gone i = true
    · exact (ok i freed).1
    · rw [typ i freed] at free
      exact h.free i free
  · intro i other
    by_cases freed : gone i = true
    · exact if_pos freed
    · rw [typ i freed] at other
      rw [ents i freed]
      exact h.files i other
  · intro i used
    rw [nlink, h.counted i used, count, count]
    simp [same]
  · intro d isDir
    have stays := dirs d isDir
    rw [typ d stays] at isDir
    exact (h.dirs d isDir).congr (ents d stays)
  · intro d isDir zero
    have stays := dirs d isDir
    rw [typ d stays] at isDir
    rw [nlink] at zero
    rw [ents d stays]
    exact h.removed d isDir zero
  · obtain ⟨att, up⟩ := h.root
    exact ⟨(forth _ att).2, (parent_congr (ents _ (forth _ att).1)).trans up⟩
  · intro d att other
    obtain ⟨stays, att'⟩ := back d att
    obtain ⟨above, j, e, le, here, name⟩ := h.attached d att' other
    rw [parent_congr (ents d stays)]
    refine ⟨(forth _ above).2, j, e, le, ?_, name⟩
    rw [ents _ (forth _ above).1]
    exact here
  · intro d j e att le here isDir
    obtain ⟨stays, att'⟩ := back d att
    have stays' := dirs _ isDir
    rw [ents d stays] at here ⊢
    rw [typ _ stays'] at isDir
    rw [parent_congr (ents _ stays')]
    exact h.single d j e att' le here isDir

end Linked

end

section

/-- `e` is put into the attached directory `d`: a link to a file, or a new inode. -/
structure Adds (T U : Tree) (d i : Nat) (e : Dirent) : Prop where
  entry : e.inum = i ∧ i ≠ 0 ∧ e.name ≠ dot
  typ : ∀ x, x ≠ i → U.typ x = T.typ x
  nlink : ∀ x, x ≠ d → x ≠ i → U.nlink x = T.nlink x
  ents : ∀ x, x ≠ d → x ≠ i → U.ents x = T.ents x
  here : U.ents d = withEntry T d e
  file : T.typ i ≠ .dir
  before : Attached T d
  after : Attached U d
  more : (U.nlink i).toInt = (T.nlink i).toInt + 1
  kind : (U.typ i ≠ .dir ∧ U.typ i ≠ .free ∧ U.ents i = [] ∧ U.nlink d = T.nlink d) ∨
    (U.typ i = .dir ∧ T.typ i = .free ∧ U.ents i = [⟨i, dot⟩, ⟨d, dotdot⟩] ∧
      (U.nlink d).toInt = (T.nlink d).toInt + 1)

lemma Dir.two_le_freeIdx (h : Dir T d) (used : d ≠ 0) : 2 ≤ freeIdx (T.ents d) := by
  by_contra low
  have cases : freeIdx (T.ents d) = 0 ∨ freeIdx (T.ents d) = 1 := by omega
  rcases cases with eq | eq
  · exact used (freeIdx_free (by rw [eq]; exact h.self))
  · exact h.parent_ne (freeIdx_free (by rw [eq]; exact h.up))

namespace Adds

section
variable (h : Adds T U d i e)
include h

lemma ne : i ≠ d := by
  rintro rfl
  exact h.file h.before.1

lemma at_here (j) : (U.ents d)[j]? = if j = freeIdx (T.ents d) then some e else (T.ents d)[j]? := by
  rw [h.here]
  exact putEnt_getElem? _ _ (freeIdx_le _) j

lemma at_other (here : (T.ents d)[j]? = some o) (used : o.inum ≠ 0) :
    j ≠ freeIdx (T.ents d) ∧ (U.ents d)[j]? = some o := by
  have ne : j ≠ freeIdx (T.ents d) := by
    rintro rfl
    exact used (freeIdx_free here)
  rw [h.at_here, if_neg ne]
  exact ⟨ne, here⟩

lemma links_here (used : x ≠ 0) : links U d x = links T d x + if x = i then 1 else 0 := by
  have counted := countP_putEnt (names x) (T.ents d) (freeIdx_le _) e
  have old : (((T.ents d)[freeIdx (T.ents d)]?.map fun o => if names x o then 1 else 0).getD 0) = 0 := by
    cases at_ : (T.ents d)[freeIdx (T.ents d)]? with
    | none => rfl
    | some o =>
      have no : names x o = false := by
        simp only [names, freeIdx_free at_, decide_eq_false_iff_not]
        exact fun both => used both.1.symm
      simp only [map_some, getD_some, no]
      rfl
  have new : (if names x e then 1 else 0) = if x = i then 1 else 0 := by
    obtain ⟨inum, -, name⟩ := h.entry
    by_cases hx : x = i
    · subst hx
      simp [names, inum, name]
    · simp [names, inum, hx, Ne.symm hx]
  rw [links_of_attached h.after, links_of_attached h.before, h.here, withEntry]
  omega

lemma links_new (linked : T.typ i = .free → T.nlink i = 0) : links U i x = if U.typ i = .dir ∧ x = d then 1 else 0 := by
  rcases h.kind with ⟨file, -, -, -⟩ | ⟨isDir, free, ents, -⟩
  · rw [links_of_typ file, if_neg fun both => file both.1]
  · have att : Attached U i := by
      refine ⟨isDir, ?_⟩
      have more := h.more
      rw [linked free] at more
      rw [Int16.le_iff_toInt_le, more]
      decide
    rw [links_of_attached att, ents]
    by_cases hx : x = d
    · subst hx
      simp [names, isDir, dotdot_ne]
    · simp [names, hx, Ne.symm hx]

lemma counted (was : Linked N T) (inside : i ∈ range N) (used : x ≠ 0) : (U.nlink x).toInt = count N U x := by
  have moved := sum_off_pair (g := fun c => links T c x)
    (was.inside (Linked.dir_used h.before.1)) inside h.ne.symm fun c neD neI =>
      links_congr (h.typ c neI) (h.nlink c neD neI) (h.ents c neD neI)
  rw [h.links_here used, h.links_new (was.free i), links_of_typ h.file] at moved
  have old := was.counted x used
  unfold count at old ⊢
  have ne := h.ne
  by_cases hi : x = i
  · subst hi
    have more := h.more
    rw [if_pos rfl, if_neg fun both => ne both.2] at moved
    omega
  · rw [if_neg hi] at moved
    by_cases hd : x = d
    · subst hd
      rcases h.kind with ⟨file, -, -, same⟩ | ⟨isDir, -, -, more⟩
      · rw [if_neg fun both => file both.1] at moved
        rw [same]
        omega
      · rw [if_pos ⟨isDir, rfl⟩] at moved
        omega
    · rw [if_neg fun both => hd both.2] at moved
      rw [h.nlink x hd hi]
      omega

lemma dir_here (was : Linked N T) : Dir U d ∧ parent U d = parent T d := by
  have old := was.dirs d h.before.1
  have low := old.two_le_freeIdx (was.ne_zero (Linked.dir_used h.before.1))
  have first : (U.ents d)[0]? = (T.ents d)[0]? := by rw [h.at_here, if_neg (by omega)]
  have second : (U.ents d)[1]? = (T.ents d)[1]? := by rw [h.at_here, if_neg (by omega)]
  have up : parent U d = parent T d := by simp only [parent, second]
  refine ⟨⟨by rw [first]; exact old.self, by rw [second, up]; exact old.up, by rw [up]; exact old.parent_ne,
    fun j o le here used => ?_⟩, up⟩
  rw [h.at_here] at here
  by_cases new : j = freeIdx (T.ents d)
  · rw [if_pos new] at here
    cases here
    exact h.entry.2.2
  · rw [if_neg new] at here
    exact old.named j o le here used

lemma dir_old (was : Linked N T) (ne : c ≠ i) (isDir : T.typ c = .dir) : Dir U c ∧ parent U c = parent T c := by
  by_cases hc : c = d
  · subst hc
    exact h.dir_here was
  · have ents := h.ents c hc ne
    exact ⟨(was.dirs c isDir).congr ents, parent_congr ents⟩

lemma dir_new (isDir : U.typ i = .dir) : U.ents i = [⟨i, dot⟩, ⟨d, dotdot⟩] ∧ T.typ i = .free ∧ parent U i = d := by
  rcases h.kind with ⟨file, -⟩ | ⟨-, free, ents, -⟩
  · exact absurd isDir file
  · refine ⟨ents, free, ?_⟩
    simp only [parent, ents]
    rfl

lemma attached_old (ne : c ≠ i) : Attached U c ↔ Attached T c := by
  by_cases hc : c = d
  · subst hc
    exact ⟨fun _ => h.before, fun _ => h.after⟩
  · unfold Attached
    rw [h.typ c ne, h.nlink c hc ne]

end

lemma not_named (was : Linked N T) (free : T.typ i = .free) (pos : i ≠ 0) (att : Attached T c) (le : 2 ≤ j)
    (here : (T.ents c)[j]? = some o) : o.inum ≠ i := by
  rintro rfl
  exact was.named_linked att here pos ((was.dirs c att.1).named j o le here pos) (was.free _ free)

lemma linked (h : Adds T U d i e) (was : Linked N T) (inside : i ∈ range N) : Linked N U := by
  have pos := h.entry.2.1
  have low := (was.dirs d h.before.1).two_le_freeIdx (was.ne_zero (Linked.dir_used h.before.1))
  have notRoot : rootIno ≠ i := by
    rintro rfl
    exact h.file was.root.1.1
  constructor
  · rw [h.typ 0 (Ne.symm pos)]
    exact was.zero
  · intro x past
    have hx : x ≠ i := by
      rintro rfl
      rw [mem_range] at inside
      omega
    rw [h.typ x hx]
    exact was.outside x past
  · intro x free
    by_cases hx : x = i
    · subst hx
      rcases h.kind with ⟨-, used, -⟩ | ⟨isDir, -⟩
      · exact absurd free used
      · rw [isDir] at free
        cases free
    · have hd : x ≠ d := by
        rintro rfl
        rw [h.after.1] at free
        cases free
      rw [h.typ x hx] at free
      rw [h.nlink x hd hx]
      exact was.free x free
  · intro x file
    by_cases hx : x = i
    · subst hx
      rcases h.kind with ⟨-, -, ents, -⟩ | ⟨isDir, -⟩
      · exact ents
      · exact absurd isDir file
    · have hd : x ≠ d := by
        rintro rfl
        exact file h.after.1
      rw [h.typ x hx] at file
      rw [h.ents x hd hx]
      exact was.files x file
  · intro x used
    exact h.counted was inside used
  · intro c isDir
    by_cases hc : c = i
    · subst hc
      obtain ⟨ents, -, up⟩ := h.dir_new isDir
      have nonzero := was.ne_zero (Linked.dir_used h.before.1)
      refine ⟨by rw [ents]; rfl, by rw [ents, up]; rfl, by rw [up]; exact nonzero, fun j o le here => ?_⟩
      rw [ents, List.getElem?_eq_none (by simpa using le)] at here
      cases here
    · rw [h.typ c hc] at isDir
      exact (h.dir_old was hc isDir).1
  · intro c isDir zero
    by_cases hc : c = i
    · subst hc
      rw [(h.dir_new isDir).1]
      rfl
    · have hd : c ≠ d := by
        rintro rfl
        exact h.after.ne_zero zero
      rw [h.typ c hc] at isDir
      rw [h.nlink c hd hc] at zero
      rw [h.ents c hd hc]
      exact was.removed c isDir zero
  · obtain ⟨att, up⟩ := was.root
    exact ⟨(h.attached_old notRoot).mpr att, (h.dir_old was notRoot att.1).2.trans up⟩
  · intro c att other
    by_cases hc : c = i
    · subst hc
      rw [(h.dir_new att.1).2.2]
      exact ⟨h.after, freeIdx (T.ents d), e, low, by rw [h.at_here, if_pos rfl], h.entry.1⟩
    · have att' := (h.attached_old hc).mp att
      obtain ⟨above, j, o, le, here, name⟩ := was.attached c att' other
      rw [(h.dir_old was hc att'.1).2]
      have hp : parent T c ≠ i := by
        intro eq
        rw [eq] at above
        exact h.file above.1
      refine ⟨(h.attached_old hp).mpr above, j, o, le, ?_, name⟩
      by_cases hd : parent T c = d
      · rw [hd] at here ⊢
        have used : o.inum ≠ 0 := by
          rw [name]
          exact was.ne_zero (Linked.dir_used att'.1)
        exact (h.at_other here used).2
      · rw [h.ents _ hd hp]
        exact here
  · intro c j o att le here isDir
    have hc : c ≠ i := by
      rintro rfl
      rw [(h.dir_new att.1).1, List.getElem?_eq_none (by simpa using le)] at here
      cases here
    have att' := (h.attached_old hc).mp att
    by_cases new : c = d ∧ j = freeIdx (T.ents d)
    · obtain ⟨rfl, rfl⟩ := new
      rw [h.at_here, if_pos rfl] at here
      cases here
      rw [h.entry.1] at isDir ⊢
      obtain ⟨-, free, up⟩ := h.dir_new isDir
      refine ⟨notRoot.symm, up, fun j' o' le' here' name => ?_⟩
      by_contra other
      rw [h.at_here, if_neg other] at here'
      exact not_named was free pos h.before le' here' name
    · -- The entry was there before.
      have old : (T.ents c)[j]? = some o := by
        by_cases hd : c = d
        · subst hd
          rwa [h.at_here, if_neg fun eq => new ⟨rfl, eq⟩] at here
        · rwa [h.ents c hd hc] at here
      have other : o.inum ≠ i := by
        intro eq
        rw [eq] at isDir
        exact not_named was (h.dir_new isDir).2.1 pos att' le old eq
      rw [h.typ _ other] at isDir
      obtain ⟨notRoot', up, only⟩ := was.single c j o att' le old isDir
      refine ⟨notRoot', (h.dir_old was other isDir).2.trans up, fun j' o' le' here' name => ?_⟩
      by_cases hd : c = d
      · subst hd
        rw [h.at_here] at here'
        by_cases eq : j' = freeIdx (T.ents c)
        · rw [if_pos eq] at here'
          cases here'
          exact absurd (name.symm.trans h.entry.1) other
        · rw [if_neg eq] at here'
          exact only j' o' le' here' name
      · rw [h.ents c hd hc] at here'
        exact only j' o' le' here' name

end Adds

end

section

/-- The entry `o` at `j` is taken out of the attached directory `d`: a link to a file, or an
empty directory. -/
structure Drops (T U : Tree) (d i j : Nat) (o : Dirent) : Prop where
  entry : (T.ents d)[j]? = some o ∧ o.inum = i ∧ i ≠ 0 ∧ o.name ≠ dot ∧ 2 ≤ j
  ne : i ≠ d
  typ : ∀ x, U.typ x = T.typ x
  nlink : ∀ x, x ≠ d → x ≠ i → U.nlink x = T.nlink x
  ents : ∀ x, x ≠ d → U.ents x = T.ents x
  here : U.ents d = putEnt (T.ents d) j ⟨0, []⟩
  used : T.typ i ≠ .free
  before : Attached T d
  after : Attached U d
  less : (U.nlink i).toInt + 1 = (T.nlink i).toInt
  kind : (T.typ i ≠ .dir ∧ U.nlink d = T.nlink d) ∨
    (T.typ i = .dir ∧ isEmpty (T.ents i) = true ∧ U.nlink i = 0 ∧
      (U.nlink d).toInt + 1 = (T.nlink d).toInt)

lemma isEmpty_free (empty : isEmpty es = true) (le : 2 ≤ j) (here : es[j]? = some e) : e.inum = 0 := by
  have dropped : (es.drop 2)[j - 2]? = some e := by
    rw [List.getElem?_drop, ← here]
    congr 1
    omega
  have all := List.all_eq_true.mp empty e (List.mem_of_getElem? dropped)
  exact of_decide_eq_true all

lemma Dir.cons (h : Dir T d) : T.ents d = ⟨d, dot⟩ :: ⟨parent T d, dotdot⟩ :: (T.ents d).drop 2 := by
  have self := h.self
  have up := h.up
  generalize T.ents d = es at *
  match es with
  | [] => cases self
  | [a] => cases up
  | a :: b :: rest =>
    cases self
    cases up
    rfl

lemma Dir.countP_empty (h : Dir T d) (empty : isEmpty (T.ents d) = true) (used : x ≠ 0) :
    (T.ents d).countP (names x) = if x = parent T d then 1 else 0 := by
  have rest : ((T.ents d).drop 2).countP (names x) = 0 := by
    rw [List.countP_eq_zero]
    intro e mem
    have zero := of_decide_eq_true (List.all_eq_true.mp empty e mem)
    simp only [names, zero, decide_eq_true_eq]
    exact fun both => used both.1.symm
  rw [h.cons, List.countP_cons, List.countP_cons, rest]
  by_cases hx : x = parent T d
  · simp [names, hx, dotdot_ne]
  · simp [names, hx, Ne.symm hx]

namespace Linked

lemma parent_full (h : Linked N T) (att : Attached T c) (other : c ≠ rootIno)
    (empty : isEmpty (T.ents i) = true) : parent T c ≠ i := by
  intro eq
  obtain ⟨-, j, e, le, here, name⟩ := h.attached c att other
  rw [eq] at here
  exact h.ne_zero (dir_used att.1) (name.symm.trans (isEmpty_free empty le here))

variable (h : Linked N T) (att : Attached T d) (le : 2 ≤ j) (here : (T.ents d)[j]? = some o)
  (isDir : T.typ o.inum = .dir) (empty : isEmpty (T.ents o.inum) = true)
include h att le here isDir empty

lemma nlink_empty : (T.nlink o.inum).toInt = 1 := by
  obtain ⟨notRoot, up, only⟩ := h.single d j o att le here isDir
  have pos := h.ne_zero (dir_used isDir)
  have name := (h.dirs d att.1).named j o le here pos
  have place : ∀ c j' e, Attached T c → (T.ents c)[j']? = some e → names o.inum e = true → c = d ∧ j' = j := by
    intro c j' e att' here' both
    obtain ⟨inum, name'⟩ : e.inum = o.inum ∧ e.name ≠ dot := by simpa [names] using both
    have dir := h.dirs c att'.1
    have ne0 : j' ≠ 0 := by
      rintro rfl
      obtain rfl := some.inj (dir.self.symm.trans here')
      exact name' rfl
    have ne1 : j' ≠ 1 := by
      rintro rfl
      obtain rfl := some.inj (dir.up.symm.trans here')
      by_cases root : c = rootIno
      · subst root
        exact notRoot (inum.symm.trans h.root.2)
      · exact h.parent_full att' root empty inum
    have le' : 2 ≤ j' := by omega
    obtain ⟨-, up', -⟩ := h.single c j' e att' le' here' (by rw [inum]; exact isDir)
    obtain rfl : c = d := by rw [← up', inum, up]
    exact ⟨rfl, only j' e le' here' inum⟩
  have others : ∀ c, c ≠ d → links T c o.inum = 0 := by
    intro c ne
    by_cases att' : Attached T c
    · rw [links_of_attached att', List.countP_eq_zero]
      intro e mem both
      obtain ⟨j', here'⟩ := List.mem_iff_getElem?.mp mem
      exact ne (place c j' e att' here' both).1
    · exact if_neg att'
  have inHere : links T d o.inum = 1 := by
    obtain ⟨lt, -⟩ := List.getElem?_eq_some_iff.mp here
    have counted := countP_putEnt (names o.inum) (T.ents d) (le_of_lt lt) ⟨0, []⟩
    have old : names o.inum o = true := by simp [names, name]
    have new : names o.inum ⟨0, []⟩ = false := by
      simp only [names, decide_eq_false_iff_not]
      exact fun both => pos both.1.symm
    have none : (putEnt (T.ents d) j ⟨0, []⟩).countP (names o.inum) = 0 := by
      rw [List.countP_eq_zero]
      intro e mem both
      obtain ⟨j', here'⟩ := List.mem_iff_getElem?.mp mem
      rw [putEnt_getElem? _ _ (le_of_lt lt)] at here'
      by_cases eq : j' = j
      · rw [if_pos eq] at here'
        cases here'
        rw [new] at both
        cases both
      · rw [if_neg eq] at here'
        exact eq (place d j' e att here' both).2
    rw [none, here, new] at counted
    simp only [map_some, getD_some, old, if_true] at counted
    rw [links_of_attached att]
    simpa using counted.symm
  have total := h.counted o.inum pos
  rw [count, sum_eq_single d (fun c _ ne => others c ne)
    (fun out => absurd (h.inside (dir_used att.1)) out), inHere] at total
  exact total

lemma two_le_nlink (linked : T.nlink o.inum ≠ 0) : 2 ≤ (T.nlink d).toInt := by
  obtain ⟨notRoot, up, -⟩ := h.single d j o att le here isDir
  have pos : d ≠ 0 := h.ne_zero (dir_used att.1)
  have child := h.attached_of isDir linked
  have first : 0 < links T o.inum d := by
    have named := links_pos child (h.dirs _ isDir).up dotdot_ne
    rwa [up] at named
  have total := h.counted d pos
  have second : ∃ c, c ≠ o.inum ∧ Attached T c ∧ 0 < links T c d := by
    by_cases root : d = rootIno
    · subst root
      have named := links_pos att (h.dirs _ att.1).up dotdot_ne
      rw [h.root.2] at named
      exact ⟨rootIno, Ne.symm notRoot, att, named⟩
    · obtain ⟨above, j', e, le', here', name⟩ := h.attached d att root
      have named := links_pos above here' ((h.dirs _ above.1).named j' e le' here' (by rw [name]; exact pos))
      rw [name] at named
      exact ⟨parent T d, h.parent_full att root empty, above, named⟩
  obtain ⟨c, ne, att', named⟩ := second
  have both : links T c d + links T o.inum d ≤ count N T d :=
    add_le_sum (f := fun c => links T c d) (h.inside (dir_used att'.1)) (h.inside (dir_used isDir)) ne
  omega

end Linked

namespace Drops

section
variable (h : Drops T U d i j o)
include h

lemma at_here (j') : (U.ents d)[j']? = if j' = j then some ⟨0, []⟩ else (T.ents d)[j']? := by
  obtain ⟨lt, -⟩ := List.getElem?_eq_some_iff.mp h.entry.1
  rw [h.here]
  exact putEnt_getElem? _ _ (le_of_lt lt) j'

lemma links_here (used : x ≠ 0) : links U d x + (if x = i then 1 else 0) = links T d x := by
  obtain ⟨here, inum, -, name, -⟩ := h.entry
  obtain ⟨lt, -⟩ := List.getElem?_eq_some_iff.mp here
  have counted := countP_putEnt (names x) (T.ents d) (le_of_lt lt) ⟨0, []⟩
  have new : names x ⟨0, []⟩ = false := by
    simp only [names, decide_eq_false_iff_not]
    exact fun both => used both.1.symm
  have old : (if names x o then 1 else 0) = if x = i then 1 else 0 := by
    by_cases hx : x = i
    · subst hx
      simp [names, inum, name]
    · simp [names, inum, hx, Ne.symm hx]
  rw [here, new] at counted
  simp only [map_some, getD_some, old, Bool.false_eq_true, if_false] at counted
  rw [links_of_attached h.after, links_of_attached h.before, h.here]
  omega

lemma not_attached : ¬ Attached U i := by
  intro att
  rcases h.kind with ⟨file, -⟩ | ⟨-, -, zero, -⟩
  · have isDir := att.1
    rw [h.typ] at isDir
    exact file isDir
  · exact att.ne_zero zero

lemma links_gone (was : Linked N T) (used : x ≠ 0) : links T i x = if T.typ i = .dir ∧ x = d then 1 else 0 := by
  rcases h.kind with ⟨file, -⟩ | ⟨isDir, empty, zero, -⟩
  · rw [links_of_typ file, if_neg fun both => file both.1]
  · obtain ⟨here, rfl, -, -, le⟩ := h.entry
    obtain ⟨-, up, -⟩ := was.single d j o h.before le here isDir
    have att : Attached T o.inum := by
      refine ⟨isDir, ?_⟩
      have less := h.less
      rw [zero] at less
      rw [Int16.le_iff_toInt_le, ← less]
      decide
    rw [links_of_attached att, (was.dirs _ isDir).countP_empty empty used, up]
    simp [isDir]

lemma counted (was : Linked N T) (used : x ≠ 0) : (U.nlink x).toInt = count N U x := by
  have moved := sum_off_pair (g := fun c => links T c x)
    (was.inside (Linked.dir_used h.before.1)) (was.inside h.used) h.ne.symm fun c neD neI =>
      links_congr (h.typ c) (h.nlink c neD neI) (h.ents c neD)
  have here := h.links_here used
  have gone : links U i x = 0 := if_neg h.not_attached
  rw [h.links_gone was used, gone] at moved
  have old := was.counted x used
  unfold count at old ⊢
  have ne := h.ne
  by_cases hi : x = i
  · subst hi
    have less := h.less
    rw [if_pos rfl] at here
    rw [if_neg fun both => ne both.2] at moved
    omega
  · rw [if_neg hi] at here
    by_cases hd : x = d
    · subst hd
      rcases h.kind with ⟨file, same⟩ | ⟨isDir, -, -, less⟩
      · rw [if_neg fun both => file both.1] at moved
        rw [same]
        omega
      · rw [if_pos ⟨isDir, rfl⟩] at moved
        omega
    · rw [if_neg fun both => hd both.2] at moved
      rw [h.nlink x hd hi]
      omega

lemma dir_old (was : Linked N T) (isDir : T.typ c = .dir) : Dir U c ∧ parent U c = parent T c := by
  by_cases hc : c = d
  · subst hc
    have old := was.dirs c isDir
    have le := h.entry.2.2.2.2
    have first : (U.ents c)[0]? = (T.ents c)[0]? := by rw [h.at_here, if_neg (by omega)]
    have second : (U.ents c)[1]? = (T.ents c)[1]? := by rw [h.at_here, if_neg (by omega)]
    have up : parent U c = parent T c := by simp only [parent, second]
    refine ⟨⟨by rw [first]; exact old.self, by rw [second, up]; exact old.up,
      by rw [up]; exact old.parent_ne, fun j' e le' here used => ?_⟩, up⟩
    rw [h.at_here] at here
    by_cases eq : j' = j
    · rw [if_pos eq] at here
      cases here
      exact absurd rfl used
    · rw [if_neg eq] at here
      exact old.named j' e le' here used
  · have ents := h.ents c hc
    exact ⟨(was.dirs c isDir).congr ents, parent_congr ents⟩

lemma attached_old (ne : c ≠ i) : Attached U c ↔ Attached T c := by
  by_cases hc : c = d
  · subst hc
    exact ⟨fun _ => h.before, fun _ => h.after⟩
  · unfold Attached
    rw [h.typ c, h.nlink c hc ne]

lemma ne_root (was : Linked N T) : i ≠ rootIno := by
  intro root
  obtain ⟨here, inum, -, -, le⟩ := h.entry
  have isDir : T.typ o.inum = .dir := by
    rw [inum, root]
    exact was.root.1.1
  exact (was.single d j o h.before le here isDir).1 (inum.trans root)

lemma linked (was : Linked N T) : Linked N U := by
  have notRoot := h.ne_root was
  have stays : ∀ c, Attached U c → c ≠ i := by
    rintro c att rfl
    exact h.not_attached att
  constructor
  · rw [h.typ]
    exact was.zero
  · intro x past
    rw [h.typ]
    exact was.outside x past
  · intro x free
    rw [h.typ] at free
    have hd : x ≠ d := by
      rintro rfl
      rw [h.before.1] at free
      cases free
    have hi : x ≠ i := by
      rintro rfl
      exact h.used free
    rw [h.nlink x hd hi]
    exact was.free x free
  · intro x file
    rw [h.typ] at file
    have hd : x ≠ d := by
      rintro rfl
      exact file h.before.1
    rw [h.ents x hd]
    exact was.files x file
  · intro x used
    exact h.counted was used
  · intro c isDir
    rw [h.typ] at isDir
    exact (h.dir_old was isDir).1
  · intro c isDir zero
    have hd : c ≠ d := by
      rintro rfl
      exact h.after.ne_zero zero
    rw [h.typ] at isDir
    rw [h.ents c hd]
    by_cases hc : c = i
    · subst hc
      rcases h.kind with ⟨file, -⟩ | ⟨-, empty, -, -⟩
      · exact absurd isDir file
      · exact empty
    · rw [h.nlink c hd hc] at zero
      exact was.removed c isDir zero
  · obtain ⟨att, up⟩ := was.root
    exact ⟨(h.attached_old (Ne.symm notRoot)).mpr att, (h.dir_old was att.1).2.trans up⟩
  · intro c att other
    have hc := stays c att
    have att' := (h.attached_old hc).mp att
    obtain ⟨above, j', e, le, here, name⟩ := was.attached c att' other
    rw [(h.dir_old was att'.1).2]
    have hp : parent T c ≠ i := by
      intro eq
      rcases h.kind with ⟨file, -⟩ | ⟨-, empty, -, -⟩
      · rw [eq] at above
        exact file above.1
      · exact was.parent_full att' other empty eq
    refine ⟨(h.attached_old hp).mpr above, j', e, le, ?_, name⟩
    by_cases hd : parent T c = d
    · rw [hd] at here ⊢
      have ne : j' ≠ j := by
        rintro rfl
        obtain rfl := some.inj (here.symm.trans h.entry.1)
        exact hc (name.symm.trans h.entry.2.1)
      rw [h.at_here, if_neg ne]
      exact here
    · rw [h.ents _ hd]
      exact here
  · intro c j' e att le here isDir
    have hc := stays c att
    have att' := (h.attached_old hc).mp att
    rw [h.typ] at isDir
    have pos := was.ne_zero (Linked.dir_used isDir)
    -- A place in use is not the one that was erased.
    have old : ∀ {k : Nat} {a : Dirent}, (U.ents c)[k]? = some a → a.inum ≠ 0 → (T.ents c)[k]? = some a := by
      intro k a at_ used
      by_cases hd : c = d
      · subst hd
        rw [h.at_here] at at_
        by_cases eq : k = j
        · rw [if_pos eq] at at_
          cases at_
          exact absurd rfl used
        · rwa [if_neg eq] at at_
      · rwa [h.ents c hd] at at_
    obtain ⟨notRoot', up, only⟩ := was.single c j' e att' le (old here pos) isDir
    refine ⟨notRoot', (h.dir_old was isDir).2.trans up, fun k a le' at_ name => ?_⟩
    exact only k a le' (old at_ (by rw [name]; exact pos)) name

end

end Drops

end

section

def Orderly (S T : Tree) : Prop :=
  (∀ d, S.typ d = .dir → S.nlink d = 0 → T.typ d = .free ∨ T.ents d = S.ents d) ∧
    ∀ i, S.nlink i = 32767 → T.nlink i ≠ -32768

variable {keep : Nat → Prop}

lemma toInt_succ {v : Int16} (fits : v ≠ 32767) : (v + 1).toInt = v.toInt + 1 := by
  have ne : v.toInt ≠ 32767 := fun eq => fits (Int16.toInt_inj.mp eq)
  have lt := v.toInt_lt
  have le := v.le_toInt
  rw [Int16.toInt_add]
  change (v.toInt + 1).bmod (2 ^ 16) = _
  apply Int.bmod_eq_of_le <;> omega

lemma toInt_pred {v : Int16} (pos : 1 ≤ v) : (v - 1).toInt + 1 = v.toInt := by
  have ge : 1 ≤ v.toInt := Int16.le_iff_toInt_le.mp pos
  have lt := v.toInt_lt
  rw [Int16.toInt_sub]
  change (v.toInt - 1).bmod (2 ^ 16) + 1 = _
  rw [Int.bmod_eq_of_le] <;> omega

lemma freeIdx_changes (es) (used : e.inum ≠ 0) : putEnt es (freeIdx es) e ≠ es := by
  intro same
  have here := putEnt_getElem? es e (freeIdx_le es) (freeIdx es)
  rw [if_pos rfl, same] at here
  exact used (freeIdx_free here)

lemma Dir.new_name (h : Dir T d) (pos : d ≠ 0) (absent : find (T.ents d) name = none) : cstr name ≠ dot :=
  fun eq => find_none absent (List.mem_of_getElem? h.self) pos eq.symm

namespace Linked

lemma attached_of_adding (h : Linked N T) (orderly : Orderly T U) (isDir : T.typ d = .dir)
    (isDir' : U.typ d ≠ .free) (changed : U.ents d ≠ T.ents d) : Attached T d := by
  refine h.attached_of isDir fun zero => ?_
  rcases orderly.1 d isDir zero with free | same
  · exact isDir' free
  · exact changed same

lemma adds_link (h : Linked N T) (isDir : T.typ d = .dir) (notDir : T.typ i ≠ .dir)
    (used : T.typ i ≠ .free) (absent : find (T.ents d) name = none)
    (eq : U = (T.setNlink i (T.nlink i + 1)).setEnts d (withEntry T d ⟨i, cstr name⟩))
    (orderly : Orderly T U) : Adds T U d i ⟨i, cstr name⟩ := by
  subst eq
  have pos := h.ne_zero used
  have ne : i ≠ d := by
    rintro rfl
    exact notDir isDir
  have here : ((T.setNlink i (T.nlink i + 1)).setEnts d (withEntry T d ⟨i, cstr name⟩)).ents d =
    withEntry T d ⟨i, cstr name⟩ := update_self ..
  have att := h.attached_of_adding orderly isDir (dir_used isDir) (by rw [here]; exact freeIdx_changes _ pos)
  have fits : T.nlink i ≠ 32767 := by
    intro full
    refine orderly.2 i full ?_
    simp only [Tree.setNlink, Tree.setEnts, update_self, full]
    decide
  refine ⟨⟨rfl, pos, (h.dirs d isDir).new_name (h.ne_zero (dir_used isDir)) absent⟩, fun _ _ => rfl,
    fun x _ hi => update_of_ne hi .., fun x hd _ => update_of_ne hd .., here, notDir, att,
    att.congr rfl (update_of_ne ne.symm ..), ?_, .inl ⟨notDir, used, ?_, ?_⟩⟩
  · simp only [Tree.setNlink, Tree.setEnts, update_self]
    exact toInt_succ fits
  · simp only [Tree.setNlink, Tree.setEnts, update_of_ne ne]
    exact h.files i notDir
  · exact update_of_ne ne.symm ..

lemma ne_of_free (isDir : T.typ d = .dir) (free : T.typ i = .free) : i ≠ d := by
  rintro rfl
  rw [isDir] at free
  cases free

section
variable (h : Linked N T) (isDir : T.typ d = .dir)
include h isDir

lemma adds_make (free : T.typ i = .free)
    (pos : i ≠ 0) (real : type ≠ .free) (notDir : type ≠ .dir) (absent : find (T.ents d) name = none)
    (eq : U = (T.make i type).setEnts d (withEntry T d ⟨i, cstr name⟩)) (orderly : Orderly T U) :
    Adds T U d i ⟨i, cstr name⟩ := by
  subst eq
  have ne := ne_of_free isDir free
  have here : ((T.make i type).setEnts d (withEntry T d ⟨i, cstr name⟩)).ents d =
    withEntry T d ⟨i, cstr name⟩ := update_self ..
  have typD : ((T.make i type).setEnts d (withEntry T d ⟨i, cstr name⟩)).typ d = .dir := by
    simp [Tree.make, Tree.setEnts, update_of_ne ne.symm, isDir]
  have typI : ((T.make i type).setEnts d (withEntry T d ⟨i, cstr name⟩)).typ i = type := by
    simp [Tree.make, Tree.setEnts]
  have att := h.attached_of_adding orderly isDir (dir_used typD) (by rw [here]; exact freeIdx_changes _ pos)
  refine ⟨⟨rfl, pos, (h.dirs d isDir).new_name (h.ne_zero (dir_used isDir)) absent⟩,
    fun x hi => update_of_ne hi .., fun x _ hi => update_of_ne hi .., ?_, here,
    by rw [free]; decide, att, att.congr (typD.trans isDir.symm) (update_of_ne ne.symm ..), ?_,
    .inl ⟨by rw [typI]; exact notDir, by rw [typI]; exact real, ?_, ?_⟩⟩
  · intro x hd hi
    simp [Tree.make, Tree.setEnts, update_of_ne hd, update_of_ne hi]
  · simp only [Tree.make, Tree.setEnts, update_self, h.free i free]
    decide
  · simp [Tree.make, Tree.setEnts, update_of_ne ne]
  · exact update_of_ne ne.symm ..

lemma adds_mkdir (free : T.typ i = .free) (pos : i ≠ 0) (absent : find (T.ents d) name = none)
    (eq : U = (((T.make i .dir).setEnts i [⟨i, dot⟩, ⟨d, dotdot⟩]).setEnts d
      (withEntry T d ⟨i, cstr name⟩)).setNlink d (T.nlink d + 1)) (orderly : Orderly T U) :
    Adds T U d i ⟨i, cstr name⟩ := by
  have ne := ne_of_free isDir free
  have here : U.ents d = withEntry T d ⟨i, cstr name⟩ := by
    rw [eq]
    exact update_self ..
  have typ : ∀ x, x ≠ i → U.typ x = T.typ x := by
    intro x hi
    rw [eq]
    exact update_of_ne hi ..
  have typI : U.typ i = .dir := by
    rw [eq]
    exact update_self ..
  have nlinkD : U.nlink d = T.nlink d + 1 := by
    rw [eq]
    exact update_self ..
  have typD := (typ d ne.symm).trans isDir
  have att := h.attached_of_adding orderly isDir (dir_used typD) (by rw [here]; exact freeIdx_changes _ pos)
  have fits : T.nlink d ≠ 32767 := by
    intro full
    refine orderly.2 d full ?_
    rw [nlinkD, full]
    decide
  have more : (U.nlink d).toInt = (T.nlink d).toInt + 1 := by
    rw [nlinkD]
    exact toInt_succ fits
  refine ⟨⟨rfl, pos, (h.dirs d isDir).new_name (h.ne_zero (dir_used isDir)) absent⟩, typ, ?_, ?_, here,
    by rw [free]; decide, att, ⟨typD, ?_⟩, ?_, .inr ⟨typI, free, ?_, more⟩⟩
  · intro x hd hi
    rw [eq]
    simp [Tree.make, Tree.setEnts, Tree.setNlink, update_of_ne hd, update_of_ne hi]
  · intro x hd hi
    rw [eq]
    simp [Tree.make, Tree.setEnts, Tree.setNlink, update_of_ne hd, update_of_ne hi]
  · have le := Int16.le_iff_toInt_le.mp att.2
    rw [Int16.le_iff_toInt_le, more]
    omega
  · rw [eq]
    simp only [Tree.make, Tree.setEnts, Tree.setNlink, update_of_ne ne, update_self, h.free i free]
    decide
  · rw [eq]
    simp [Tree.make, Tree.setEnts, Tree.setNlink, update_of_ne ne]

lemma drops_unlink (ne : i ≠ d) (pos : i ≠ 0) (here : (T.ents d)[j]? = some ⟨i, cstr name⟩) (notDot : cstr name ≠ dot)
    (notDotdot : cstr name ≠ dotdot) (used : T.typ i ≠ .free) (linked : 1 ≤ T.nlink i)
    (empty : T.typ i = .dir → isEmpty (T.ents i) = true)
    (eq : U = ((T.setEnts d (putEnt (T.ents d) j ⟨0, []⟩)).setNlink d
      (if T.typ i = .dir then T.nlink d - 1 else T.nlink d)).setNlink i (T.nlink i - 1)) :
    Drops T U d i j ⟨i, cstr name⟩ := by
  have dir := h.dirs d isDir
  have le : 2 ≤ j := by
    by_contra low
    have cases : j = 0 ∨ j = 1 := by omega
    rcases cases with rfl | rfl
    · exact notDot (congrArg Dirent.name (some.inj (here.symm.trans dir.self)))
    · exact notDotdot (congrArg Dirent.name (some.inj (here.symm.trans dir.up)))
  have att : Attached T d := by
    refine h.attached_of isDir fun zero => ?_
    exact pos (isEmpty_free (h.removed d isDir zero) le here)
  have nlinkI : U.nlink i = T.nlink i - 1 := by
    rw [eq]
    exact update_self ..
  have nlinkD : U.nlink d = if T.typ i = .dir then T.nlink d - 1 else T.nlink d := by
    rw [eq]
    simp [Tree.setNlink, update_of_ne ne.symm]
  have typ : ∀ x, U.typ x = T.typ x := by
    intro x
    rw [eq]
    rfl
  have less : (U.nlink i).toInt + 1 = (T.nlink i).toInt := by
    rw [nlinkI]
    exact toInt_pred linked
  have core : Attached U d ∧ ((T.typ i ≠ .dir ∧ U.nlink d = T.nlink d) ∨
    (T.typ i = .dir ∧ isEmpty (T.ents i) = true ∧ U.nlink i = 0 ∧ (U.nlink d).toInt + 1 = (T.nlink d).toInt)) := by
    by_cases child : T.typ i = .dir
    · rw [if_pos child] at nlinkD
      have one := h.nlink_empty att le here child (empty child)
      have two := h.two_le_nlink att le here child (empty child) (by
        intro zero
        rw [show T.nlink i = 0 from zero] at linked
        exact absurd linked (by decide))
      have fewer : (U.nlink d).toInt + 1 = (T.nlink d).toInt := by
        rw [nlinkD]
        exact toInt_pred att.2
      refine ⟨⟨(typ d).trans isDir, ?_⟩, .inr ⟨child, empty child, ?_, fewer⟩⟩
      · rw [Int16.le_iff_toInt_le]
        change (1 : Int) ≤ _
        omega
      · refine Int16.toInt_inj.mp ?_
        change _ = (0 : Int)
        dsimp only at one
        omega
    · rw [if_neg child] at nlinkD
      exact ⟨att.congr (typ d) nlinkD, .inl ⟨child, nlinkD⟩⟩
  refine ⟨⟨here, rfl, pos, notDot, le⟩, ne, typ, ?_, ?_, ?_, used, att, core.1, less, core.2⟩
  · intro x hd hi
    rw [eq]
    simp [Tree.setEnts, Tree.setNlink, update_of_ne hd, update_of_ne hi]
  · intro x hd
    rw [eq]
    exact update_of_ne hd ..
  · rw [eq]
    exact update_self ..

end

lemma edit (h : Linked N T) (edit : Edit T U) (orderly : Orderly T U)
    (outside : ∀ i, N ≤ i → U.typ i = .free) : Linked N U := by
  have inside : ∀ i, U.typ i ≠ .free → i ∈ range N := by
    intro i used
    rw [mem_range]
    by_contra past
    exact used (outside i (by omega))
  cases edit with
  | link d i name isDir notDir used absent =>
    exact (h.adds_link isDir notDir used absent rfl orderly).linked h (h.inside used)
  | make d i name type isDir free pos real notDir absent =>
    refine (h.adds_make isDir free pos real notDir absent rfl orderly).linked h (inside i ?_)
    simp only [Tree.make, Tree.setEnts, update_self]
    exact real
  | mkdir d i name isDir free pos absent =>
    refine (h.adds_mkdir isDir free pos absent rfl orderly).linked h (inside i ?_)
    simp only [Tree.make, Tree.setEnts, Tree.setNlink, update_self]
    decide
  | unlink d i j name isDir ne pos found here notDot notDotdot used linked empty =>
    exact (h.drops_unlink isDir ne pos here notDot notDotdot used linked empty rfl).linked h

lemma reaps_eq (h : Linked N S) (reaps : Reaps keep S T)
    (kept : ∀ i, S.typ i ≠ .free → S.nlink i = 0 → keep i) : T = S := by
  obtain ⟨gone, ok, rfl⟩ := reaps
  have free : ∀ i, gone i = true → S.typ i = .free := by
    intro i freed
    by_contra used
    exact (ok i freed).2 (kept i used (ok i freed).1)
  apply Tree.ext
  · intro i
    by_cases freed : gone i = true
    · rw [free i freed]
      exact if_pos freed
    · exact if_neg freed
  · intro i
    by_cases freed : gone i = true
    · rw [(ok i freed).1]
      exact if_pos freed
    · exact if_neg freed
  · intro i
    by_cases freed : gone i = true
    · rw [h.files i (by rw [free i freed]; decide)]
      exact if_pos freed
    · exact if_neg freed

lemma edit_fresh (edit : Edit T U) (free : T.typ i = .free) : U.typ i = .free ∨ U.nlink i = 1 := by
  cases edit with
  | link d x name => exact .inl free
  | make d x name type isDir =>
    by_cases hi : i = x
    · subst hi
      exact .inr (update_self ..)
    · exact .inl ((update_of_ne hi ..).trans free)
  | mkdir d x name isDir =>
    by_cases hi : i = x
    · subst hi
      have ne := ne_of_free isDir free
      refine .inr ?_
      simp [Tree.make, Tree.setEnts, Tree.setNlink, update_of_ne ne]
    · exact .inl ((update_of_ne hi ..).trans free)
  | unlink d x _ name => exact .inl free

structure Changes (N : Nat) (keep : Nat → Prop) (S U T : Tree) : Prop where
  edit : Edit S U
  reaps : Reaps keep U T
  orderly : Orderly S U
  outside : ∀ i, N ≤ i → U.typ i = .free

section
variable (h : Linked N S) (out : Outcome keep S T)
  (kept : ∀ i, S.typ i ≠ .free → S.nlink i = 0 → keep i) (orderly : Orderly S T)
  (outside : ∀ i, N ≤ i → T.typ i = .free)
include h out kept orderly outside

lemma changes : Reaps keep S T ∨ ∃ U, Changes N keep S U T := by
  obtain ⟨S', U, first, edit, last⟩ := out
  obtain rfl := h.reaps_eq first kept
  rcases edit with rfl | edit
  · exact .inl last
  refine .inr ⟨U, edit, last, ⟨fun d isDir zero => ?_, fun i full wraps => ?_⟩, fun i past => ?_⟩
  · obtain ⟨typ, -, ents⟩ := last.kept (kept d (dir_used isDir) zero)
    rw [← typ, ← ents]
    exact orderly.1 d isDir zero
  · obtain ⟨gone, ok, rfl⟩ := last
    have stays : gone i ≠ true := by
      intro bad
      rw [(ok i bad).1] at wraps
      exact absurd wraps (by decide)
    exact orderly.2 i full ((if_neg stays).trans wraps)
  · rcases edit_fresh edit (h.outside i past) with free | one
    · exact free
    · have free := outside i past
      obtain ⟨gone, ok, rfl⟩ := last
      have stays : gone i ≠ true := by
        intro bad
        rw [(ok i bad).1] at one
        exact absurd one (by decide)
      exact (if_neg stays).symm.trans free

lemma outcome : Linked N T := by
  rcases h.changes out kept orderly outside with reaps | ⟨U, c⟩
  · exact h.reaps reaps
  · exact (h.edit c.edit c.orderly c.outside).reaps c.reaps

end

end Linked

end

def Up (T : Tree) : Prop := ∀ d, T.typ d = .dir → T.nlink d = 0 → T.nlink (parent T d) ≠ 0

/-- No directory loses its last link while a removed directory has it as `..`. -/
def Tidy (S T : Tree) : Prop :=
  ∀ p d, S.nlink p ≠ 0 → T.nlink p = 0 → T.typ d = .dir → T.nlink d = 0 → parent T d ≠ p

variable {c : Nat}

/-- A directory without links was without them before, unless its name was just taken out of
its parent. -/
def Removal (S U : Tree) (c : Nat) : Prop :=
  (S.typ c = .dir ∧ S.nlink c = 0 ∧ U.ents c = S.ents c) ∨ U.nlink (parent U c) ≠ 0

lemma Adds.removal (h : Adds S U d i e) (was : Linked N S) (isDir : U.typ c = .dir) (zero : U.nlink c = 0) :
    Removal S U c := by
  have neD : c ≠ d := by
    rintro rfl
    exact h.after.ne_zero zero
  have neI : c ≠ i := by
    rintro rfl
    have more := h.more
    have old := was.counted c h.entry.2.1
    rw [zero] at more
    change (0 : Int) = _ at more
    omega
  rw [h.typ c neI] at isDir
  rw [h.nlink c neD neI] at zero
  exact .inl ⟨isDir, zero, h.ents c neD neI⟩

lemma Drops.removal (h : Drops S U d i j e) (was : Linked N S) (isDir : U.typ c = .dir)
    (zero : U.nlink c = 0) : Removal S U c := by
  have neD : c ≠ d := by
    rintro rfl
    exact h.after.ne_zero zero
  rw [h.typ c] at isDir
  by_cases hc : c = i
  · subst hc
    obtain ⟨here, rfl, -, -, le⟩ := h.entry
    obtain ⟨-, up, -⟩ := was.single d j e h.before le here isDir
    refine .inr ?_
    rw [parent_congr (h.ents _ neD), up]
    exact h.after.ne_zero
  · rw [h.nlink c neD hc] at zero
    exact .inl ⟨isDir, zero, h.ents c neD⟩

lemma Linked.edit_removal (h : Linked N S) (edit : Edit S U) (orderly : Orderly S U)
    (isDir : U.typ c = .dir) (zero : U.nlink c = 0) : Removal S U c := by
  cases edit with
  | link d i name isDir' notDir used absent =>
    exact (h.adds_link isDir' notDir used absent rfl orderly).removal h isDir zero
  | make d i name type isDir' free pos real notDir absent =>
    exact (h.adds_make isDir' free pos real notDir absent rfl orderly).removal h isDir zero
  | mkdir d i name isDir' free pos absent =>
    exact (h.adds_mkdir isDir' free pos absent rfl orderly).removal h isDir zero
  | unlink d i j name isDir' ne pos found here notDot notDotdot used linked empty =>
    exact (h.drops_unlink isDir' ne pos here notDot notDotdot used linked empty rfl).removal h isDir zero

lemma reaps_dir (reaps : Reaps keep U T) (isDir : T.typ c = .dir) : U.typ c = .dir ∧ T.ents c = U.ents c := by
  obtain ⟨gone, -, rfl⟩ := reaps
  have stays : gone c ≠ true := by
    intro freed
    rw [show (U.free gone).typ c = .free from if_pos freed] at isDir
    cases isDir
  exact ⟨(if_neg stays).symm.trans isDir, if_neg stays⟩

lemma reaps_nlink (reaps : Reaps keep U T) : T.nlink i = U.nlink i := by
  obtain ⟨gone, ok, rfl⟩ := reaps
  by_cases freed : gone i = true
  · rw [(ok i freed).1]
    exact if_pos freed
  · exact if_neg freed

lemma Up.reaps (h : Up S) (reaps : Reaps keep S T) : Up T := by
  intro d isDir zero
  obtain ⟨isDir', ents⟩ := reaps_dir reaps isDir
  rw [reaps_nlink reaps] at zero ⊢
  rw [parent_congr ents]
  exact h d isDir' zero

lemma Up.outcome (up : Up S) (h : Linked N S) (out : Outcome keep S T)
    (kept : ∀ i, S.typ i ≠ .free → S.nlink i = 0 → keep i) (orderly : Orderly S T) (tidy : Tidy S T)
    (outside : ∀ i, N ≤ i → T.typ i = .free) : Up T := by
  rcases h.changes out kept orderly outside with reaps | ⟨U, change⟩
  · exact up.reaps reaps
  intro d isDir zero bad
  obtain ⟨isDir', ents⟩ := reaps_dir change.reaps isDir
  have zero' := (reaps_nlink change.reaps).symm.trans zero
  have same := parent_congr ents
  rcases h.edit_removal change.edit change.orderly isDir' zero' with ⟨wasDir, wasZero, old⟩ | linked
  · have same' := parent_congr old
    have before := up d wasDir wasZero
    rw [← same', ← same] at before
    exact tidy _ d before bad isDir zero rfl
  · rw [← same, ← reaps_nlink change.reaps] at linked
    exact linked bad

end Xv6.FsLinks
