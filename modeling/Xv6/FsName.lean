import Xv6.FsDir

/-! Looking up a path. `namex` goes from directory to directory with one reference at a
time. -/

namespace Xv6.FsName

open Params FsMachine FsTree FsBlocks FsDisk FsTable FsDir Total

/-- Seen by the holders of `refs`, nothing happens but that unused inodes are freed. -/
structure Quiet (refs : Slot → Nat) (s t : Fs) : Prop where
  keeps : Keeps refs s t
  reaps : Reaps (InUse refs s) (tree s) (tree t)

variable {refs : Slot → Nat} {s t u : Fs} {k : Slot}

lemma Quiet.refl : Quiet refs s s := ⟨.refl, .refl⟩

lemma Quiet.trans (h : Quiet refs s t) (h' : Quiet refs t u) : Quiet refs s u :=
  ⟨h.keeps.trans h'.keeps, h.reaps.trans (h'.reaps.mono fun _ use => h.keeps.inUse.mpr use)⟩

lemma Quiet.of_onTable (keeps : Keeps refs s t) (on : OnTable s t) : Quiet refs s t :=
  ⟨keeps, by rw [on.tree]; exact .refl⟩

lemma InUse.bump (h : InUse refs s i) : InUse (bump refs k) s i := by
  obtain ⟨l, pos, eq⟩ := h
  exact ⟨l, bump_pos pos, eq⟩

lemma Quiet.of_bump (h : Quiet (bump refs k) s t) : Quiet refs s t :=
  ⟨h.keeps.of_bump, h.reaps.mono fun _ => InUse.bump⟩

lemma Quiet.kept (h : Quiet refs s t) (pos : 0 < refs k) :
    (tree t).typ (s.itable k).inum = (tree s).typ (s.itable k).inum ∧
      (tree t).nlink (s.itable k).inum = (tree s).nlink (s.itable k).inum ∧
      (tree t).ents (s.itable k).inum = (tree s).ents (s.itable k).inum :=
  h.reaps.kept ⟨k, pos, rfl⟩

section
variable {E : String → Prop} {sb : Super} {O : Nat → Prop}

lemma iunlockput_safe (tame : Benign E) (sound : Sound sb O s (bump refs k)) :
    Safe E (iunlockput sb k) s fun _ t => Sound sb O t refs ∧ Quiet refs s t ∧
      (refs k = 0 → (s.itable k).valid = true → (s.itable k).copy.nlink = 0 →
        (tree t).typ (s.itable k).inum = .free) := by
  apply Safe.bind (iunlock_safe tame sound bump_gt)
  rintro _ t ⟨sound', keeps, on⟩
  apply (iput_safe tame sound').mono
  rintro _ u ⟨sound'', keeps', reaps, -, freed⟩
  have first := Quiet.of_onTable keeps on
  refine ⟨sound'', first.of_bump.trans ⟨keeps', reaps⟩, fun none valid zero => ?_⟩
  have inum := keeps.inum k bump_gt
  rw [inum] at freed
  refine freed none (keeps.valid k bump_gt valid) ?_
  rw [on.copy sound sound' keeps bump_gt bump_gt valid]
  exact zero

structure Closed (T : Tree) : Prop where
  root : T.typ rootIno ≠ .free ∧ T.nlink rootIno ≠ 0
  names : ∀ d, ∀ e ∈ T.ents d, e.inum = 0 ∨ e.inum = d ∨ T.nlink e.inum ≠ 0

lemma Closed.reaps (h : Closed S) (reaps : Reaps keep S T) : Closed T := by
  obtain ⟨gone, ok, rfl⟩ := reaps
  have stays : ∀ i, S.nlink i ≠ 0 → gone i ≠ true := fun i linked bad => linked (ok i bad).1
  have nlink : ∀ i, S.nlink i ≠ 0 → (S.free gone).nlink i ≠ 0 := by
    intro i linked
    exact ne_of_eq_of_ne (if_neg (stays i linked)) linked
  refine ⟨⟨ne_of_eq_of_ne (if_neg (stays _ h.root.2)) h.root.1, nlink _ h.root.2⟩, fun d e mem => ?_⟩
  by_cases freed : gone d = true
  · rw [show (S.free gone).ents d = [] from if_pos freed] at mem
    exact absurd mem List.not_mem_nil
  · rw [show (S.free gone).ents d = S.ents d from if_neg freed] at mem
    exact (h.names d e mem).imp_right (.imp_right (nlink _))

lemma Closed.more (h : Closed T) (linked : v ≠ 0) : Closed (T.setNlink i v) := by
  have nlink : ∀ x, T.nlink x ≠ 0 → (T.setNlink i v).nlink x ≠ 0 := by
    intro x old
    by_cases hx : x = i
    · subst hx
      exact ne_of_eq_of_ne (Function.update_self ..) linked
    · exact ne_of_eq_of_ne (Function.update_of_ne hx ..) old
  exact ⟨⟨h.root.1, nlink _ h.root.2⟩, fun d e mem => (h.names d e mem).imp_right (.imp_right (nlink _))⟩

def Removable (T : Tree) : Prop :=
  ∀ (d j : Nat) (e : Dirent), T.typ d = .dir → (T.ents d)[j]? = some e → e.inum ≠ 0 → e.name ≠ dot →
    e.name ≠ dotdot → 1 ≤ T.nlink e.inum

lemma Removable.reaps (h : Removable S) (reaps : Reaps keep S T) : Removable T := by
  obtain ⟨gone, ok, rfl⟩ := reaps
  intro d j e isDir here used notDot notDots
  have stays : gone d ≠ true := by
    intro freed
    rw [show (S.free gone).ents d = [] from if_pos freed] at here
    cases here
  rw [show (S.free gone).typ d = S.typ d from if_neg stays] at isDir
  rw [show (S.free gone).ents d = S.ents d from if_neg stays] at here
  have linked := h d j e isDir here used notDot notDots
  have kept : gone e.inum ≠ true := by
    intro freed
    rw [(ok _ freed).1] at linked
    exact absurd linked (by decide)
  rwa [show (S.free gone).nlink e.inum = S.nlink e.inum from if_neg kept]

def Lookups (E : String → Prop) (s : Fs) : Prop := E "ilock: no type" ∨ Closed (tree s)

lemma Lookups.quiet (h : Lookups E s) (quiet : Quiet refs s t) : Lookups E t :=
  h.imp_right fun closed => closed.reaps quiet.reaps

def Known (E : String → Prop) (s : Fs) (k : Slot) : Prop :=
  (s.dinode (s.itable k).inum).type ≠ .free ∨ E "ilock: no type"

lemma Known.quiet (h : Known E s k) (quiet : Quiet refs s t) (pos : 0 < refs k) : Known E t k := by
  refine h.imp_left fun used => ?_
  change (tree t).typ (t.itable k).inum ≠ .free
  rw [quiet.keeps.inum k pos, (quiet.kept pos).1]
  exact used

lemma Known.onTable (h : Known E s k) (keeps : Keeps refs s t) (on : OnTable s t) (pos : 0 < refs k) : Known E t k :=
  h.quiet (.of_onTable keeps on) pos

lemma known_of_valid (sound : Sound sb O s refs) (pos : 0 < refs k) (valid : (s.itable k).valid = true) : Known E s k :=
  .inl (sound.table.loaded k pos valid).2

lemma Lookups.named (h : Lookups E s) (sound : Sound sb O s refs) (pos : 0 < refs k) (valid : (s.itable k).valid = true)
    (found : find ((tree s).ents (s.itable k).inum) name = some j)
    (here : ((tree s).ents (s.itable k).inum)[j]? = some ⟨i, cstr name⟩)
    (got : Got sb O refs i l s t) : Known E t l := by
  rcases h with allowed | closed
  · exact .inr allowed
  refine .inl ?_
  change (tree t).typ (t.itable l).inum ≠ .free
  rw [got.inum, got.onTable.tree]
  obtain ⟨i', here', used⟩ := find_some found
  have eq : i = i' := congrArg Dirent.inum (Option.some.inj (here.symm.trans here'))
  rcases closed.names _ _ (List.mem_of_getElem? here) with zero | self | linked
  · exact absurd (eq.symm.trans zero) used
  · rw [show i = (s.itable k).inum from self]
    exact (sound.table.loaded k pos valid).2
  · intro free
    exact linked (if_pos free)

structure Named (E : String → Prop) (sb : Super) (orphan : Nat → Prop) (refs : Slot → Nat)
    (parent : Bool) (k : Slot) (s t : Fs) : Prop where
  sound : Sound sb orphan t (bump refs k)
  quiet : Quiet refs s t
  known : Known E t k
  dir : parent = true → (t.itable k).valid = true ∧ (t.itable k).copy.type = .dir

lemma namexFrom_safe (tame : Benign E) (parent fuel path)
    (name) (sound : Sound sb O s (bump refs k)) (look : Lookups E s)
    (known : Known E s k) :
    Safe E (namexFrom sb parent fuel k path name) s fun r t =>
      match r with
      | none => Sound sb O t refs ∧ Quiet refs s t
      | some (l, _) => Named E sb O refs parent l s t := by
  induction fuel generalizing s k path name with
  | zero => exact safe_throw (tame _ (by decide))
  | succ fuel ih =>
    unfold namexFrom
    cases skipelem path with
    | none =>
      cases parent with
      | true =>
        rw [if_pos rfl]
        apply Safe.bind (iput_safe tame sound)
        rintro _ t ⟨sound', keeps, reaps, -⟩
        exact safe_pure ⟨sound', keeps, reaps⟩
      | false => exact safe_pure ⟨sound, .refl, known, nofun⟩
    | some element =>
      obtain ⟨name, rest⟩ := element
      apply Safe.bind (ilock_safe tame sound bump_gt known)
      rintro _ t ⟨sound1, keeps1, on1, valid1⟩
      have quiet1 := (Quiet.of_onTable keeps1 on1).of_bump
      have look1 := look.quiet quiet1
      have leave : Safe E (do iunlockput sb k; return none : F (Option (Slot × List UInt8))) t fun r u => match r with
          | none => Sound sb O u refs ∧ Quiet refs s u
          | some (l, _) => Named E sb O refs parent l s u := by
        apply Safe.bind (iunlockput_safe tame sound1)
        rintro _ u ⟨sound2, quiet2, -⟩
        exact safe_pure ⟨sound2, quiet1.trans quiet2⟩
      apply safe_get
      by_cases isDir : (t.itable k).copy.type = .dir
      · rw [if_neg (not_not.mpr isDir)]
        by_cases last : parent = true ∧ rest = []
        · rw [if_pos last]
          apply Safe.bind (iunlock_safe tame sound1 bump_gt)
          rintro _ u ⟨sound2, keeps2, on2⟩
          have valid2 := keeps2.valid k bump_gt valid1
          refine safe_pure ⟨sound2, quiet1.trans (Quiet.of_onTable keeps2 on2).of_bump,
            known_of_valid sound2 bump_gt valid2, fun _ => ⟨valid2, ?_⟩⟩
          rw [on2.copy sound1 sound2 keeps2 bump_gt bump_gt valid1]
          exact isDir
        · rw [if_neg last]
          apply Safe.bind (dirlookup_safe (fun _ => tame _ (by decide))
            (.inr (tame _ (by decide))) sound1 bump_gt valid1 isDir name)
          rintro r u (⟨rfl, rfl, -, -⟩ | ⟨j, i, l, rfl, found, here, got⟩)
          · exact leave
          · dsimp only
            have known2 := look1.named sound1 bump_gt valid1 found here got
            have sound2 : Sound sb O u (bump (bump refs l) k) := by
              rw [bump_comm]
              exact got.sound
            have quiet2 := (Quiet.of_onTable got.keeps got.onTable).of_bump
            apply Safe.bind (iunlockput_safe tame sound2)
            rintro _ v ⟨sound3, quiet3, -⟩
            have before := (quiet1.trans quiet2).trans quiet3.of_bump
            apply (ih rest name sound3 (look.quiet before) (known2.quiet quiet3 bump_gt)).mono
            rintro r w post
            cases r with
            | none => exact ⟨post.1, before.trans post.2⟩
            | some found => exact ⟨post.sound, before.trans post.quiet, post.known, post.dir⟩
      · rw [if_pos isDir]
        exact leave

section
variable (tame : Benign E) (sound : Sound sb O s refs) (root : rootIno < sb.ninodes)
  {cwd : Slot} (pos : 0 < refs cwd) (look : Lookups E s) (known : Known E s cwd) (path : Path)
include tame sound root pos look known path

lemma pathStart_safe : Safe E (pathStart cwd path) s fun k t => Sound sb O t (bump refs k) ∧ Quiet refs s t ∧
    Known E t k := by
  unfold pathStart
  split
  · apply (iget_safe (fun _ => tame _ (by decide)) sound root).mono
    rintro k t got
    refine ⟨got.sound, .of_onTable got.keeps got.onTable, look.symm.imp_left fun closed => ?_⟩
    change (tree t).typ (t.itable k).inum ≠ .free
    rw [got.inum, got.onTable.tree]
    exact closed.root.1
  · apply Safe.bind (idup_safe sound pos)
    rintro _ t ⟨sound', keeps, on⟩
    exact safe_pure ⟨sound', .of_onTable keeps on, known.onTable keeps on pos⟩

lemma namex_safe (parent) : Safe E (namex sb cwd path parent) s fun r t =>
    match r with
    | none => Sound sb O t refs ∧ Quiet refs s t
    | some (l, _) => Named E sb O refs parent l s t := by
  apply Safe.bind (pathStart_safe tame sound root pos look known path)
  rintro k t ⟨sound', quiet, known'⟩
  apply (namexFrom_safe tame parent _ path [] sound' (look.quiet quiet) known').mono
  rintro r u post
  cases r with
  | none => exact ⟨post.1, quiet.trans post.2⟩
  | some found => exact ⟨post.sound, quiet.trans post.quiet, post.known, post.dir⟩

lemma namei_safe : Safe E (namei sb cwd path) s fun r t =>
    match r with
    | none => Sound sb O t refs ∧ Quiet refs s t
    | some l => Sound sb O t (bump refs l) ∧ Quiet refs s t ∧ Known E t l := by
  apply Safe.bind (namex_safe tame sound root pos look known path false)
  rintro r t post
  cases r with
  | none => exact safe_pure post
  | some found => exact safe_pure ⟨post.sound, post.quiet, post.known⟩

end

end

end Xv6.FsName
