import Xv6.DirMap
import Xv6.FsOps

/-! Looking up a path is a fold over its components. `skipelem` cuts a path where the separators
are, and the loop of `namex` follows one component after the other in the tree on disk; it
neither changes the tree nor stops short. -/

namespace Xv6.PathFold

open Params FsMachine FsTree FsDisk FsTable FsDir FsName FsLocks FsOps DirMap Total List
open Function (update update_of_ne update_self)
open FsImage (image dinode_other super cwdRefs)

def comps (path : Path) : List (List UInt8) :=
  ((path.splitOn slash).filter (· ≠ [])).map (List.take dirsiz)

lemma comps_nil : comps [] = [] := by
  rw [comps, splitOn_nil]
  rfl

lemma comps_slash (path) : comps (slash :: path) = comps path := by
  have none_ : ∀ x ∈ ([] : Path), (x == slash) = false := nofun
  have cut := splitOnP_append_cons_of_forall_mem none_ slash (beq_self_eq_true slash) path
  rw [comps, comps, splitOn, splitOn, ← nil_append (slash :: path), cut]
  rfl

lemma comps_append {word rest : Path} (some_ : word ≠ []) (plain : slash ∉ word)
    (ends : rest = [] ∨ rest.head? = some slash) :
    comps (word ++ rest) = word.take dirsiz :: comps rest := by
  rcases ends with rfl | head
  · rw [append_nil, comps, splitOn_eq_singleton plain, comps_nil, filter_cons_of_pos (by simpa using some_)]
    rfl
  · obtain ⟨tail, rfl⟩ := head?_eq_some_iff.mp head
    have other : ∀ x ∈ word, (x == slash) = false := by
      intro x mem
      rw [beq_eq_false_iff_ne]
      rintro rfl
      exact plain mem
    have cut := splitOnP_append_cons_of_forall_mem other slash (beq_self_eq_true slash) tail
    rw [comps_slash, comps, comps, splitOn, splitOn, cut, filter_cons_of_pos (by simpa using some_)]
    rfl

lemma comps_skip (path) : comps (path.dropWhile (· = slash)) = comps path := by
  induction path with
  | nil => rfl
  | cons c path ih =>
    by_cases here : c = slash
    · rw [dropWhile_cons_of_pos (by simpa using here), ih, here, comps_slash]
    · rw [dropWhile_cons_of_neg (by simpa using here)]

lemma head_skip {path : Path} (eq : path.dropWhile (· = slash) = c :: rest) : c ≠ slash := by
  have first := head?_dropWhile_not (fun x => decide (x = slash)) path
  rw [eq] at first
  simpa using first

lemma comps_first {c : UInt8} (ne : c ≠ slash) : comps (c :: rest) = ((c :: rest).takeWhile (· ≠ slash)).take dirsiz ::
    comps ((c :: rest).dropWhile (· ≠ slash)) := by
  have word : (c :: rest).takeWhile (· ≠ slash) = c :: rest.takeWhile (· ≠ slash) :=
    takeWhile_cons_of_pos (by simpa using ne)
  have whole := takeWhile_append_dropWhile (p := fun x => decide (x ≠ slash)) (l := c :: rest)
  rw [← comps_append ?_ ?_ ?_, whole]
  · rw [word]
    exact cons_ne_nil _ _
  · intro mem
    have good := mem_takeWhile_imp mem
    simp at good
  · cases tail : (c :: rest).dropWhile (· ≠ slash) with
    | nil => exact .inl rfl
    | cons d tail' =>
      have first := head?_dropWhile_not (fun x => decide (x ≠ slash)) (c :: rest)
      rw [tail] at first
      exact .inr (by simpa using first)

lemma skipelem_none (stop : skipelem path = none) : comps path = [] := by
  unfold skipelem at stop
  split at stop
  · rename_i empty
    rw [← comps_skip, empty, comps_nil]
  · cases stop

lemma skipelem_some {path rest : Path} (cut : skipelem path = some (name, rest)) :
    comps path = name :: comps rest ∧ (rest = [] ↔ comps rest = []) ∧ rest.length < path.length := by
  unfold skipelem at cut
  split at cut
  · cases cut
  have shorter := length_dropWhile_le (fun x => decide (x = slash)) path
  rw [← comps_skip]
  cases start : path.dropWhile (· = slash) with
  | nil => exact absurd start ‹_›
  | cons c tail =>
    rw [start] at cut shorter
    have ne := head_skip start
    cases cut
    rw [comps_first ne, comps_skip]
    refine ⟨rfl, ?_, ?_⟩
    · constructor
      · intro empty
        rw [← comps_skip, empty, comps_nil]
      · intro none_
        rw [← comps_skip] at none_
        cases more : ((c :: tail).dropWhile (· ≠ slash)).dropWhile (· = slash) with
        | nil => rfl
        | cons d tail' =>
          rw [more, comps_first (head_skip more)] at none_
          cases none_
    · have drop := length_dropWhile_le (fun x => decide (x = slash)) ((c :: tail).dropWhile (· ≠ slash))
      have drop' := length_dropWhile_le (fun x => decide (x ≠ slash)) tail
      rw [dropWhile_cons_of_pos (by simpa using ne)] at drop ⊢
      rw [length_cons] at shorter
      omega

variable {T : Tree} {d i : Nat} {c : List UInt8} {cs : List (List UInt8)}

def lookup (T : Tree) (d : Nat) (name : List UInt8) : Option Nat :=
  if T.typ d = .dir then bindings (T.ents d) (cstr name) else none

def resolve (T : Tree) (start : Nat) (cs : List (List UInt8)) : Option Nat := cs.foldlM (lookup T) start

/-- The directory that should have the last component, and that component. -/
def resolveParent (T : Tree) (start : Nat) (cs : List (List UInt8)) : Option (Nat × List UInt8) :=
  match cs.getLast? with
  | none => none
  | some name => (resolve T start cs.dropLast).bind fun d => if T.typ d = .dir then some (d, name) else none

lemma resolve_cons : resolve T d (c :: cs) = (lookup T d c).bind fun i => resolve T i cs := foldlM_cons ..

lemma resolveParent_cons (more : cs ≠ []) :
    resolveParent T d (c :: cs) = (lookup T d c).bind fun i => resolveParent T i cs := by
  unfold resolveParent
  rw [getLast?_cons_of_ne_nil more, dropLast_cons_of_ne_nil more, resolve_cons]
  cases last : cs.getLast? with
  | none => exact absurd (getLast?_eq_none_iff.mp last) more
  | some name => exact Option.bind_assoc ..

def Answers (T : Tree) (parent : Bool) (d : Nat) (cs : List (List UInt8)) (r : Option (Nat × List UInt8)) : Prop :=
  if parent then r = resolveParent T d cs else r.map Prod.fst = resolve T d cs

lemma Answers.next (found : lookup T d c = some i)
    (more : ¬ (parent = true ∧ cs = [])) (h : Answers T parent i cs r) : Answers T parent d (c :: cs) r := by
  cases parent with
  | true =>
    have rest : cs ≠ [] := fun empty => more ⟨rfl, empty⟩
    exact h.trans (by rw [resolveParent_cons rest, found, Option.bind_some])
  | false => exact h.trans (by rw [resolve_cons, found, Option.bind_some])

lemma Answers.absent (none_ : lookup T d c = none)
    (more : ¬ (parent = true ∧ cs = [])) : Answers T parent d (c :: cs) none := by
  cases parent with
  | true =>
    have rest : cs ≠ [] := fun empty => more ⟨rfl, empty⟩
    exact (by rw [resolveParent_cons rest, none_, Option.bind_none] : none = resolveParent T d (c :: cs))
  | false => exact (by rw [resolve_cons, none_, Option.bind_none]; rfl :
      (none : Option (Nat × List UInt8)).map Prod.fst = resolve T d (c :: cs))

lemma Answers.no_dir (isFile : T.typ d ≠ .dir) : Answers T parent d (c :: cs) none := by
  have none_ : lookup T d c = none := if_neg isFile
  by_cases last : parent = true ∧ cs = []
  · obtain ⟨rfl, rfl⟩ := last
    exact (if_neg isFile).symm
  · exact .absent none_ last

lemma bindings_find : ∀ {j : Nat}, find es name = some j → bindings es (cstr name) = es[j]?.map Dirent.inum := by
  induction es with
  | nil =>
    intro j found
    cases found
  | cons e es ih =>
    intro j found
    rw [find_cons] at found
    unfold bindings
    by_cases here : e.inum ≠ 0 ∧ e.name = cstr name
    · rw [if_pos here] at found
      cases found
      rw [find?_cons_of_pos (by simpa using here)]
      rfl
    · rw [if_neg here] at found
      obtain ⟨j', found', rfl⟩ := Option.map_eq_some_iff.mp found
      rw [find?_cons_of_neg (by simpa using here), getElem?_cons_succ]
      exact ih found'

section
variable {E : String → Prop} {sb : Super} {O : Nat → Prop} {s0 s t : Fs} {refs : Slot → Nat}
  {k : Slot}

/-- Somewhere on the way through the tree of `s₀`, with a reference to the inode in slot `k`. The
inode has a link or another user, so that dropping the reference does not free it. -/
structure Walking (sb : Super) (orphan : Nat → Prop) (refs : Slot → Nat) (s₀ : Fs) (k : Slot) (s : Fs) : Prop where
  sound : Sound sb orphan s (bump refs k)
  onTable : OnTable s₀ s
  unlocked : locks s = fun _ => false
  linked : 0 < refs k ∨ (tree s₀).nlink (s.itable k).inum ≠ 0
  alive : (s₀.dinode (s.itable k).inum).type ≠ .free

lemma iput_linked (sound : Sound sb O s (bump refs k)) (linked : 0 < refs k ∨ (tree s).nlink (s.itable k).inum ≠ 0) :
    Safe E (iput sb k) s fun _ t => Sound sb O t refs ∧ Keeps refs s t ∧ OnTable s t ∧ locks t = locks s := by
  have more : ¬ ((s.itable k).ref = 1 ∧ (s.itable k).valid = true ∧ (s.itable k).copy.nlink = 0) := by
    rintro ⟨one, valid, zero⟩
    rw [sound.table.ref, bump_self] at one
    rcases linked with used | has
    · omega
    · rw [sound.nlink bump_gt valid] at has
      exact has zero
  apply (safe_and (iput_kept sound more) (kept_iput sb k s)).mono
  rintro _ t ⟨⟨sound', keeps, on, -⟩, same⟩
  exact ⟨sound', keeps, on, same⟩

lemma iunlockput_linked (sound : Sound sb O s (bump refs k)) (mine : (s.itable k).lock = true)
    (linked : 0 < refs k ∨ (tree s).nlink (s.itable k).inum ≠ 0) :
    Safe E (iunlockput sb k) s fun _ t => Sound sb O t refs ∧ Keeps refs s t ∧ OnTable s t ∧
      locks t = update (locks s) k false := by
  apply Safe.bind (safe_and (iunlock_eq sound bump_gt (.inl mine)) (iunlock_locks k s))
  rintro _ _ ⟨rfl, released⟩
  have sound' : Sound sb O (unlocked s k) (bump refs k) := ⟨sound.disk, sound.table.touch rfl rfl rfl rfl⟩
  have slot : (unlocked s k).itable k = { s.itable k with lock := false } := update_self ..
  have first : Keeps refs s (unlocked s k) := by
    have stored : (unlocked s k).itable = update s.itable k { s.itable k with lock := false } := rfl
    exact .of_update stored fun _ => ⟨rfl, id⟩
  apply (iput_linked sound' (by rw [slot]; exact linked)).mono
  rintro _ t ⟨sound'', keeps, on, same⟩
  exact ⟨sound'', first.trans keeps, on, same.trans released⟩

/-- What a lookup leaves behind: the answer, and one reference to the inode in the slot found. -/
def Ends (sb : Super) (orphan : Nat → Prop) (refs : Slot → Nat) (s₀ : Fs) (parent : Bool) (d : Nat)
    (cs : List (List UInt8)) (r : Option (Slot × List UInt8)) (t : Fs) : Prop :=
  OnTable s₀ t ∧ locks t = (fun _ => false) ∧
    Sound sb orphan t (match r with | none => refs | some (l, _) => bump refs l) ∧
    Answers (tree s₀) parent d cs (r.map fun (l, name) => ((t.itable l).inum, name))

def Crowded (refs : Slot → Nat) : Prop := ∀ a b, refs a = 0 → refs b = 0 → a = b

lemma locked_slot : (locked s k).itable k = { s.itable k with
    lock := true
    valid := true
    copy := s.dinode (s.itable k).inum } :=
  update_self ..

section
variable (walk : Walking sb O refs s0 k s)
include walk

lemma Walking.alive_here : (s.dinode (s.itable k).inum).type ≠ .free := by
  rw [walk.onTable.2.1]
  exact walk.alive

lemma Walking.sound_locked : Sound sb O (locked s k) (bump refs k) := walk.sound.locked walk.alive_here

lemma Walking.unlocks : update (locks (locked s k)) k false = fun _ => false := by
  funext l
  by_cases here : l = k
  · subst here
    exact update_self ..
  · rw [update_of_ne here]
    exact (congrArg Inode.lock (update_of_ne here ..)).trans (congrFun walk.unlocked l)

/-- The lookup ends without a result at the inode that it has locked. -/
lemma Walking.leave (answer : Answers (tree s0) parent (s.itable k).inum cs none) :
    Safe E (do iunlockput sb k; return none : F (Option (Slot × List UInt8))) (locked s k)
      (Ends sb O refs s0 parent (s.itable k).inum cs) := by
  have same : tree (locked s k) = tree s0 := walk.onTable.tree
  apply Safe.bind (iunlockput_linked walk.sound_locked (by rw [locked_slot])
    (by rw [locked_slot, same]; exact walk.linked))
  rintro _ t ⟨sound, -, on, released⟩
  exact safe_pure ⟨walk.onTable.trans on, released.trans walk.unlocks, sound, answer⟩

/-- From a directory to the inode of one of its entries, which `dirlookup` has put into slot `l`. -/
lemma Walking.onward {i j : Nat} {c : List UInt8} (closed : Closed (tree s0))
    (got : Got sb O (bump refs k) i l (locked s k) t)
    (kept : locks t = locks (locked s k))
    (entry : ((tree (locked s k)).ents ((locked s k).itable k).inum)[j]? = some ⟨i, c⟩) (used : i ≠ 0) :
    Safe E (iunlockput sb k) t fun _ u => Walking sb O refs s0 l u ∧ (u.itable l).inum = i := by
  have same : tree (locked s k) = tree s0 := walk.onTable.tree
  have inum : (t.itable k).inum = (s.itable k).inum := by rw [got.keeps.inum k bump_gt, locked_slot]
  have sound : Sound sb O t (bump (bump refs l) k) := by
    rw [bump_comm]
    exact got.sound
  have on := walk.onTable.trans got.onTable
  have mine : (t.itable k).lock = true := by
    refine (congrFun kept k).trans ?_
    rw [locks, locked_slot]
  have linked : 0 < bump refs l k ∨ (tree t).nlink (t.itable k).inum ≠ 0 := by
    rw [inum, on.tree]
    exact walk.linked.imp_left bump_pos
  apply (iunlockput_linked sound mine linked).mono
  rintro _ u ⟨sound', keeps', on', released⟩
  have next := (keeps'.inum l bump_gt).trans got.inum
  rw [kept] at released
  have linked' : (0 < refs l ∨ (tree s0).nlink i ≠ 0) ∧ (s0.dinode i).type ≠ .free := by
    rw [same, locked_slot] at entry
    rcases closed.names _ _ (mem_of_getElem? entry) with zero | self | has
    · exact absurd zero used
    · obtain rfl : l = k := sound.table.uniq l k (bump_pos bump_gt) bump_gt (got.inum.trans (self.trans inum.symm))
      rw [show i = (s.itable l).inum from self]
      exact ⟨walk.linked, walk.alive⟩
    · exact ⟨.inr has, fun gone => has (if_pos gone)⟩
  refine ⟨⟨sound', on.trans on', released.trans walk.unlocks, ?_, ?_⟩, next⟩
  · rw [next]
    exact linked'.1
  · rw [next]
    exact linked'.2

end

lemma Crowded.of_full (all : ∀ l, 0 < bump refs k l) : Crowded refs := by
  have taken : ∀ l, refs l = 0 → l = k := by
    intro l zero
    by_contra ne
    have := all l
    rw [bump_of_ne ne] at this
    omega
  intro a b za zb
  rw [taken a za, taken b zb]

variable (closed : Closed (tree s0))
  (aligned : ∀ i, (s0.dinode i).type = .dir → direntSize ∣ (s0.dinode i).size)
  (full : Crowded refs → E "iget: no inodes")

include closed aligned full in
lemma namexFrom_ends (parent fuel) : ∀ {s : Fs} {k : Slot} (path : Path) (name : List UInt8),
    Walking sb O refs s0 k s → path.length < fuel → Safe E (namexFrom sb parent fuel k path name) s fun r t =>
        Ends sb O refs s0 parent (s.itable k).inum (comps path) r t := by
  induction fuel with
  | zero =>
    intro s k path name walk enough
    omega
  | succ fuel ih =>
    intro s k path name walk enough
    have same := walk.onTable.tree
    unfold namexFrom
    cases cut : skipelem path with
    | none =>
      rw [skipelem_none cut]
      cases parent with
      | true =>
        rw [if_pos rfl]
        apply Safe.bind (iput_linked walk.sound (by rw [same]; exact walk.linked))
        rintro _ t ⟨sound, -, on, kept⟩
        exact safe_pure ⟨walk.onTable.trans on, kept.trans walk.unlocked, sound, rfl⟩
      | false => exact safe_pure ⟨walk.onTable, walk.unlocked, walk.sound, rfl⟩
    | some element =>
      obtain ⟨name, rest⟩ := element
      obtain ⟨first, empty, shorter⟩ := skipelem_some cut
      rw [first]
      dsimp only
      have free := congrFun walk.unlocked k
      apply Safe.bind (ilock_eq walk.sound bump_gt (.inl free) (.inl walk.alive_here))
      rintro _ _ ⟨rfl, -⟩
      have sound1 := walk.sound_locked
      have same1 : tree (locked s k) = tree s0 := same
      have typ : (tree s0).typ (s.itable k).inum = ((locked s k).itable k).copy.type := by
        rw [locked_slot, ← same]
        rfl
      apply safe_get
      by_cases isDir : ((locked s k).itable k).copy.type = .dir
      · rw [if_neg (not_not.mpr isDir)]
        have here : ∀ c, lookup (tree s0) (s.itable k).inum c =
          bindings ((tree (locked s k)).ents ((locked s k).itable k).inum) (cstr c) := by
          intro c
          rw [lookup, if_pos (typ.trans isDir), same1, locked_slot]
        by_cases last : parent = true ∧ rest = []
        · rw [if_pos last]
          obtain ⟨rfl, rfl⟩ := last
          apply Safe.bind (safe_and (iunlock_eq sound1 bump_gt (.inl (by rw [locked_slot]))) (iunlock_locks k _))
          rintro _ _ ⟨rfl, released⟩
          have slot' : (unlocked (locked s k) k).itable k = { (locked s k).itable k with lock := false } :=
            update_self ..
          refine safe_pure ⟨walk.onTable, released.trans walk.unlocks,
            ⟨sound1.disk, sound1.table.touch rfl rfl rfl rfl⟩, ?_⟩
          rw [comps_nil, Option.map_some]
          dsimp only
          rw [slot', locked_slot]
          exact (if_pos (typ.trans isDir)).symm
        · rw [if_neg last]
          have more : ¬ (parent = true ∧ comps rest = []) := fun stop => last ⟨stop.1, empty.mpr stop.2⟩
          have whole : Aligned (locked s k) k := by
            have size := aligned (s.itable k).inum (typ.trans isDir)
            unfold Aligned
            rw [locked_slot]
            rw [← walk.onTable.2.1] at size
            exact size
          apply Safe.bind (safe_and (dirlookup_safe (fun all => full (.of_full all)) (.inl whole) sound1 bump_gt
            (by rw [locked_slot]) isDir name) (kept_dirlookup sb k name _))
          rintro r u ⟨⟨rfl, rfl, absent, -⟩ | ⟨j, i, l, rfl, found, entry, got⟩, kept⟩
          · exact walk.leave (.absent (by rw [here]; exact bindings_of_find_none absent) more)
          · dsimp only
            obtain ⟨i', entry', used⟩ := find_some found
            obtain rfl : i = i' := congrArg Dirent.inum (Option.some.inj (entry.symm.trans entry'))
            have named : lookup (tree s0) (s.itable k).inum name = some i := by
              rw [here, bindings_find found, entry]
              rfl
            apply Safe.bind (walk.onward closed got kept entry used)
            rintro _ v ⟨onward, next⟩
            apply (ih rest name onward (by omega)).mono
            rintro r w ⟨on4, free4, sound4, answers⟩
            rw [next] at answers
            exact ⟨on4, free4, sound4, answers.next named more⟩
      · rw [if_pos isDir]
        exact walk.leave (.no_dir fun dir => isDir (typ.symm.trans dir))

end

variable {E : String → Prop} {sb : Super} {O : Nat → Prop} {s : Fs} {refs : Slot → Nat}
  {cwd : Slot}

/-- A file system between two calls, with a tree of directories that hold whole entries, and entries
that name inodes; the current directory is in slot `cwd`. -/
structure Searchable (sb : Super) (orphan : Nat → Prop) (refs : Slot → Nat) (cwd : Slot) (s : Fs) : Prop where
  sound : Sound sb orphan s refs
  unlocked : locks s = fun _ => false
  closed : Closed (tree s)
  aligned : ∀ i, (s.dinode i).type = .dir → direntSize ∣ (s.dinode i).size
  root : rootIno < sb.ninodes
  used : 0 < refs cwd
  alive : (s.dinode (s.itable cwd).inum).type ≠ .free

def origin (s : Fs) (cwd : Slot) (path : Path) : Nat :=
  if path.head? = some slash then rootIno else (s.itable cwd).inum

section
variable (h : Searchable sb O refs cwd s) (full : Crowded refs → E "iget: no inodes")
include h full

lemma pathStart_walking (path) : Safe E (pathStart cwd path) s fun k t => Walking sb O refs s k t ∧
    (t.itable k).inum = origin s cwd path := by
  unfold pathStart origin
  by_cases absolute : path.head? = some slash
  · rw [if_pos absolute, if_pos absolute]
    have crowded : (∀ l, 0 < refs l) → E "iget: no inodes" := by
      intro all
      exact full fun a _ zero => absurd (all a) (by omega)
    apply (safe_and (iget_safe crowded h.sound h.root) (kept_iget rootIno s)).mono
    rintro k t ⟨got, kept⟩
    refine ⟨⟨got.sound, got.onTable, kept.trans h.unlocked, .inr ?_, ?_⟩, got.inum⟩
    · rw [got.inum]
      exact h.closed.root.2
    · rw [got.inum]
      exact h.closed.root.1
  · rw [if_neg absolute, if_neg absolute]
    apply Safe.bind (safe_and (idup_safe h.sound h.used) (kept_idup cwd s))
    rintro _ t ⟨⟨sound, keeps, on⟩, kept⟩
    have inum := keeps.inum cwd h.used
    refine safe_pure ⟨⟨sound, on, kept.trans h.unlocked, .inl h.used, ?_⟩, inum⟩
    rw [inum]
    exact h.alive

lemma namex_ends (path parent) : Safe E (namex sb cwd path parent) s fun r t =>
    Ends sb O refs s parent (origin s cwd path) (comps path) r t := by
  apply Safe.bind (pathStart_walking h full path)
  rintro k t ⟨walk, start⟩
  rw [← start]
  exact namexFrom_ends h.closed h.aligned full parent _ path [] walk (Nat.lt_succ_self _)

end

/-- Both lookups follow the components of the path, whatever slashes separate them, and leave the tree
alone. They can fail only when all slots of the table but one are taken. -/
theorem lookup_is_fold (sb : Super) (orphan : Nat → Prop) (refs : Slot → Nat) (cwd : Slot) (s : Fs)
    (h : Searchable sb orphan refs cwd s) (path : Path) :
    Safe (fun e => e = "iget: no inodes" ∧ Crowded refs) (namei sb cwd path) s (fun r t =>
      tree t = tree s ∧ r.map (fun l => (t.itable l).inum) = resolve (tree s) (origin s cwd path) (comps path)) ∧
    Safe (fun e => e = "iget: no inodes" ∧ Crowded refs) (nameiparent sb cwd path) s (fun r t =>
      tree t = tree s ∧ r.map (fun (l, name) => ((t.itable l).inum, name)) =
        resolveParent (tree s) (origin s cwd path) (comps path)) := by
  constructor
  · apply Safe.bind (namex_ends h (fun crowded => ⟨rfl, crowded⟩) path false)
    rintro r t ⟨on, -, -, answers⟩
    refine safe_pure ⟨on.tree, ?_⟩
    rw [← show _ = resolve (tree s) (origin s cwd path) (comps path) from answers, Option.map_map, Option.map_map]
    rfl
  · apply (namex_ends h (fun crowded => ⟨rfl, crowded⟩) path true).mono
    rintro r t ⟨on, -, -, answers⟩
    exact ⟨on.tree, answers⟩

lemma closed_image : Closed (tree image) := by
  refine ⟨by decide, fun d e mem => ?_⟩
  by_cases isRoot : d = rootIno
  · subst isRoot
    revert e
    decide +kernel
  · have empty : (tree image).ents d = [] := by simp [tree, treeOf, entsOf, dinode_other isRoot]
    rw [empty] at mem
    exact absurd mem not_mem_nil

lemma searchable_image : Searchable super (fun _ => False) cwdRefs 0 image where
  sound := FsImage.sound_image _
  unlocked := by
    funext k
    by_cases first : k = 0 <;> simp [locks, image, first]
  closed := closed_image
  aligned i isDir := by
    by_cases isRoot : i = rootIno
    · subst isRoot
      decide
    · rw [dinode_other isRoot] at isDir
      cases isDir
  root := by decide
  used := by decide
  alive := by decide

/-- The path `//..//a` on the first disk: its parent is the root, and there is no such file. -/
theorem lookup_is_fold_missing : comps [slash, slash, 46, 46, slash, slash, 97] = [dotdot, [97]] ∧
    ∃ (sb : Super) (s : Fs), Searchable sb (fun _ => False) cwdRefs 0 s ∧
      (∃ t, namei sb 0 [slash, slash, 46, 46, slash, slash, 97] s = .ok (none, t)) ∧
      ∃ l t, nameiparent sb 0 [slash, slash, 46, 46, slash, slash, 97] s = .ok (some (l, [97]), t) ∧
        (t.itable l).inum = rootIno := by
  have parts : comps [slash, slash, 46, 46, slash, slash, 97] = [dotdot, [97]] := by decide
  have roomy : ∀ e : String, e = "iget: no inodes" ∧ Crowded cwdRefs → False := by
    rintro e ⟨-, crowded⟩
    exact absurd (crowded 1 2 (by decide) (by decide)) (by decide)
  have missing : resolve (tree image) rootIno [dotdot, [97]] = none := by decide +kernel
  have up : resolveParent (tree image) rootIno [dotdot, [97]] = some (rootIno, [97]) := by decide +kernel
  have searchable := searchable_image
  refine ⟨parts, super, image, searchable, ?_⟩
  generalize super = sb at *
  generalize image = s at *
  obtain ⟨whole, upper⟩ := lookup_is_fold sb _ _ 0 s searchable [slash, slash, 46, 46, slash, slash, 97]
  obtain ⟨r, t, ran, -, answer⟩ := (whole.allow roomy).returns
  obtain ⟨r', t', ran', -, answer'⟩ := (upper.allow roomy).returns
  refine ⟨⟨t, ?_⟩, ?_⟩
  · rw [ran, Option.map_eq_none_iff.mp (answer.trans missing)]
  · obtain ⟨⟨l, name⟩, rfl, eq⟩ := Option.map_eq_some_iff.mp (answer'.trans up)
    obtain ⟨inum, rfl⟩ := Prod.mk.inj eq
    exact ⟨l, t', ran', inum⟩

end Xv6.PathFold
