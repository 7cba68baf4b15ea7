import Xv6.PageRoles
import Xv6.UserCopy

/-! What a call on one page table leaves alone. Every page that is neither free nor part of
the table can be frozen in the ghost state: the call goes through as before, and its frozen
pages still have their contents. -/

namespace Xv6.PageFrame

open ByteFields VmMachine VmProc PageTable PageOwner PageWalk PageFree PageUvm PageMap PageRoles
  UserCopy Total

variable {n : Nat} {g g' : Ghost n} {s t u : Kernel n} {x : Nat} {id : TableId n}

section

open Classical in
/-- The pages of the owners outside `keep` are frozen, and only the page table `id` is known. -/
noncomputable def freeze (keep : Owner n → Prop) (id : TableId n) (mem : Nat → Bytes pgsize) (g : Ghost n) :
    Ghost n where
  owner x := if keep (g.owner x) then g.owner x else .frozen (mem x)
  space id' := if id' = id then g.space id' else none
  rest := g.rest

structure Keepable (keep : Owner n → Prop) (id : TableId n) : Prop where
  outside : keep .outside
  free : keep .free
  table : ∀ l v, keep (.table id l v)
  other : ∀ id' l v, keep (.table id' l v) → id' = id

lemma freeze_iff (thawed : ∀ page, o ≠ .frozen page) :
    (freeze keep id mem g).owner x = o ↔ keep o ∧ g.owner x = o := by
  dsimp only [freeze]
  split_ifs with kept
  · constructor
    · intro eq
      exact ⟨eq ▸ kept, eq⟩
    · exact And.right
  · constructor
    · intro eq
      exact absurd eq.symm (thawed _)
    · rintro ⟨ok, eq⟩
      exact absurd (eq ▸ ok) kept

lemma freeze_space : (freeze keep id s.mem g).space id = g.space id := if_pos rfl

lemma freeze_sound (h : Sound B g s) (able : Keepable keep id) : Sound B (freeze keep id s.mem g) s where
  managed y := by
    rw [← h.managed, ne_eq, freeze_iff (by simp)]
    simp [able.outside]
  free := by
    obtain ⟨l, chain, nodup, mem⟩ := h.free
    refine ⟨l, chain, nodup, fun y => ?_⟩
    rw [mem, freeze_iff (by simp)]
    simp [able.free]
  laid id' sp' hsp := by
    dsimp only [freeze] at hsp
    split_ifs at hsp
    exact h.laid id' sp' hsp
  tables id' l v y := by
    rw [freeze_iff (by simp), h.tables]
    by_cases same : id' = id
    · subst same
      simp [Ghost.table, freeze, able.table]
    · have none : ¬ keep (.table id' l v) := fun kept => same (able.other id' l v kept)
      simp [Ghost.table, freeze, same, none]
  rest := h.rest
  frozen y page hy := by
    dsimp only [freeze] at hy
    split_ifs at hy
    · exact h.frozen y page hy
    · exact Owner.frozen.inj hy

lemma untouched_of_frozen (frozen : Sound B g' t)
    (kept : ∀ page, (freeze keep id mem g).owner x = .frozen page → g'.owner x = .frozen page)
    (out : ¬ keep (g.owner x)) : t.mem x = mem x := by
  refine frozen.frozen x _ (kept _ ?_)
  dsimp only [freeze]
  rw [if_neg out]

def Within (id : TableId n) (o : Owner n) : Prop := Family id o ∨ o = .outside

lemma within_keepable (id : TableId n) : Keepable (Within id) id where
  outside := .inr rfl
  free := .inl trivial
  table _ _ := .inl rfl
  other id' l v kept := by
    rcases kept with family | out
    · exact family
    · cases out

def Untouched (id : TableId n) (g : Ghost n) (s t : Kernel n) : Prop :=
  ∀ x, ¬ Within id (g.owner x) → t.mem x = s.mem x

lemma freeze_table (table : Table g id root P S F) : Table (freeze (Within id) id s.mem g) id root P S F := by
  obtain ⟨sp, hsp, whole, hroot, cov⟩ := table
  refine ⟨sp, freeze_space.trans hsp, whole, hroot, cov.congr_owner fun y v => ?_⟩
  rw [freeze_iff (by simp)]
  exact and_iff_right (.inl rfl)

lemma freeze_noTable (absent : NoTable g id) : NoTable (freeze (Within id) id s.mem g) id := by
  refine ⟨freeze_space.trans absent.1, fun y v hy => absent.2 y v ?_⟩
  exact ((freeze_iff (by simp)).mp hy).2

lemma framed (id : TableId n) {Q : Ghost n → Ghost n → α → Kernel n → Prop} (h : Sound B g s)
    (spec : ∀ g0, Sound B g0 s → (g0 = g ∨ g0 = freeze (Within id) id s.mem g) →
      Returns f s fun r t => ∃ g', Sound B g' t ∧ Keeps id g0 g' ∧ Q g0 g' r t) :
    Returns f s fun r t => ∃ g', Sound B g' t ∧ Keeps id g g' ∧ Untouched id g s t ∧ Q g g' r t := by
  obtain ⟨r, t, ran, g1, sound, keeps, post⟩ := spec g h (.inl rfl)
  obtain ⟨r', t', ran', g2, sound', keeps', -⟩ := spec _ (freeze_sound h (within_keepable id)) (.inr rfl)
  rw [ran] at ran'
  cases ran'
  refine ⟨r, t, ran, g1, sound, keeps, fun x out => ?_, post⟩
  exact untouched_of_frozen sound' (fun page eq => (keeps'.owner x _ (by simp [Family])).mpr eq) out

end

section
variable (laid : Laid mem sp) (whole : sp.hole = none) (hroot : sp.table 2 0 = some root)
include laid whole hroot

lemma tableAt_space (d v) (hd : d ≤ 2) : tableAt mem root d v = sp.table (2 - d) v := by
  induction d generalizing v with
  | zero => exact rootAt_eq laid hroot v
  | succ d ih =>
    have step : tableAt mem root (d + 1) v =
      (tableAt mem root d (v / 512)).bind fun x => entryPage mem x (v % 512) := by
      refine congrArg (Option.bind _) (funext fun y => ?_)
      unfold valid entryPage
      split_ifs <;> rfl
    rw [step, ih _ (by omega)]
    have level : 2 - d = 2 - (d + 1) + 1 := by omega
    rw [level]
    exact parent_bind laid whole (by omega) v

lemma leafAt_space (v) : leafAt mem root v = (sp.leaf v).map leafPte := by
  unfold leafAt
  rw [tableAt_space laid whole hroot 2 _ le_rfl]
  cases below : sp.table (2 - 2) (v / 512) with
  | none =>
    cases here : sp.leaf v with
    | none => rfl
    | some leaf =>
      have up := laid.leafUp v (by simp [here])
      rw [show sp.table 0 (v / 512) = none from below] at up
      cases up
  | some y =>
    rw [Option.bind_some, valid, laid.leaves (v / 512) y (v % 512) below (Nat.mod_lt _ (by decide)), Nat.div_add_mod']
    cases here : sp.leaf v with
    | none => simp
    | some leaf => simp [leafPte_valid (laid.leafOk v leaf here).2]

end

section
variable (h : Sound B g s) (hsp : g.space id = some sp) (whole : sp.hole = none)
  (hroot : sp.table 2 0 = some root)
include h hsp whole hroot

lemma lookup_space (low : va < maxVa) : lookup B s root va = (sp.leaf (va / pgsize)).map leafPte := by
  rw [PageMap.lookup_eq low, leafAt_space (h.laid id sp hsp) whole hroot]

lemma inTree_space : InTree s.mem root x ↔ ∃ l v, g.owner x = .table id l v := by
  have laid := h.laid id sp hsp
  constructor
  · rintro ⟨d, v, hd, hx⟩
    rw [tableAt_space laid whole hroot d v hd] at hx
    exact ⟨_, v, h.owner_table hsp hx⟩
  · rintro ⟨l, v, own⟩
    obtain ⟨sp', hsp', hx⟩ := h.space_eq own
    rw [hsp] at hsp'
    cases hsp'
    have top := (laid.top l v x hx).1
    refine ⟨2 - l, v, by omega, ?_⟩
    rw [tableAt_space laid whole hroot _ v (by omega), show 2 - (2 - l) = l by omega, hx]

end

section
variable (h : HasTable B g s id root P S F) (res : Reserved F)
include h res

lemma user_owner (eq : userPte B s root va = some pte) : g.owner (pte2pa pte) = .user id (va / pgsize) := by
  obtain ⟨sound, sp, hsp, whole, hroot, cov⟩ := h
  have laid := sound.laid id sp hsp
  obtain ⟨here, user⟩ := userPte_eq_some.mp eq
  rw [lookup_space sound hsp whole hroot (lookup_lt here)] at here
  obtain ⟨leaf, hl, rfl⟩ := Option.map_eq_some_iff.mp here
  obtain ⟨addr, flags⟩ := laid.leafOk _ leaf hl
  rw [pte2pa_leafPte addr flags]
  by_cases own : S (va / pgsize)
  · obtain ⟨leaf', hl', owner, -⟩ := cov.own _ own
    rw [hl] at hl'
    cases hl'
    exact owner
  · have fixed := cov.fixed _ own
    rw [hl] at fixed
    have none := (res _ leaf fixed.symm).2
    rw [leafPte_eq flags.1, and_flags (or_pteV_lt flags.1) (by decide), Nat.and_or_distrib_right, none] at user
    exact absurd rfl user

lemma separate_table : Separate B s root := by
  refine ⟨fun va pte eq => ?_, fun va va' pte pte' eq eq' same => ?_, fun va pte eq => ?_⟩
  · have own := user_owner h res eq
    exact managed_pos (h.sound.managed_of (by simp [own]))
  · have own := user_owner h res eq
    have own' := user_owner h res eq'
    rw [same, own'] at own
    exact (Owner.user.inj own).2.symm
  · have own := user_owner h res eq
    obtain ⟨sp, hsp, whole, hroot, -⟩ := h.space
    rw [inTree_space h.sound hsp whole hroot]
    rintro ⟨l, v, table⟩
    rw [own] at table
    cases table

lemma view_congr (same : ∀ y, (∃ l v, g.owner y = .table id l v) ∨ (∃ v, g.owner y = .user id v) → t.mem y = s.mem y)
    (va) : lookup B t root va = lookup B s root va ∧ userByte B t root va = userByte B s root va := by
  obtain ⟨sp, hsp, whole, hroot, -⟩ := h.space
  have tables : ∀ y, InTree s.mem root y → t.mem y = s.mem y := fun y inside =>
    same y (.inl ((inTree_space h.sound hsp whole hroot).mp inside))
  have entry : lookup B t root va = lookup B s root va := by
    by_cases low : va < maxVa
    · rw [PageMap.lookup_eq low, PageMap.lookup_eq low, leafAt_congr tables]
    · rw [lookup_high (by omega), lookup_high (by omega)]
  refine ⟨entry, ?_⟩
  unfold userByte
  rw [show userPte B t root va = userPte B s root va by rw [userPte, userPte, entry]]
  cases here : userPte B s root va with
  | none => rfl
  | some pte =>
    dsimp only
    rw [same _ (.inr ⟨_, user_owner h res here⟩)]

end

end Xv6.PageFrame
