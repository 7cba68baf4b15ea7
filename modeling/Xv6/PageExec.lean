import Xv6.PageProc

/-! `exec` builds a second page table beside that of the process, and then the
two change places. -/

namespace Xv6.PageExec

open VmMachine VmProc PageTable PageOwner PageWalk PageFree PageUvm PageCopy PageProc Total

variable {n : Nat} {g g' : Ghost n} {x : Nat} {id : TableId n}
  {p q : Fin n}

def rename (σ : TableId n → TableId n) : Owner n → Owner n
  | .table id l v => .table (σ id) l v
  | .user id u => .user (σ id) u
  | o => o

def exchange (p : Fin n) : TableId n → TableId n
  | none => some p
  | some q => if q = p then none else some q

def swap (g : Ghost n) (p : Fin n) : Ghost n where
  owner x := rename (exchange p) (g.owner x)
  space id := g.space (exchange p id)
  rest := g.rest

@[simp] lemma exchange_none : exchange p none = some p := rfl

@[simp] lemma exchange_self : exchange p (some p) = none := if_pos rfl

lemma exchange_other (ne : q ≠ p) : exchange p (some q) = some q := if_neg ne

@[simp] lemma exchange_exchange (id : TableId n) : exchange p (exchange p id) = id := by
  cases id with
  | none => simp
  | some q =>
    by_cases same : q = p
    · simp [same]
    · rw [exchange_other same, exchange_other same]

lemma rename_rename (o : Owner n) : rename (exchange p) (rename (exchange p) o) = o := by
  cases o <;> simp [rename]

lemma swap_iff : (swap g p).owner x = o ↔ g.owner x = rename (exchange p) o := by
  refine ⟨fun e => ?_, fun e => ?_⟩
  · rw [← e]
    exact (rename_rename _).symm
  · change rename (exchange p) (g.owner x) = o
    rw [e, rename_rename]

lemma Sound.swap (h : Sound B g s) (p) : Sound B (swap g p) s where
  managed x := by
    rw [← h.managed, Ne, swap_iff]
    rfl
  free := by
    obtain ⟨l, chain, nodup, mem⟩ := h.free
    refine ⟨l, chain, nodup, fun x => ?_⟩
    rw [mem, swap_iff]
    rfl
  laid id sp hsp := h.laid (exchange p id) sp hsp
  tables id l v x := swap_iff.trans (h.tables (exchange p id) l v x)
  rest := h.rest
  frozen x page hx := h.frozen x page (swap_iff.mp hx)

lemma Table.swap (h : Table g id root P S F) (p) : Table (swap g p) (exchange p id) root P S F := by
  obtain ⟨sp, hsp, whole, hroot, cov⟩ := h
  have user : ∀ x u, (PageExec.swap g p).owner x = .user (exchange p id) u ↔ g.owner x = .user id u := by
    intro x u
    rw [swap_iff]
    simp [rename]
  refine ⟨sp, ?_, whole, hroot, fun u hu => ?_, fun x u hx => ?_, cov.fixed, cov.apart⟩
  · change g.space (exchange p (exchange p id)) = some sp
    rw [exchange_exchange, hsp]
  · obtain ⟨leaf, hl, own, ok⟩ := cov.own u hu
    exact ⟨leaf, hl, (user _ _).mpr own, ok⟩
  · exact cov.only x u ((user x u).mp hx)

lemma frame_swap (g : Ghost n) (p) : Frame p g (swap g p) where
  proc _ _ := rfl
  held := rfl
  pipes := rfl
  space q ne := congrArg g.space (exchange_other ne)
  owner x o other := by
    rw [swap_iff]
    have same : rename (exchange p) o = o := by
      cases o with
      | table id l v | user id u =>
        cases id with
        | none => simp [Aside] at other
        | some q =>
          have ne : q ≠ p := by
            rintro rfl
            simp [Aside] at other
          simp [rename, exchange_other ne]
      | _ => rfl
    rw [same]

def UserFlags (flags : Nat) : Prop := flags &&& pteU ≠ 0

lemma flags2perm_ok (flags) : LeafFlags (pteR ||| pteU ||| flags2perm flags) ∧
    UserFlags (pteR ||| pteU ||| flags2perm flags) := by
  unfold flags2perm LeafFlags UserFlags
  split_ifs <;> decide

lemma leNum_lt (bytes) : leNum bytes < 256 ^ bytes.length := by
  induction bytes with
  | nil => decide
  | cons c bytes ih =>
    have digit := c.toNat_lt
    simp only [leNum, List.length_cons, pow_succ]
    omega

lemma leAt_lt (bytes off w) : leAt bytes off w < 256 ^ w := by
  refine lt_of_lt_of_le (leNum_lt _) (Nat.pow_le_pow_right (by decide) ?_)
  simp

lemma loadSegments_returns (res : Reserved F) :
    ∀ {off sz : Nat} {g : Ghost n} {s : Kernel n}, HasTable B g s id root UserFlags (Below sz) F →
      Returns (loadSegments B file root m off sz) s fun r t => ∃ g',
        HasTable B g' t id root UserFlags (Below r.2) F ∧ Keeps id g g' := by
  induction m with
  | zero => exact fun h => returns_pure ⟨_, h, .refl _ _⟩
  | succ m ih =>
    intro off sz g s h
    unfold loadSegments
    dsimp only
    have stay : ∃ g', HasTable B g' s id root UserFlags (Below sz) F ∧ Keeps id g g' := ⟨g, h, .refl _ _⟩
    split_ifs with short skip size wrap align
    · exact returns_pure stay
    · exact ih h
    · exact returns_pure stay
    · exact returns_pure stay
    · exact returns_pure stay
    · obtain ⟨leaf, user⟩ := flags2perm_ok (leAt (readi file off progHeaderSize) 4 4)
      refine (uvmalloc_returns h res leaf user).bind ?_
      rintro r t ⟨got, g1, table, keeps⟩
      split_ifs at table ⊢ with failed
      · exact returns_pure ⟨g1, table, keeps⟩
      · have top := got.resolve_left failed
        have memsz := leAt_lt (readi file off progHeaderSize) 40 8
        have inside : leAt (readi file off progHeaderSize) 16 8 +
          leAt (readi file off progHeaderSize) 32 8 % 2 ^ 32 ≤ r := by
          omega
        refine (loadseg_returns table res (fun _ ok => ok) inside).bind fun loaded t' sound => ?_
        split_ifs
        · refine (ih ⟨sound, table.space⟩).mono ?_
          rintro r' t'' ⟨g', table', keeps'⟩
          exact ⟨g', table', keeps.trans keeps'⟩
        · exact returns_pure ⟨g1, ⟨sound, table.space⟩, keeps⟩

lemma Inv.discard (inv : Inv B g args) (keeps : Keeps none g g') (gone : NoTable g' none) : Inv B g' args := by
  refine ⟨inv.books.congr (by rw [keeps.rest]) (by rw [keeps.rest]) fun x o common =>
    keeps.owner x o fun family => ?_, fun q => (inv.settled q).congr (by rw [keeps.rest]) fun slot =>
      slot.congr (fun x => keeps.owner x _ (by simp [Family])) (keeps.space _ (by simp))
        (fun x u => keeps.owner x _ (by simp [Family])), gone⟩
  cases o <;> simp [Family, Common] at family common

lemma execBad_returns (inv : Inv B g args) (keeps : Keeps none g g')
    (h : HasTable B g' s none root P (Below sz) (frames B tf)) :
    Returns (execBad B root sz) s fun _ t => ∃ g'', Sound B g'' t ∧ Inv B g'' args := by
  refine (procFree_returns h).bind ?_
  rintro - t ⟨g'', sound, gone, keeps'⟩
  exact returns_pure ⟨g'', sound, Inv.discard inv (keeps.trans keeps') gone⟩

lemma sub64_eq (le : b ≤ a) (lt : a < 2 ^ 64) : sub64 a b = a - b := by
  unfold sub64
  omega

/-- The page below the stack is the first of the pages that `exec` adds. -/
lemma stack_guard (count : m ≤ maxPages) :
    sub64 (m * pgsize + (userStack + 1) * pgsize) ((userStack + 1) * pgsize) = m * pgsize ∧
      Below (m * pgsize + (userStack + 1) * pgsize) m := by
  refine ⟨?_, Nat.lt_add_of_pos_right (by decide)⟩
  rw [sub64_eq (Nat.le_add_left _ _), Nat.add_sub_cancel]
  unfold maxPages physTop kernBase pgsize at count
  unfold userStack pgsize
  omega

lemma execCommit_returns (inv : Inv B g args) (live : (g.rest.proc p).state ≠ .unused)
    (keeps : Keeps none g g') (pos : root ≠ 0)
    (h : HasTable B g' s none root UserFlags (Below sz) (frames B (g.rest.proc p).trapframe))
    (path argv entry) :
    Returns (execCommit B p path argv entry root sz) s fun _ t => ∃ g'', Sound B g'' t ∧ Inv B g'' args := by
  have res := frames_res B (g.rest.proc p).trapframe
  obtain ⟨tf, own, old⟩ := (inv.settled p).live live
  have size := HasTable.size_le h
  unfold execCommit
  refine returns_get_bind ?_
  rw [sound_proc h.sound, keeps.rest]
  dsimp only
  rw [pgRoundUp_eq size]
  rw [← below_pages] at h
  have count := HasTable.count_le h
  refine (uvmalloc_returns h res ⟨by decide, by decide⟩
    (show UserFlags (pteR ||| pteU ||| pteW) by unfold UserFlags; decide)).bind ?_
  rintro r t1 ⟨got, g1, table1, keeps1⟩
  have upTo := keeps.trans keeps1
  split_ifs at table1 ⊢ with failed
  · exact execBad_returns inv upTo table1
  · have top := got.resolve_left failed
    rw [Nat.max_eq_right (Nat.le_add_right _ _)] at top
    have small : maxPages < maxVa / pgsize := by decide
    obtain ⟨guard, inside⟩ := stack_guard count
    rw [← top] at guard inside
    rw [guard]
    refine (uvmclear_returns table1 inside (by omega)).bind ?_
    rintro - t2 ⟨g2, table2, keeps2⟩
    have upTo2 := upTo.trans keeps2
    refine (pushStack_returns table2 res _ argv).bind fun pushed t3 sound3 => ?_
    cases pushed with
    | none => exact execBad_returns inv upTo2 ⟨sound3, table2.space⟩
    | some sp =>
      have frame2 : ∀ x, g2.owner x = .trapframe p ↔ g.owner x = .trapframe p :=
        fun x => upTo2.owner x _ (by simp [Family])
      have data2 : (g2.owner (g.rest.proc p).trapframe).Data := by
        rw [(frame2 _).mpr own]
        trivial
      dsimp only
      refine returns_modify_bind ?_
      refine (assign_returns (sound3.store _ data2) _).bind ?_
      rintro - t4 ⟨g4, sound4, set4⟩
      refine returns_get_bind ?_
      have proc4 := set4.proc
      rw [upTo2.rest] at proc4
      rw [sound_proc sound4, proc4]
      refine (assign_returns sound4 _).bind ?_
      rintro - t5 ⟨g5, sound5, set5⟩
      have proc5 := set5.proc
      rw [proc4] at proc5
      have data5 : (g5.owner (g.rest.proc p).trapframe).Data := by
        rw [set5.owner, set4.owner]
        exact data2
      refine returns_modify_bind (returns_modify_bind ?_)
      have new := Table.swap (set5.table (set4.table table2.space)) p
      have spent := Table.swap (set5.table (set4.table (Table.keeps old upTo2 (by simp)))) p
      rw [exchange_self] at spent
      refine (procFree_returns ⟨Sound.swap ((sound5.store _ data5).store _ data5) p, spent⟩).bind ?_
      rintro - t7 ⟨g7, sound7, gone, keeps7⟩
      have frame5 := ((frame_of_keeps upTo2 (.inl rfl)).trans set4.frame).trans set5.frame
      have frame := (frame5.trans (frame_swap g5 p)).trans (frame_of_keeps keeps7 (.inl rfl))
      have rest7 : g7.rest = g5.rest := keeps7.rest
      refine returns_pure ⟨g7, sound7, ((inv.others p).frame frame).inv ⟨?_, fun idle => ?_, fun _ => ?_⟩ gone⟩
      · rw [rest7, proc5]
        refine ⟨fun x => ?_, .inr ⟨pos, tf, Table.keeps new keeps7 (by simp)⟩⟩
        rw [keeps7.owner x _ (by simp [Family]), swap_iff, set5.owner, set4.owner]
        exact (frame2 x).trans ((inv.settled p).slot.frame x)
      · rw [rest7, proc5] at idle
        exact absurd idle live
      · rw [rest7, proc5]
        exact pos

lemma exec_returns (h : Sound B g s) (inv : Inv B g args) (live : (g.rest.proc p).state ≠ .unused) (fs path argv) :
    Returns (exec B fs p path argv) s fun _ t => ∃ g', Sound B g' t ∧ Inv B g' args := by
  obtain ⟨tf, own, -⟩ := (inv.settled p).live live
  have addr : PageAddr (s.proc p).trapframe := by
    rw [sound_proc h]
    exact (h.managed_of (by simp [own])).pageAddr
  unfold exec
  cases fs path with
  | none => exact returns_pure ⟨g, h, inv⟩
  | some file =>
    dsimp only
    split_ifs with short magic
    · exact returns_pure ⟨g, h, inv⟩
    · exact returns_pure ⟨g, h, inv⟩
    · refine (procPagetable_returns (P := UserFlags) h inv.spare addr).bind ?_
      rintro r t1 ⟨g1, keeps1, ⟨rfl, sound1, gone⟩ | ⟨pos, table⟩⟩
      · rw [if_pos rfl]
        exact returns_pure ⟨g1, sound1, Inv.discard inv keeps1 gone⟩
      · rw [if_neg pos]
        rw [sound_proc h] at table
        refine (loadSegments_returns (frames_res _ _) table).bind ?_
        rintro ⟨loaded, sz⟩ t2 ⟨g2, table2, keeps2⟩
        split_ifs
        · exact execCommit_returns inv live (keeps1.trans keeps2) pos table2 path argv _
        · exact execBad_returns inv (keeps1.trans keeps2) table2

def Loose : Owner n → Prop
  | .trapframe _ | .table _ _ _ | .user _ _ | .frozen _ => False
  | _ => True

lemma Settled.give (h : Settled B g q) (before : Loose (g.owner x)) (after : Loose o) : Settled B (g.give x o) q := by
  have same : ∀ o', ¬ Loose o' → ∀ y, (g.give x o).owner y = o' ↔ g.owner y = o' := by
    intro o' tight y
    rcases eq_or_ne y x with rfl | ne
    · rw [give_same]
      refine ⟨fun e => ?_, fun e => ?_⟩
      · exact absurd (e ▸ after) tight
      · exact absurd (e ▸ before) tight
    · rw [give_other ne]
  exact h.congr rfl fun slot => slot.congr (same _ (by simp [Loose])) rfl fun y u => same _ (by simp [Loose]) y

lemma Inv.fetch (inv : Inv B g args) (own : g.owner x = .free) : Inv B (g.give x .arg) (args ++ [x]) := by
  refine ⟨⟨inv.books.held.other (by simp [own]) (by simp), inv.books.pipes.other (by simp [own])
    (by simp), (inv.books.fetched.push (by simp [own])).perm (List.perm_append_singleton x args).symm,
    inv.books.temp.other (by simp [own]) (by simp),
    fun page => (inv.books.thawed page).other (by simp [own]) (by simp)⟩, fun q => ?_,
    NoTable.give inv.spare (by simp)⟩
  exact Settled.give (inv.settled q) (by simp [own, Loose]) trivial

lemma Inv.drop (inv : Inv B g (x :: args)) : Inv B (g.give x .free) args := by
  have own : g.owner x = .arg := (inv.books.fetched.mem x).mpr List.mem_cons_self
  have rest : Counts (g.give x .free) .arg ((x :: args).erase x) := inv.books.fetched.pop (by simp)
  rw [List.erase_cons_head] at rest
  refine ⟨⟨inv.books.held.other (by simp [own]) (by simp), inv.books.pipes.other (by simp [own])
    (by simp), rest, inv.books.temp.other (by simp [own]) (by simp),
    fun page => (inv.books.thawed page).other (by simp [own]) (by simp)⟩, fun q => ?_,
    NoTable.give inv.spare (by simp)⟩
  exact Settled.give (inv.settled q) (by simp [own, Loose]) trivial

lemma fetchArgs_returns : ∀ {args : List Nat} {argv : List (List UInt8)} {g : Ghost n} {s : Kernel n}, Sound B g s →
    Inv B g args → (g.rest.proc p).state ≠ .unused →
    Returns (fetchArgs B p uargv m args argv) s fun r t => ∃ g', Sound B g' t ∧
      Inv B g' r.2.1 ∧ (g'.rest.proc p).state ≠ .unused := by
  induction m with
  | zero => exact fun h inv live => returns_pure ⟨_, h, inv, live⟩
  | succ m ih =>
    intro args argv g s h inv live
    obtain ⟨-, -, table⟩ := (inv.settled p).live live
    have mine : ∀ {t}, Sound B g t → HasTable B g t (some p) (t.proc p).pagetable
      (fun _ => True) (Below (g.rest.proc p).sz) (frames B (g.rest.proc p).trapframe) := by
      intro t sound
      rw [sound_proc sound]
      exact ⟨sound, table⟩
    refine (fetchaddr_returns (frames_res _ _) _ (mine h)).bind fun r t same => ?_
    rw [same]
    cases r with
    | none => exact returns_pure ⟨g, h, inv, live⟩
    | some uarg =>
      dsimp only
      split_ifs with last
      · exact returns_pure ⟨g, h, inv, live⟩
      · refine (kalloc_returns h).bind fun page t1 got => ?_
        rcases got with ⟨rfl, sound1⟩ | ⟨own, taken⟩
        · exact returns_pure ⟨g, sound1, inv, live⟩
        · rw [if_neg (managed_pos (h.managed_of (by simp [own])))]
          have sound1 := taken.reassign (x := page) (o := .arg) (by simp) (by simp)
          rw [give_give] at sound1
          have inv1 := Inv.fetch inv own
          have table1 : HasTable B (g.give page .arg) t1 (some p) (t1.proc p).pagetable
            (fun _ => True) (Below (g.rest.proc p).sz)
            (frames B (g.rest.proc p).trapframe) := by
            rw [sound_proc sound1]
            exact ⟨sound1, Table.give table (by simp [own]) (by simp)⟩
          refine (fetchstr_returns (frames_res _ _) _ _ table1).bind fun arg t2 same => ?_
          rw [same]
          cases arg with
          | none => exact returns_pure ⟨_, sound1, inv1, live⟩
          | some arg =>
            refine returns_modify_bind (ih (sound1.store _ (by simp)) inv1 live)

lemma freeArgs_returns : ∀ {g : Ghost n} {s : Kernel n}, Sound B g s → Inv B g args →
    Returns (freeArgs B args) s fun _ t => ∃ g', Sound B g' t ∧ Inv B g' [] := by
  induction args with
  | nil => exact fun h inv => returns_pure ⟨_, h, inv⟩
  | cons x args ih =>
    intro g s h inv
    have own : g.owner x = .arg := (inv.books.fetched.mem x).mpr List.mem_cons_self
    exact (kfree_returns h (by simp [own])).bind fun _ _ sound => ih sound (Inv.drop inv)

lemma sysExec_returns (h : Sound B g s) (inv : Inv B g []) (live : (g.rest.proc p).state ≠ .unused) (fs upath uargv) :
    Returns (sysExec B fs p upath uargv) s fun _ t => ∃ g', Sound B g' t ∧ Inv B g' [] := by
  obtain ⟨-, -, table⟩ := (inv.settled p).live live
  rw [← sound_proc h] at table
  refine (fetchstr_returns (frames_res _ _) _ _ ⟨h, table⟩).bind fun path t same => ?_
  rw [same]
  cases path with
  | none => exact returns_pure ⟨g, h, inv⟩
  | some path =>
    refine (fetchArgs_returns h inv live).bind ?_
    rintro ⟨fetched, pages, argv⟩ t1 ⟨g1, sound1, inv1, live1⟩
    dsimp only at inv1 ⊢
    split_ifs
    · refine (exec_returns sound1 inv1 live1 fs path argv).bind ?_
      rintro ret t2 ⟨g2, sound2, inv2⟩
      exact (freeArgs_returns sound2 inv2).bind fun _ _ done => returns_pure done
    · exact returns_pure_bind ((freeArgs_returns sound1 inv1).bind fun _ _ done => returns_pure done)

end Xv6.PageExec
