import Xv6.PageRoles
import Xv6.Runs

/-! Whole runs: the boot of the kernel establishes the invariant, every system
call keeps it, and so every page has one owner between any two calls. -/

namespace Xv6.PageRun

open ByteFields VmMachine VmProc PageTable PageOwner PageWalk PageFree PageUvm PageCopy PageProc
  PageExec PageRoles Total Runs

variable {n : Nat} {B : Board} {g g' : Ghost n} {s t : Kernel n} {x : Nat} {p : Fin n}

def relist (g : Ghost n) (held pipes : List Nat) : Ghost n :=
  { g with rest := { g.rest with held := held, pipes := pipes } }

lemma relist_sound (h : Sound B g s) (held pipes) :
    Sound B (relist g held pipes) { s with held := held, pipes := pipes } := by
  refine ⟨h.managed, h.free, h.laid, h.tables, ?_, h.frozen⟩
  change _ = { g.rest with held := held, pipes := pipes }
  rw [← h.rest]
  rfl

lemma relist_inv (inv : Inv B g []) (before : Loose (g.owner x)) (after : Loose o)
    (heldOk : Counts (g.give x o) .kernel held) (pipesOk : Counts (g.give x o) .pipe pipes)
    (notArg : g.owner x ≠ .arg ∧ o ≠ .arg) (notTemp : g.owner x ≠ .temp ∧ o ≠ .temp) :
    Inv B (relist (g.give x o) held pipes) [] := by
  have user : ∀ u, o ≠ .user none u := by
    rintro u rfl
    exact after
  refine ⟨⟨heldOk.congr fun _ => Iff.rfl, pipesOk.congr fun _ => Iff.rfl,
    (inv.books.fetched.other notArg.1 notArg.2).congr fun _ => Iff.rfl,
    (inv.books.temp.other notTemp.1 notTemp.2).congr fun _ => Iff.rfl,
    fun page => ((inv.books.thawed page).other (by rintro e; rw [e] at before; exact before)
      (by rintro rfl; exact after)).congr fun _ => Iff.rfl⟩,
    fun q => (Settled.give (inv.settled q) before after).congr rfl fun slot =>
      slot.congr (fun _ => Iff.rfl) rfl fun _ _ => Iff.rfl, NoTable.give inv.spare user⟩

instance (B : Board) (x : Nat) : Decidable (Managed B x) :=
  inferInstanceAs (Decidable (_ ∧ _ ∧ _))

lemma freerangeFrom_returns : ∀ {k : Nat} {g : Ghost n} {s : Kernel n}, Sound B g s → g.rest = r →
    (k + m) * pgsize = physTop → B.end_ ≤ k * pgsize →
    (∀ x, g.owner x = .outside ∨ g.owner x = .free ∨ g.owner x = .temp) →
    (∀ x, g.owner x = .temp ↔ Managed B x ∧ k * pgsize ≤ x) → (∀ id, g.space id = none) →
    Returns (freerangeFrom B m (k * pgsize)) s fun _ t => ∃ g', Sound B g' t ∧ g'.rest = r ∧
      (∀ id, g'.space id = none) ∧
      ∀ x, g'.owner x = .outside ∨ g'.owner x = .free := by
  induction m with
  | zero =>
    intro k g s h same last _ three temp space
    rw [add_zero] at last
    refine returns_pure ⟨g, h, same, space, fun x => ?_⟩
    rcases three x with out | free | mine
    · exact .inl out
    · exact .inr free
    · obtain ⟨managed, high⟩ := (temp x).mp mine
      have low := managed.2.2
      omega
  | succ m ih =>
    intro k g s h same last start three temp space
    have here : Managed B (k * pgsize) := by
      refine ⟨Nat.mul_mod_left k pgsize, start, ?_⟩
      unfold pgsize at *
      omega
    have own : g.owner (k * pgsize) = .temp := (temp _).mpr ⟨here, le_rfl⟩
    refine (kfree_returns h (by simp [own])).bind fun _ t sound => ?_
    have next := (Nat.succ_mul k pgsize).symm
    rw [next]
    refine ih sound same ?_ (by omega) (fun x => ?_) (fun x => ?_) space
    · rw [← last]
      congr 1
      omega
    · rcases eq_or_ne x (k * pgsize) with rfl | ne
      · simp
      · rw [give_other ne]
        exact three x
    · rcases eq_or_ne x (k * pgsize) with rfl | ne
      · simp only [give_same, reduceCtorEq, false_iff, not_and, not_le]
        intro _
        rw [← next]
        exact Nat.lt_add_of_pos_right (by decide)
      · rw [give_other ne, temp]
        refine and_congr_right fun managed => ?_
        have aligned := managed.1
        unfold pgsize at *
        omega

lemma inv_of_blank (rest : g.rest = (rest (reset fun _ => fill 0)))
    (space : ∀ id, g.space id = none) (owner : ∀ x, g.owner x = .outside ∨ g.owner x = .free) :
    Inv B g [] := by
  have never : ∀ x o, o ≠ .outside → o ≠ .free → g.owner x ≠ o := by
    rintro x o out free rfl
    rcases owner x with e | e
    · exact out e
    · exact free e
  have none_ : ∀ o, o ≠ .outside → o ≠ .free → Counts g o [] := fun o out free =>
    ⟨fun x => by simp [never x o out free], List.nodup_nil⟩
  refine ⟨⟨?_, ?_, none_ _ (by simp) (by simp), none_ _ (by simp) (by simp),
    fun _ => none_ _ (by simp) (by simp)⟩, fun q => ?_,
    space none, fun x u => never x _ (by simp) (by simp)⟩
  · rw [rest]
    exact none_ _ (by simp) (by simp)
  · rw [rest]
    exact none_ _ (by simp) (by simp)
  · refine ⟨?_, fun _ => ?_, fun used => ?_⟩
    · rw [rest]
      refine ⟨fun x => ?_, .inl ⟨rfl, rfl, space _, fun x u => never x _ (by simp) (by simp)⟩⟩
      simp [never x (.trapframe q) (by simp) (by simp), PageOwner.rest, reset]
    · rw [rest]
      exact ⟨rfl, rfl⟩
    · rw [rest] at used
      exact absurd rfl used

lemma kinit_returns (mem) : Returns (kinit B) (reset mem : Kernel n) fun _ t => ∃ g, Sound B g t ∧ Inv B g [] := by
  have size := B.end_le
  have start : B.end_ ≤ pages B.end_ * pgsize := by
    unfold pages pgsize
    omega
  have whole : physTop = maxPages * pgsize := by decide
  have top : pages B.end_ * pgsize ≤ physTop := by
    rw [whole] at size ⊢
    unfold pages pgsize at *
    omega
  unfold kinit
  rw [pgRoundUp_eq size]
  have first : Sound B (⟨fun x => if Managed B x then .temp else .outside, fun _ => none,
    rest (reset mem : Kernel n)⟩ : Ghost n) (reset mem) := by
    refine ⟨fun x => ?_, ⟨[], rfl, List.nodup_nil, fun x => ?_⟩, nofun, fun id l v x => ?_, rfl, fun x page hx => ?_⟩
    · by_cases managed : Managed B x <;> simp [managed]
    · by_cases managed : Managed B x <;> simp [managed]
    · by_cases managed : Managed B x <;> simp [managed, Ghost.table]
    · by_cases managed : Managed B x <;> simp [managed] at hx
  refine (freerangeFrom_returns first rfl ?_ start (fun x => ?_) (fun x => ?_) fun _ => rfl).mono ?_
  · rw [whole] at top ⊢
    unfold pgsize at *
    omega
  · by_cases managed : Managed B x <;> simp [managed]
  · by_cases managed : Managed B x
    · have above : pages B.end_ * pgsize ≤ x := by
        obtain ⟨aligned, low, -⟩ := managed
        unfold pages pgsize at *
        omega
      simp [managed, above]
    · simp [managed]
  · rintro - t ⟨g, sound, same, space, owner⟩
    exact ⟨g, sound, inv_of_blank same space owner⟩

lemma takePages_ensures : ∀ {g : Ghost n} {s : Kernel n}, Sound B g s → Inv B g [] →
    Ensures (takePages B m) s fun _ t => ∃ g', Sound B g' t ∧ Inv B g' [] := by
  induction m with
  | zero => exact fun h inv => (returns_pure ⟨_, h, inv⟩).ensures
  | succ m ih =>
    intro g s h inv
    refine (kalloc_returns h).ensures.bind fun r t got => ?_
    split_ifs with failed
    · exact ensures_throw
    · rcases got with ⟨zero, -⟩ | ⟨own, taken⟩
      · exact absurd zero failed
      · have kept := taken.reassign (x := r) (o := .kernel) (by simp) (by simp)
        rw [give_give] at kept
        have listed := relist_sound kept (r :: t.held) t.pipes
        have held : t.held = g.rest.held := congrArg Rest.held kept.rest
        have pipes : t.pipes = g.rest.pipes := congrArg Rest.pipes kept.rest
        have inv' : Inv B (relist (g.give r .kernel) (r :: t.held) t.pipes) [] := by
          rw [held, pipes]
          exact relist_inv inv (by simp [own, Loose]) trivial (inv.books.held.push (by simp [own]))
            (inv.books.pipes.other (by simp [own]) (by simp)) (by simp [own]) (by simp [own])
        exact (returns_modify listed).ensures.bind fun _ t' sound => ih sound inv'

lemma uvmfirst_ensures {id : TableId n} (src)
    (h : HasTable B g s id root (fun _ => True) (fun _ => False) F) (res : Reserved F) :
    Ensures (uvmfirst B root src) s fun _ t => ∃ g' S, Sound B g' t ∧
      Table g' id root (fun _ => True) S F ∧ g'.rest = g.rest ∧
      (∀ p x, g'.owner x = .trapframe p ↔ g.owner x = .trapframe p) ∧
      (S = Below pgsize ∧ Keeps id g g' ∨ S = fun _ => False) := by
  unfold uvmfirst
  split_ifs with long
  · exact ensures_throw
  · refine (HasTable.kalloc_returns h).ensures.bind fun r t got => ?_
    split_ifs with failed
    · exact ensures_throw
    · rcases got with ⟨zero, -⟩ | ⟨pos, own, taken⟩
      · exact absurd zero failed
      · rw [← below_zero, ← zero_mul pgsize] at taken
        have zeroed := HasTable.store (x := r) taken (fill 0) (by simp)
        have flags : LeafFlags (pteW ||| pteR ||| pteX ||| pteU) := ⟨by decide, by decide⟩
        have mapped := HasTable.map_next (x := r) zeroed res (by simp) flags trivial
        rw [zero_mul] at mapped
        refine (memset_bind (mapped.bind ?_)).ensures
        rintro _ t1 ⟨g1, ⟨rfl, table, keeps⟩ | ⟨rfl, table, keeps, mine⟩⟩
        · have temp : g1.owner r = .temp := (keeps.owner r .temp (by simp [Family])).mpr (by simp)
          rw [below_zero] at table
          refine returns_modify ⟨g1, _, table.sound.store _ (by simp [temp]), table.space,
            keeps.rest, fun p x => (keeps.owner x _ (by simp [Family])).trans ?_, .inr rfl⟩
          rcases eq_or_ne x r with rfl | ne
          · simp [own]
          · rw [give_other ne]
        · have step := keeps_user own keeps
          exact returns_modify ⟨g1, _, table.sound.store _ (by simp [mine]), table.space,
            step.rest, fun p x => step.owner x _ (by simp [Family]), .inl ⟨rfl, step⟩⟩

lemma userinit_ensures (h : Sound B g s) (inv : Inv B g []) (initcode) :
    Ensures (userinit B initcode) s fun p t => ∃ g', Sound B g' t ∧
      (Inv B g' [] ∨ Table g' (some p) (g'.rest.proc p).pagetable (fun _ => True)
        (fun _ => False) (frames B (g'.rest.proc p).trapframe)) := by
  unfold userinit
  refine (allocproc_returns h inv.spare fun q _ => inv.settled q).ensures.bind ?_
  rintro r t1 ⟨g1, sound1, -, made⟩
  cases r with
  | none => exact ensures_throw
  | some p =>
    obtain ⟨-, confined, pos, sz⟩ := made p rfl
    have inv1 := confined.inv inv
    have settled := inv1.settled p
    obtain ⟨tf, own, table⟩ := settled.live fun idle => pos (settled.unused idle).2
    rw [sz, below_zero] at table
    refine ensures_get ?_
    rw [sound_proc sound1]
    refine (uvmfirst_ensures initcode ⟨sound1, table⟩ (frames_res _ _)).bind ?_
    rintro - t2 ⟨g2, S, sound2, table2, rest2, frame2, outcome⟩
    refine Returns.ensures ?_
    refine (assign_returns sound2 _).bind ?_
    rintro - t3 ⟨g3, sound3, set3⟩
    have data3 : (g3.owner (g1.rest.proc p).trapframe).Data := by
      rw [set3.owner, (frame2 p _).mpr own]
      trivial
    refine returns_modify_bind (returns_modify_bind ?_)
    refine (assign_returns ((sound3.store _ data3).store _ data3) _).bind ?_
    rintro - t4 ⟨g4, sound4, set4⟩
    refine (assign_returns sound4 _).bind ?_
    rintro - t5 ⟨g5, sound5, set5⟩
    have proc5 := set5.proc
    rw [set4.proc, set3.proc, rest2] at proc5
    have table5 := set5.table (set4.table (set3.table table2))
    refine returns_pure ⟨g5, sound5, ?_⟩
    rcases outcome with ⟨rfl, keeps⟩ | rfl
    · left
      have frame := (((frame_of_keeps keeps (.inr rfl)).trans set3.frame).trans set4.frame).trans set5.frame
      refine ((inv1.others p).frame frame).inv ⟨?_, fun idle => ?_, fun _ => ?_⟩
        (set5.noTable (set4.noTable (set3.noTable (NoTable.keeps inv1.spare keeps))))
      · rw [proc5]
        exact set5.slot (set4.slot (set3.slot
          ⟨fun x => (frame2 p x).trans (settled.slot.frame x), .inr ⟨pos, tf, table2⟩⟩))
      · rw [proc5] at idle
        simp at idle
      · rw [proc5]
        exact pos
    · right
      rw [proc5]
      exact table5

lemma booted_inv (h : Booted B initproc s) : ∃ g, Sound B g s ∧ Inv B g [] := by
  obtain ⟨mem, m, initcode, pa, t, boot, mapped, pos⟩ := h
  have ran : Ensures (bootKernel B m initcode) (reset mem : Kernel n) fun p t => ∃ g',
    Sound B g' t ∧ (Inv B g' [] ∨ Table g' (some p) (g'.rest.proc p).pagetable
      (fun _ => True) (fun _ => False) (frames B (g'.rest.proc p).trapframe)) := by
    refine (kinit_returns mem).ensures.bind ?_
    rintro - t1 ⟨g1, sound1, inv1⟩
    refine (takePages_ensures sound1 inv1).bind ?_
    rintro - t2 ⟨g2, sound2, inv2⟩
    exact userinit_ensures sound2 inv2 initcode
  obtain ⟨g, sound, inv | table⟩ := ran _ _ boot
  · exact ⟨g, sound, inv⟩
  · have looked := (walkaddr_returns ⟨sound, table⟩ (frames_res _ _) 0).ensures
    rw [← sound_proc sound] at looked
    obtain ⟨-, zero | ⟨u, own⟩, -⟩ := looked _ _ mapped
    · exact absurd zero pos
    · obtain ⟨sp, -, -, -, cov⟩ := table
      exact absurd (cov.only pa u own).1 id

section
variable (h : Sound B g s) (inv : Inv B g [])
include h inv

lemma pipealloc_returns : Returns (pipealloc B) s fun _ t => ∃ g', Sound B g' t ∧ Inv B g' [] := by
  refine (kalloc_returns h).bind fun r t got => ?_
  rcases got with ⟨rfl, same⟩ | ⟨own, taken⟩
  · exact returns_pure ⟨g, same, inv⟩
  · rw [if_neg (managed_pos (h.managed_of (by simp [own])))]
    have kept := taken.reassign (x := r) (o := .pipe) (by simp) (by simp)
    rw [give_give] at kept
    refine returns_modify_bind (returns_pure ⟨_, relist_sound kept t.held (r :: t.pipes), ?_⟩)
    have held : t.held = g.rest.held := congrArg Rest.held kept.rest
    have pipes : t.pipes = g.rest.pipes := congrArg Rest.pipes kept.rest
    rw [held, pipes]
    exact relist_inv inv (by simp [own, Loose]) trivial
      (inv.books.held.other (by simp [own]) (by simp)) (inv.books.pipes.push (by simp [own]))
      (by simp [own]) (by simp [own])

lemma pipefree_returns (mem : page ∈ s.pipes) :
    Returns (pipefree B page) s fun _ t => ∃ g', Sound B g' t ∧ Inv B g' [] := by
  have listed : s.pipes = g.rest.pipes := congrArg Rest.pipes h.rest
  rw [listed] at mem
  have own := (inv.books.pipes.mem page).mpr mem
  refine (kfree_returns h (by simp [own])).bind fun _ t sound => ?_
  refine returns_modify ⟨_, relist_sound sound t.held (t.pipes.erase page), ?_⟩
  have held : t.held = g.rest.held := congrArg Rest.held sound.rest
  have pipes : t.pipes = g.rest.pipes := congrArg Rest.pipes sound.rest
  rw [held, pipes]
  exact relist_inv inv (by simp [own, Loose]) trivial
    (inv.books.held.other (by simp [own]) (by simp)) (inv.books.pipes.pop (by simp))
    (by simp [own]) (by simp [own])

lemma perform_returns (enabled : Enabled s a) (stays : ∀ status, a ≠ .exit initproc status) :
    Returns (perform B initproc a) s fun _ t => ∃ g', Sound B g' t ∧ Inv B g' [] := by
  have live : ∀ {p}, a.caller = some p → (g.rest.proc p).state ≠ .unused := by
    intro p caller
    rw [← sound_proc h, enabled.1 p caller]
    simp
  cases a with
  | fork p => exact (fork_returns h inv (live rfl)).bind fun _ _ done => returns_pure done
  | exec p fs upath uargv =>
    exact (sysExec_returns h inv (live rfl) fs upath uargv).bind fun _ _ done => returns_pure done
  | sbrk p bytes =>
    exact (growproc_returns h inv (live rfl) bytes).bind fun _ _ done => returns_pure done
  | exit p status =>
    have ne : p ≠ initproc := by
      rintro rfl
      exact stays status rfl
    exact exit_returns h inv (live rfl) ne status
  | wait p addr => exact (wait_returns h inv (live rfl) addr).bind fun _ _ done => returns_pure done
  | pipe => exact (pipealloc_returns h inv).bind fun _ _ done => returns_pure done
  | pipeClose page => exact pipefree_returns h inv (enabled.2 page rfl)
  | store p va data =>
    obtain ⟨-, -, table⟩ := (inv.settled p).live (live rfl)
    rw [← sound_proc h] at table
    refine returns_get_bind ?_
    exact (copyout_returns ⟨h, table⟩ (frames_res _ _) va data).bind fun _ _ sound =>
      returns_pure ⟨g, sound, inv⟩
  | trap p registers =>
    obtain ⟨-, own, -⟩ := (inv.settled p).live (live rfl)
    rw [← sound_proc h] at own
    exact returns_modify ⟨g, h.store _ (by simp [own]), inv⟩

end

def Reachable (B : Board) (initproc : Fin n) (s : Kernel n) : Prop :=
  ∃ s₀ as, Booted B initproc s₀ ∧ Run (Step B initproc) s₀ as s

variable {initproc : Fin n}

lemma Reachable.inv (h : Reachable B initproc s) : ∃ g, Sound B g s ∧ Inv B g [] := by
  obtain ⟨s0, as, boot, run⟩ := h
  refine run.invariant (fun s => ∃ g, Sound B g s ∧ Inv B g []) ?_ (booted_inv boot)
  rintro s a t ⟨g, sound, inv⟩ ⟨enabled, ran⟩
  by_cases stays : ∀ status, a ≠ .exit initproc status
  · exact (perform_returns sound inv enabled stays).ensures _ _ ran
  · push Not at stays
    obtain ⟨status, rfl⟩ := stays
    have panics : perform B initproc (.exit initproc status) s = .error "init exiting" := by
      simp only [perform, VmProc.exit, if_true]
      rfl
    rw [panics] at ran
    cases ran

/-- Every page that `kinit` frees, apart from those that the kernel keeps and
those of pipes, is once in the free list or has one role for one process. -/
def OnePlace (B : Board) (s : Kernel n) : Prop :=
  ∃ l, Chain s.mem s.freelist l ∧
    ∀ x, Managed B x → x ∉ s.held → x ∉ s.pipes →
      l.count x = 1 ∧ (∀ p r, ¬ Has s p x r) ∨
      l.count x = 0 ∧ ∃! pr : Fin n × Role, Has s pr.1 x pr.2

/-- A process maps the pages below its size, `TRAPFRAME` and `TRAMPOLINE`. -/
def MapsExactly (B : Board) (s : Kernel n) (p : Fin n) : Prop :=
  (∀ u, (mappedPage s.mem (s.proc p).pagetable u).isSome ↔
    u * pgsize < pgRoundUp (s.proc p).sz ∨ u * pgsize = trapframeVa ∨
      u * pgsize = trampolineVa) ∧
  mappedPage s.mem (s.proc p).pagetable (trapframeVa / pgsize) = some (s.proc p).trapframe ∧
  mappedPage s.mem (s.proc p).pagetable (trampolineVa / pgsize) = some B.trampoline

lemma onePlace_of_inv (h : Sound B g s) (inv : Inv B g []) : OnePlace B s := by
  obtain ⟨l, chain, nodup, mem⟩ := h.free
  refine ⟨l, chain, fun x managed notHeld notPipe => ?_⟩
  have held : s.held = g.rest.held := congrArg Rest.held h.rest
  have pipes : s.pipes = g.rest.pipes := congrArg Rest.pipes h.rest
  rw [held, ← inv.books.held.mem] at notHeld
  rw [pipes, ← inv.books.pipes.mem] at notPipe
  have once : ∀ p r, g.owner x = ownerOf p r → l.count x = 0 ∧ ∃! pr : Fin n × Role, Has s pr.1 x pr.2 := by
    intro p r own
    refine ⟨List.count_eq_zero.mpr fun hx => ?_, (p, r), (has_iff h inv r).mpr own, fun pr other => ?_⟩
    · rw [mem, own] at hx
      cases r <;> simp [ownerOf] at hx
    · have role := (has_iff h inv pr.2).mp other
      rw [own] at role
      exact (ownerOf_inj role).symm
  cases own : g.owner x with
  | outside => exact absurd own ((h.managed x).mpr managed)
  | free =>
    refine .inl ⟨List.count_eq_one_of_mem nodup ((mem x).mpr own), fun p r has => ?_⟩
    rw [has_iff h inv, own] at has
    cases r <;> simp [ownerOf] at has
  | kernel => exact absurd own notHeld
  | pipe => exact absurd own notPipe
  | arg => simpa using (inv.books.fetched.mem x).mp own
  | temp => simpa using (inv.books.temp.mem x).mp own
  | trapframe p => exact .inr (once p .trapframe own)
  | table id l' v =>
    cases id with
    | none =>
      rw [h.tables] at own
      simp [Ghost.table, inv.spare.1] at own
    | some p => exact .inr (once p (.table l' v) own)
  | user id u =>
    cases id with
    | none => exact absurd own (inv.spare.2 x u)
    | some p => exact .inr (once p (.user u) own)
  | frozen page => simpa using ((inv.books.thawed page).mem x).mp own

/-- Between two calls every page has one place and every process maps exactly its
pages; and no call panics. -/
theorem pages_owned (h : Reachable B initproc s) : OnePlace B s ∧
    (∀ p x r, Has s p x r → Managed B x ∧ x ∉ s.held ∧ x ∉ s.pipes) ∧
    (∀ p, (s.proc p).state ≠ .unused → (s.proc p).pagetable ≠ 0 ∧ MapsExactly B s p) ∧
    ∀ a, Enabled s a → (∀ status, a ≠ .exit initproc status) → ∃ t, Step B initproc s a t := by
  obtain ⟨g, sound, inv⟩ := h.inv
  refine ⟨onePlace_of_inv sound inv, fun p x r has => ?_, fun p used => ?_, fun a enabled stays => ?_⟩
  · have own := (has_iff sound inv r).mp has
    have held : s.held = g.rest.held := congrArg Rest.held sound.rest
    have pipes : s.pipes = g.rest.pipes := congrArg Rest.pipes sound.rest
    rw [held, pipes, ← inv.books.held.mem, ← inv.books.pipes.mem, ← sound.managed, own]
    cases r <;> simp [ownerOf]
  · have root : (s.proc p).pagetable ≠ 0 := by
      rw [sound_proc sound] at used ⊢
      exact (inv.settled p).used used
    refine ⟨root, fun u => ?_, mappedPage_frames sound inv used⟩
    rw [mappedPage_iff sound inv used, trapframeVa_eq, trampolineVa_eq,
      Nat.mul_left_inj (by decide), Nat.mul_left_inj (by decide)]
  · obtain ⟨_, t, ran, -⟩ := perform_returns sound inv enabled stays
    exact ⟨t, enabled, ran⟩

lemma ok_of_toOption {e : Except ε α} (h : e.toOption = some a) : e = .ok a := by
  cases e with
  | error _ => cases h
  | ok b => exact congrArg _ (Option.some.inj h)

lemma kernBase_aligned : kernBase % pgsize = 0 := by decide

def smallBoard : Board where
  end_ := physTop - 16 * pgsize
  trampoline := kernBase
  refuse _ := false
  trampoline_aligned := kernBase_aligned
  kernBase_le := Nat.le_refl _
  trampoline_lt := by decide
  end_le := by decide

lemma small_boots : ∃ s0 s : Kernel 2, Booted smallBoard 0 s0 ∧ (s0.proc 0).state = .runnable ∧
    fork smallBoard 0 s0 = .ok (some 1, s) ∧ (s.proc 1).state = .runnable := by
  have ran : ((bootKernel smallBoard 0 [] (reset fun _ => fill 0 : Kernel 2)).toOption.map
    fun r => (r.1, (r.2.proc 0).state,
      (walkaddr smallBoard (r.2.proc 0).pagetable 0 r.2).toOption.map fun q => decide (q.1 = 0),
      (fork smallBoard 0 r.2).toOption.map fun q => (decide (q.1 = some 1), (q.2.proc 1).state))) =
    some (0, .runnable, some false, some (true, .runnable)) := by
    decide +kernel
  obtain ⟨⟨p, s0⟩, boot, facts⟩ := Option.map_eq_some_iff.mp ran
  simp only [Prod.mk.injEq] at facts
  obtain ⟨rfl, live, mapped, forked⟩ := facts
  obtain ⟨⟨pa, t⟩, found, pos⟩ := Option.map_eq_some_iff.mp mapped
  obtain ⟨⟨r, s⟩, step, child⟩ := Option.map_eq_some_iff.mp forked
  simp only [Prod.mk.injEq, decide_eq_true_eq] at child
  obtain ⟨rfl, child⟩ := child
  exact ⟨s0, s, ⟨_, _, _, pa, t, ok_of_toOption boot, ok_of_toOption found, by simpa using pos⟩, live,
    ok_of_toOption step, child⟩

theorem pages_owned_after_fork : ∃ s : Kernel 2, Reachable smallBoard 0 s ∧ (s.proc 1).state = .runnable ∧
    OnePlace smallBoard s ∧ MapsExactly smallBoard s 1 := by
  obtain ⟨s₀, s, booted, live, forked, child⟩ := small_boots
  have enabled : Enabled s₀ (.fork 0) := by
    refine ⟨fun p caller => ?_, nofun⟩
    obtain rfl := Option.some.inj caller
    exact live
  have step : Step smallBoard 0 s₀ (.fork 0) s := ⟨enabled, bind_of_eq forked⟩
  have reach : Reachable smallBoard 0 s := ⟨s₀, [.fork 0], booted, .single step⟩
  obtain ⟨place, -, maps, -⟩ := pages_owned reach
  refine ⟨s, reach, child, place, (maps 1 ?_).2⟩
  rw [child]
  simp

end Xv6.PageRun
