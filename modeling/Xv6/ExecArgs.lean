import Xv6.ForkCopy

/-! The arguments of a program. `exec` moves the stack pointer down once for each string and
once for the array of pointers, and keeps it at a multiple of 16. -/

namespace Xv6.ExecArgs

open ByteFields VmMachine VmProc PageTable PageOwner PageWalk PageFree PageUvm PageCopy PageProc PageExec List
  PageRun PageMap UserCopy PageFrame ExecAtomic ForkCopy Total

variable {n : Nat} {B : Board} {g g' : Ghost n} {s t u : Kernel n} {p : Fin n}
  {root base top : Nat} {argv : List (List UInt8)}

def align16 (count : Nat) : Nat := (count + 15) / 16 * 16

def need : List (List UInt8) → Nat
  | [] => 0
  | arg :: argv => align16 (arg.length + 1) + need argv

def places (sp : Nat) : List (List UInt8) → List Nat
  | [] => []
  | arg :: argv => (sp - align16 (arg.length + 1)) :: places (sp - align16 (arg.length + 1)) argv

def stackTop (sz : Nat) (argv : List (List UInt8)) : Nat := sz - need argv - align16 (8 * (argv.length + 1))

def Fits (argv : List (List UInt8)) : Prop :=
  need argv + align16 (8 * (argv.length + 1)) ≤ userStack * pgsize

lemma le_align16 (count) : count ≤ align16 count := by
  unfold align16
  omega

lemma align16_mod (count) : align16 count % 16 = 0 := by
  unfold align16
  omega

lemma align16_le {sp count : Nat} (aligned : sp % 16 = 0) (le : count ≤ sp) : align16 count ≤ sp := by
  unfold align16
  omega

lemma need_mod (argv) : need argv % 16 = 0 := by
  induction argv with
  | nil => rfl
  | cons arg argv ih =>
    have := align16_mod (arg.length + 1)
    unfold need
    omega

lemma lowerSp_eq {sp count : Nat} (aligned : sp % 16 = 0) (le : count ≤ sp) (lt : sp < 2 ^ 64) :
    lowerSp sp count = sp - align16 count := by
  rw [lowerSp, sub64_eq le lt]
  unfold align16
  omega

@[simp] lemma places_length (sp argv) : (places sp argv).length = argv.length := by
  induction argv generalizing sp with
  | nil => rfl
  | cons arg argv ih => simp [places, ih]

def Disjoint (a b : Nat × Nat) : Prop := a.1 + a.2 ≤ b.1 ∨ b.1 + b.2 ≤ a.1

def pieces (ptrs : List Nat) (argv : List (List UInt8)) : List (Nat × Nat) :=
  List.zipWith (fun ptr arg => (ptr, arg.length + 1)) ptrs argv

lemma pieces_bounds (enough : need argv ≤ sp) :
    ∀ a ∈ pieces (places sp argv) argv, sp - need argv ≤ a.1 ∧ a.1 + a.2 ≤ sp := by
  induction argv generalizing sp with
  | nil => exact nofun
  | cons arg argv ih =>
    intro a mem
    have room := le_align16 (arg.length + 1)
    unfold need at enough ⊢
    rcases mem_cons.mp mem with rfl | later
    · dsimp only
      omega
    · obtain ⟨lo, hi⟩ := ih (by omega) a later
      omega

lemma pieces_disjoint (enough : need argv ≤ sp) : (pieces (places sp argv) argv).Pairwise Disjoint := by
  induction argv generalizing sp with
  | nil => exact .nil
  | cons arg argv ih =>
    unfold need at enough
    refine .cons (fun a later => .inr ?_) (ih (by omega))
    exact (pieces_bounds (by omega) a later).2

section

structure Touched (B : Board) (root lo hi : Nat) (s t : Kernel n) : Prop where
  frame : t = { s with mem := t.mem }
  entries : ∀ va, lookup B t root va = lookup B s root va
  table : ∀ x, InTree t.mem root x ↔ InTree s.mem root x
  outside : ∀ va, va < lo ∨ hi ≤ va → userByte B t root va = userByte B s root va

lemma Touched.refl (s : Kernel n) : Touched B root lo hi s s :=
  ⟨rfl, fun _ => rfl, fun _ => Iff.rfl, fun _ _ => rfl⟩

section
variable (h : Touched B root lo hi s t)
include h

lemma Touched.trans (h' : Touched B root lo' hi' t u)
    (below : lo ≤ lo') (above : hi' ≤ hi) : Touched B root lo hi s u := by
  refine ⟨?_, fun va => (h'.entries va).trans (h.entries va), fun x => (h'.table x).trans (h.table x), fun va out => ?_⟩
  · rw [h'.frame, h.frame]
  · rw [h'.outside va (by omega), h.outside va out]

lemma Touched.mono (below : lo' ≤ lo) (above : hi ≤ hi') : Touched B root lo' hi' s t :=
  ⟨h.frame, h.entries, h.table, fun va out => h.outside va (by omega)⟩

lemma Touched.separate (sep : Separate B s root) : Separate B t root := by
  have same : ∀ va, userPte B t root va = userPte B s root va := fun va => by rw [userPte, userPte, h.entries]
  refine ⟨fun va pte eq => ?_, fun va va' pte pte' eq eq' => ?_, fun va pte eq => ?_⟩
  · exact sep.nonzero va pte (same va ▸ eq)
  · exact sep.distinct va va' pte pte' (same va ▸ eq) (same va' ▸ eq')
  · rw [h.table]
    exact sep.table va pte (same va ▸ eq)

lemma Touched.writable (va) : Writable B t root va ↔ Writable B s root va := by
  unfold Writable WritableIn
  simp [h.entries]

lemma Touched.bytes (out : va + len ≤ lo ∨ hi ≤ va) : userBytes B t root va len = userBytes B s root va len := by
  refine map_congr_left fun k mem => ?_
  have := mem_range.mp mem
  exact h.outside (va + k) (by omega)

end

lemma copyout_inside (sep : Separate B s root) (room : ∀ a, dstva ≤ a → a < dstva + src.length → Writable B s root a) :
    Returns (copyout B root dstva src) s fun ok t => ok = true ∧
      Touched B root dstva (dstva + src.length) s t ∧ userBytes B t root dstva src.length = src := by
  refine (copyoutFrom_spec src.length s dstva src sep le_rfl).mono ?_
  rintro ok t ⟨count, le, copied, yes, no⟩
  have good : ok = true := by
    by_contra failed
    obtain ⟨short, bad⟩ := no (Bool.eq_false_iff.mpr failed)
    exact bad (room _ (Nat.le_add_right ..) (by omega))
  have all : src.take count = src := by rw [yes good, take_length]
  rw [all] at copied
  exact ⟨good, ⟨copied.frame, copied.entries, copied.table, fun va out => copied.outside sep out⟩, copied.stored⟩

def Holds (B : Board) (s : Kernel n) (root ptr : Nat) (arg : List UInt8) : Prop :=
  userBytes B s root ptr (arg.length + 1) = arg ++ [0]

lemma Touched.strings (h : Touched B root lo hi s t) (above : hi ≤ sp - need argv)
    (enough : need argv ≤ sp) (strings : List.Forall₂ (Holds B s root) (places sp argv) argv) :
    List.Forall₂ (Holds B t root) (places sp argv) argv := by
  induction argv generalizing sp with
  | nil => exact .nil
  | cons arg argv ih =>
    unfold need at above enough
    obtain ⟨held, later⟩ := forall₂_cons.mp strings
    refine .cons ((h.bytes (.inr (by omega))).trans held) (ih (by omega) (by omega) later)

lemma pushArgs_spec (page : pgsize ≤ base) (small : top < 2 ^ 64) (argv : List (List UInt8)) :
    ∀ (s : Kernel n) (sp : Nat) (ustack : List Nat), Separate B s root →
      (∀ a, base ≤ a → a < top → Writable B s root a) → sp % 16 = 0 → base ≤ sp → sp ≤ top →
      (∀ arg ∈ argv, arg.length < pgsize) → ustack.length + argv.length ≤ maxArg →
      Returns (pushArgs B root base argv sp ustack) s fun r t => Touched B root base sp s t ∧
        (base + need argv ≤ sp → r = some (sp - need argv, ustack ++ places sp argv) ∧
          List.Forall₂ (Holds B t root) (places sp argv) argv) ∧
        (sp < base + need argv → r = none) := by
  induction argv with
  | nil =>
    intro s sp ustack _ _ _ low _ _ _
    refine returns_pure ⟨.refl s, fun _ => ⟨?_, .nil⟩, fun past => ?_⟩
    · simp [need, places]
    · unfold need at past
      omega
  | cons arg argv ih =>
    intro s sp ustack sep room aligned low high short few
    have len := short arg mem_cons_self
    have fits := align16_le aligned (show arg.length + 1 ≤ sp by omega)
    have bytes := le_align16 (arg.length + 1)
    have even := align16_mod (arg.length + 1)
    simp only [length_cons] at few
    unfold pushArgs
    rw [if_neg (by omega), lowerSp_eq aligned (by omega) (by omega)]
    dsimp only
    unfold need
    generalize next : sp - align16 (arg.length + 1) = sp' at *
    split_ifs with under
    · refine returns_pure ⟨.refl s, fun fine => ?_, fun _ => rfl⟩
      omega
    · have size : (arg ++ [0]).length = arg.length + 1 := by simp
      have free : ∀ a, sp' ≤ a → a < sp' + (arg ++ [0]).length → Writable B s root a := fun a lo hi =>
        room a (by omega) (by omega)
      refine (copyout_inside sep free).bind ?_
      rintro ok t ⟨rfl, touched, stored⟩
      rw [size] at touched stored
      rw [if_pos rfl]
      refine (ih t sp' (ustack ++ [sp']) (touched.separate sep)
        (fun a lo hi => (touched.writable a).mpr (room a lo hi)) (by omega) (by omega) (by omega)
        (fun arg mem => short arg (mem_cons_of_mem _ mem)) (by simp; omega)).mono ?_
      rintro r u ⟨rest, good, bad⟩
      refine ⟨(touched.mono (by omega) (by omega)).trans rest le_rfl (by omega), fun fine => ?_,
        fun past => bad (by omega)⟩
      obtain ⟨done, strings⟩ := good (by omega)
      unfold places
      rw [next]
      refine ⟨?_, .cons ?_ strings⟩
      · rw [done, append_assoc, show sp' - need argv = sp - (align16 (arg.length + 1) + need argv) by omega]
        rfl
      · exact (rest.bytes (.inr le_rfl)).trans stored

lemma wordBytes_length (words) : (wordBytes words).length = 8 * words.length := by
  induction words with
  | nil => rfl
  | cons w words ih =>
    have step : wordBytes (w :: words) = ((range 8).map fun i => UInt8.ofNat (w / 256 ^ i)) ++ wordBytes words :=
      rfl
    rw [step, length_append, ih, length_map, length_range, length_cons]
    omega

lemma pushStack_spec {sz : Nat} (sep : Separate B s root)
    (room : ∀ a, sz - userStack * pgsize ≤ a → a < sz → Writable B s root a) (aligned : sz % 16 = 0)
    (big : (userStack + 1) * pgsize ≤ sz) (small : sz < 2 ^ 64) (few : argv.length < maxArg)
    (short : ∀ arg ∈ argv, arg.length < pgsize) :
    Returns (pushStack B root sz argv) s fun r t =>
      Touched B root (sz - userStack * pgsize) sz s t ∧
      (Fits argv → r = some (stackTop sz argv) ∧ List.Forall₂ (Holds B t root) (places sz argv) argv ∧
        userBytes B t root (stackTop sz argv) (8 * (argv.length + 1)) = wordBytes (places sz argv ++ [0])) ∧
      (¬ Fits argv → r = none) := by
  have stack : userStack * pgsize = 4096 ∧ (userStack + 1) * pgsize = 8192 ∧ pgsize = 4096 := by decide
  unfold pushStack
  rw [sub64_eq (by omega) small]
  dsimp only
  refine (pushArgs_spec (by omega) small argv s sz [] sep room aligned (by omega) le_rfl short (by simp; omega)).bind ?_
  rintro r t ⟨touched, good, bad⟩
  unfold Fits stackTop
  by_cases fine : sz - userStack * pgsize + need argv ≤ sz
  swap
  · rw [bad (by omega)]
    exact returns_pure ⟨touched, fun fits => absurd fits (by omega), fun _ => rfl⟩
  obtain ⟨rfl, strings⟩ := good fine
  have multiple := need_mod argv
  unfold maxArg at few
  dsimp only
  rw [nil_append, places_length, mul_comm (argv.length + 1) 8, lowerSp_eq (by omega) (by omega) (by omega)]
  have bytes := le_align16 (8 * (argv.length + 1))
  split_ifs with under
  · exact returns_pure ⟨touched, fun fits => absurd fits (by omega), fun _ => rfl⟩
  · have size : (wordBytes (places sz argv ++ [0])).length = 8 * (argv.length + 1) := by
      rw [wordBytes_length]
      simp
    refine (copyout_inside (touched.separate sep) (fun a lo hi => (touched.writable a).mpr
      (room a (by omega) (by omega)))).bind ?_
    rintro ok u ⟨rfl, pushed, stored⟩
    rw [size] at pushed stored
    refine returns_pure ⟨touched.trans pushed (by omega) (by omega), fun _ => ⟨rfl, ?_, stored⟩, fun no => absurd ?_ no⟩
    · exact pushed.strings (by omega) (by omega) strings
    · omega

end

structure Arguments (B : Board) (s : Kernel n) (root base sz sp : Nat) (argv : List (List UInt8))
    (ptrs : List Nat) : Prop where
  aligned : sp % 16 = 0
  array : userBytes B s root sp (8 * (argv.length + 1)) = wordBytes (ptrs ++ [0])
  strings : List.Forall₂ (Holds B s root) ptrs argv
  inside : ∀ a ∈ (sp, 8 * (argv.length + 1)) :: pieces ptrs argv, base ≤ a.1 ∧ a.1 + a.2 ≤ sz
  apart : ((sp, 8 * (argv.length + 1)) :: pieces ptrs argv).Pairwise Disjoint
  stack : ∀ a, base ≤ a → a < sz → Writable B s root a
  guard : ∀ a, base - pgsize ≤ a → a < base → userPte B s root a = none

variable {sz sp : Nat} {ptrs : List Nat}

lemma Arguments.congr (h : Arguments B s root base sz sp argv ptrs)
    (same : ∀ va, lookup B t root va = lookup B s root va ∧
      userByte B t root va = userByte B s root va) : Arguments B t root base sz sp argv ptrs := by
  have bytes : ∀ va len, userBytes B t root va len = userBytes B s root va len := fun va len =>
    map_congr_left fun k _ => (same (va + k)).2
  refine ⟨h.aligned, (bytes _ _).trans h.array, h.strings.imp fun ptr arg held => (bytes _ _).trans held,
    h.inside, h.apart, fun a lo hi => ?_, fun a lo hi => ?_⟩
  · have here := h.stack a lo hi
    unfold Writable WritableIn at here ⊢
    rwa [(same a).1]
  · have here := h.guard a lo hi
    unfold userPte at here ⊢
    rwa [(same a).1]

lemma arguments_of_push (touched : Touched B root (sz - userStack * pgsize) sz s t) (aligned : sz % 16 = 0)
    (big : (userStack + 1) * pgsize ≤ sz) (fits : Fits argv)
    (room : ∀ a, sz - userStack * pgsize ≤ a → a < sz → Writable B s root a)
    (guard : ∀ a, sz - userStack * pgsize - pgsize ≤ a → a < sz - userStack * pgsize → userPte B s root a = none)
    (strings : List.Forall₂ (Holds B t root) (places sz argv) argv)
    (array : userBytes B t root (stackTop sz argv) (8 * (argv.length + 1)) = wordBytes (places sz argv ++ [0])) :
    Arguments B t root (sz - userStack * pgsize) sz (stackTop sz argv) argv (places sz argv) := by
  have stack : userStack * pgsize = 4096 ∧ (userStack + 1) * pgsize = 8192 ∧ pgsize = 4096 := by decide
  have multiple := need_mod argv
  have bytes := le_align16 (8 * (argv.length + 1))
  have even := align16_mod (8 * (argv.length + 1))
  unfold Fits at fits
  have bounds := pieces_bounds (show need argv ≤ sz by omega)
  unfold stackTop at array ⊢
  refine ⟨by omega, array, strings, fun a mem => ?_, .cons (fun a mem => .inl ?_) (pieces_disjoint (by omega)),
    fun a lo hi => (touched.writable a).mpr (room a lo hi), fun a lo hi => ?_⟩
  · rcases mem_cons.mp mem with rfl | later
    · dsimp only
      omega
    · have := bounds a later
      omega
  · have := bounds a mem
    omega
  · rw [userPte, touched.entries]
    exact guard a lo hi

lemma uvmclear_leaves (shape : Shape s root) (low : v * pgsize < maxVa)
    (here : leafAt s.mem root v = some pte) (lt : pte < 256 ^ 8)
    (left : (pte - (pte &&& pteU)) &&& pteV ≠ 0) :
    Ensures (uvmclear B root (v * pgsize)) s fun _ t =>
      (∀ w, leafAt t.mem root w = if w = v then some (pte - (pte &&& pteU)) else leafAt s.mem root w) := by
  obtain ⟨b, hb, entry⟩ : ∃ b, tableAt s.mem root 2 (v / 512) = some b ∧ valid (s.mem b) (v % 512) = some pte :=
    Option.bind_eq_some_iff.mp here
  have found : walk B root (v * pgsize) false s = .ok (some (b, v % 512), s) := by
    rw [PageMap.walk_lookup low, page_index, hb, px_zero, page_index]
    rfl
  intro _ t ran
  rw [uvmclear, bind_of_eq found] at ran
  dsimp only at ran
  rw [bind_of_eq rfl, (valid_inv entry).1] at ran
  have stored : t.mem = Function.update s.mem b (putPte (s.mem b) (v % 512) (pte - (pte &&& pteU))) := by
    cases ran
    rfl
  intro w
  rw [stored, leafAt_setLeaf shape.tree hb (Nat.mod_lt _ (by decide)) (by omega), if_pos left, Nat.div_add_mod']

variable {id : TableId n} {P : Nat → Prop} {F : Nat → Option Leaf}

def stackPerm : Nat := pteR ||| pteU ||| pteW

lemma stack_leaves (h : HasTable B g s id root P (Below sz) F) (res : Reserved F)
    (ok : P stackPerm) (more : sz ≤ newsz) :
    Returns (uvmalloc B root sz newsz pteW) s fun r t => ∃ g', Keeps id g g' ∧
      (r = 0 ∧ HasTable B g' t id root P (Below sz) F ∨
        r = newsz ∧ HasTable B g' t id root P (Below newsz) F ∧ ∀ v, pages sz ≤ v → v < pages newsz →
          ∃ x, PageAddr x ∧ leafAt t.mem root v = some (mapPte x stackPerm)) := by
  have flags : LeafFlags stackPerm := ⟨by decide, by decide⟩
  refine uvmalloc_grows (I := fun k _ s => ∀ v, pages sz ≤ v → v < k →
    ∃ x, PageAddr x ∧ leafAt s.mem root v = some (mapPte x stackPerm)) h res flags ok more ?_ ?_
  · intro k g s _ known table x t1 t2 _ free taken alloc ran v lo hi
    have count := HasTable.count_le table
    have small : maxPages < maxVa / pgsize := by decide
    obtain ⟨leaves, -⟩ := fresh_leaves table (by omega) (by simp [Below]) (res.none_of count) flags free
      taken alloc ran
    rw [leaves]
    split_ifs with here
    · exact ⟨x, (table.sound.managed_of (by simp [free])).pageAddr, rfl⟩
    · exact known v lo (by omega)
  · intro v lo hi
    omega

lemma managedLimit (addr : PageAddr x) : x < physLimit := addr.2.trans (by decide)

lemma mapPte_flags (x) (hm : m < 1024) : mapPte x stackPerm &&& m = (stackPerm ||| pteV) &&& m := by
  rw [mapPte_eq (by decide), and_flags (by decide) hm]

lemma guard_flags (x) : (mapPte x stackPerm - (mapPte x stackPerm &&& pteU)) &&& pteV ≠ 0 ∧
    (mapPte x stackPerm - (mapPte x stackPerm &&& pteU)) &&& pteU = 0 := by
  have less : mapPte x stackPerm - (mapPte x stackPerm &&& pteU) = pa2pte x + 7 := by
    rw [mapPte_flags x (by decide), mapPte_eq (by decide)]
    have : (stackPerm ||| pteV) = 23 ∧ (stackPerm ||| pteV) &&& pteU = 16 := by decide
    omega
  rw [less, and_flags (by decide) (by decide), and_flags (by decide) (by decide)]
  decide

lemma assign_kept (h : Sound B g s) (f) : Returns (assign p f) s fun _ t => t.mem = s.mem ∧ ∃ g', Sound B g' t ∧
    Assigned p (f (g.rest.proc p)) g g' :=
  returns_modify ⟨rfl, PageProc.Sound.assign h f⟩

def Passed (B : Board) (p : Fin n) (argv : List (List UInt8)) (t : Kernel n) : Prop :=
  ∃ ptrs, Arguments B t (t.proc p).pagetable ((t.proc p).sz - userStack * pgsize) (t.proc p).sz
    (register (t.mem (t.proc p).trapframe) tfA1) argv ptrs

lemma commit_passed (h : HasTable B g s none root P (Below sz) (frames B (g.rest.proc p).trapframe))
    (own : g.owner (g.rest.proc p).trapframe = .trapframe p)
    (old : Table g (some p) (g.rest.proc p).pagetable (fun _ => True) (Below (g.rest.proc p).sz)
      (frames B (g.rest.proc p).trapframe)) (top : sp < 256 ^ 8)
    (arguments : Arguments B s root (sz - userStack * pgsize) sz sp argv ptrs) (path)
    (entry) :
    Returns (do
      setTrapframe (g.rest.proc p).trapframe tfA1 sp
      assign p fun proc => { proc with name := lastName path }
      let s ← get
      let oldpagetable := (s.proc p).pagetable
      assign p fun proc => { proc with pagetable := root, sz := sz }
      setTrapframe (g.rest.proc p).trapframe tfEpc entry
      setTrapframe (g.rest.proc p).trapframe tfSp sp
      procFreepagetable B oldpagetable (g.rest.proc p).sz
      return (argv.length : Int)) s fun r t => r = argv.length ∧ Passed B p argv t := by
  have data : (g.owner (g.rest.proc p).trapframe).Data := by
    rw [own]
    trivial
  refine returns_modify_bind ?_
  refine (assign_kept (h.sound.store _ data) _).bind ?_
  rintro - t4 ⟨mem4, g4, sound4, set4⟩
  refine returns_get_bind ?_
  have proc4 := set4.proc
  rw [sound_proc sound4, proc4]
  refine (assign_kept sound4 _).bind ?_
  rintro - t5 ⟨mem5, g5, sound5, set5⟩
  have proc5 := set5.proc
  rw [proc4] at proc5
  have owner5 : g5.owner = g.owner := by rw [set5.owner, set4.owner]
  have data5 : (g5.owner (g.rest.proc p).trapframe).Data := by
    rw [owner5]
    exact data
  refine returns_modify_bind (returns_modify_bind ?_)
  have spent := set5.table (set4.table old)
  refine (framed (some p) (Q := fun _ _ _ _ => True) ((sound5.store _ data5).store _ data5) ?_).bind ?_
  · rintro g0 sound0 (rfl | rfl)
    · refine (procFree_returns ⟨sound0, spent⟩).mono ?_
      rintro - t ⟨g', sound', -, keeps'⟩
      exact ⟨g', sound', keeps', trivial⟩
    · refine (procFree_returns ⟨sound0, freeze_table spent⟩).mono ?_
      rintro - t ⟨g', sound', -, keeps'⟩
      exact ⟨g', sound', keeps', trivial⟩
  · rintro - t ⟨g', sound', keeps', untouched, -⟩
    have proc : t.proc p = g5.rest.proc p := by rw [sound_proc sound', keeps'.rest]
    have tf : (t.proc p).trapframe = (g.rest.proc p).trapframe := by rw [proc, proc5]
    have rooted : (t.proc p).pagetable = root := by rw [proc, proc5]
    have sized : (t.proc p).sz = sz := by rw [proc, proc5]
    have page : t.mem (g.rest.proc p).trapframe = setField (setField (setField
      (s.mem (g.rest.proc p).trapframe) tfA1 8 sp) tfEpc 8 entry) tfSp 8 sp := by
      rw [untouched _ (by rw [owner5, own]; simp [Within, Family])]
      simp [Kernel.store, mem5, mem4]
    have others : ∀ y, (∃ l v, g.owner y = .table none l v) ∨ (∃ v, g.owner y = .user none v) → t.mem y = s.mem y := by
      intro y new
      have ne : y ≠ (g.rest.proc p).trapframe := by
        rintro rfl
        rcases new with ⟨l, v, new⟩ | ⟨v, new⟩
        · rw [own] at new
          cases new
        · rw [own] at new
          cases new
      have out : ¬ Within (some p) (g5.owner y) := by
        rw [owner5]
        rcases new with ⟨l, v, new⟩ | ⟨v, new⟩ <;> rw [new] <;> simp [Within, Family]
      rw [untouched y out]
      simp [Kernel.store, mem5, mem4, ne]
    refine returns_pure ⟨rfl, ptrs, ?_⟩
    rw [rooted, sized, tf, page, register, field_set_other (by decide),
      field_set_other (by decide), field_setField_same _ _ _ _ (by decide),
      Nat.mod_eq_of_lt (by omega)]
    exact arguments.congr fun va => view_congr h (frames_res B _) others va

/-- The part of `exec` after the segments: whether the stack can be had does not depend on the
arguments. -/
lemma execCommit_args (path entry)
    (h : HasTable B g s none root UserFlags (Below sz) (frames B (g.rest.proc p).trapframe))
    (own : g.owner (g.rest.proc p).trapframe = .trapframe p)
    (old : Table g (some p) (g.rest.proc p).pagetable (fun _ => True) (Below (g.rest.proc p).sz)
      (frames B (g.rest.proc p).trapframe)) :
    ∃ early, ∀ argv, argv.length < maxArg → (∀ arg ∈ argv, arg.length < pgsize) →
      Returns (execCommit B p path argv entry root sz) s fun r t =>
        (r = -1 ↔ early ∨ ¬ Fits argv) ∧ (r ≠ -1 → r = argv.length ∧ Passed B p argv t) := by
  have res := frames_res B (g.rest.proc p).trapframe
  have size := HasTable.size_le h
  rw [← below_pages] at h
  have count := HasTable.count_le h
  have small : maxPages < maxVa / pgsize := by decide
  have stack : userStack * pgsize = 4096 ∧ (userStack + 1) * pgsize = 8192 ∧ pgsize = 4096 := by decide
  refine ⟨∃ t, uvmalloc B root (pages sz * pgsize) (pages sz * pgsize + (userStack + 1) * pgsize) pteW s =
    .ok (0, t), fun argv few short => ?_⟩
  unfold execCommit
  refine returns_get_bind ?_
  rw [sound_proc h.sound]
  dsimp only
  rw [pgRoundUp_eq size]
  refine (stack_leaves h res (show UserFlags stackPerm by unfold UserFlags; decide)
    (Nat.le_add_right _ _)).recorded.bind ?_
  rintro r t1 ⟨ran, g1, keeps1, ⟨rfl, table1⟩ | ⟨rfl, table1, leaves1⟩⟩
  · rw [if_pos rfl]
    refine (procFree_returns table1).bind fun _ _ _ => returns_pure ?_
    exact ⟨iff_of_true rfl (.inl ⟨t1, ran⟩), fun no => absurd rfl no⟩
  obtain ⟨guard, inside⟩ := stack_guard count
  rw [if_neg (by omega), guard]
  generalize newsz : pages sz * pgsize + (userStack + 1) * pgsize = sz1 at *
  have last : pages sz1 = pages sz + 2 := by
    rw [← newsz]
    unfold pages userStack pgsize
    omega
  have first : pages (pages sz * pgsize) = pages sz := by
    unfold pages pgsize
    omega
  rw [first, last] at leaves1
  obtain ⟨x, addrX, guardLeaf⟩ := leaves1 (pages sz) le_rfl (by omega)
  obtain ⟨y, addrY, stackLeaf⟩ := leaves1 (pages sz + 1) (by omega) (by omega)
  have below : (pages sz + 2) * pgsize ≤ maxVa := by
    have room : (maxPages + 2) * pgsize ≤ maxVa := by decide
    exact (Nat.mul_le_mul_right _ (by omega)).trans room
  refine (uvmclear_returns table1 inside (by omega)).recorded.bind ?_
  rintro ⟨⟩ t2 ⟨cleared, g2, table2, keeps2⟩
  have guardLow : pages sz * pgsize < maxVa := by
    rw [add_mul] at below
    omega
  have leaves2 := uvmclear_leaves (shape_table table1) guardLow guardLeaf
    (mapPte_lt (managedLimit addrX) (by decide)) (guard_flags x).1 () t2 cleared
  -- the two pages at the top
  have found : ∀ a, a < sz1 → lookup B t2 root a = leafAt t2.mem root (a / pgsize) := by
    intro a lt
    rw [add_mul] at below
    exact PageMap.lookup_eq (by omega)
  have whole : sz1 = (pages sz + 1 + 1) * pgsize := by
    rw [add_mul, add_mul]
    omega
  have base : sz1 - userStack * pgsize = (pages sz + 1) * pgsize := by
    rw [add_mul]
    omega
  have room : ∀ a, sz1 - userStack * pgsize ≤ a → a < sz1 → Writable B t2 root a := by
    intro a lo hi
    have page : a / pgsize = pages sz + 1 := Nat.div_eq_of_lt_le (by omega) (by omega)
    have here : lookup B t2 root a = some (mapPte y stackPerm) := by
      rw [found a hi, page, leaves2, if_neg (by omega), stackLeaf]
    refine ⟨_, lookup_lt here, _, here, ?_, ?_, rfl⟩
    · rw [mapPte_flags y (by decide)]
      decide
    · rw [mapPte_flags y (by decide)]
      decide
  have hidden : ∀ a, sz1 - userStack * pgsize - pgsize ≤ a → a < sz1 - userStack * pgsize →
    userPte B t2 root a = none := by
    intro a lo hi
    have page : a / pgsize = pages sz := Nat.div_eq_of_lt_le (by omega) (by omega)
    rw [userPte, found a (by omega), page, leaves2, if_pos rfl, Option.filter_some, (guard_flags x).2]
    rfl
  have aligned : sz1 % 16 = 0 := by
    rw [whole]
    exact Nat.mod_eq_zero_of_dvd (dvd_mul_of_dvd_right (by decide) _)
  have top : sz1 < 2 ^ 64 := by
    have limit : maxVa < 2 ^ 64 := by decide
    rw [add_mul] at below
    omega
  refine (pushStack_spec (separate_table table2 res) room aligned (by omega) top few short).recorded.bind ?_
  rintro pushed t3 ⟨ran3, touched, good, bad⟩
  have sound3 := (pushStack_returns table2 res sz1 argv).ensures pushed t3 ran3
  have never : ¬ ∃ t, uvmalloc B root (pages sz * pgsize) sz1 pteW s = .ok (0, t) := by
    rintro ⟨t, other⟩
    rw [ran] at other
    have zero := congrArg Prod.fst (Except.ok.inj other)
    omega
  by_cases fits : Fits argv
  swap
  · rw [bad fits]
    refine (procFree_returns ⟨sound3, table2.space⟩).bind fun _ _ _ => returns_pure ?_
    exact ⟨iff_of_true rfl (.inr fits), fun no => absurd rfl no⟩
  obtain ⟨rfl, strings, array⟩ := good fits
  have arguments := arguments_of_push touched aligned (by omega) fits room hidden strings array
  have upTo := keeps1.trans keeps2
  have mine : g2.owner (g.rest.proc p).trapframe = .trapframe p := (upTo.owner _ _ (by simp [Family])).mpr own
  have spent := Table.keeps old upTo (by simp)
  rw [← upTo.rest] at mine spent ⊢
  have low : stackTop sz1 argv < 256 ^ 8 := by
    unfold stackTop
    omega
  refine (commit_passed (by rw [upTo.rest]; exact ⟨sound3, table2.space⟩) mine spent low arguments path entry).mono ?_
  rintro r t ⟨rfl, passed⟩
  refine ⟨iff_of_false (by omega) ?_, fun _ => ⟨rfl, passed⟩⟩
  rintro (failed | none_)
  · exact never failed
  · exact none_ fits

/-- Whether `exec` can load the program does not depend on the arguments. -/
lemma exec_args (h : Sound B g s) (inv : Inv B g args) (live : (g.rest.proc p).state ≠ .unused) (fs path) :
    ∃ early, ∀ argv, argv.length < maxArg → (∀ arg ∈ argv, arg.length < pgsize) →
      Returns (exec B fs p path argv) s fun r t =>
        (r = -1 ↔ early ∨ ¬ Fits argv) ∧ (r ≠ -1 → r = argv.length ∧ Passed B p argv t) := by
  obtain ⟨tf, own, old⟩ := (inv.settled p).live live
  have addr : PageAddr (s.proc p).trapframe := by
    rw [sound_proc h]
    exact (h.managed_of (by simp [own])).pageAddr
  have fails : ∀ (argv : List (List UInt8)) (t : Kernel n), ((-1 : Int) = -1 ↔ True ∨ ¬ Fits argv) ∧
    ((-1 : Int) ≠ -1 → (-1 : Int) = argv.length ∧ Passed B p argv t) := fun argv t =>
    ⟨iff_of_true rfl (.inl trivial), fun no => absurd rfl no⟩
  unfold exec
  cases fs path with
  | none => exact ⟨True, fun argv _ _ => returns_pure (fails argv s)⟩
  | some file =>
    dsimp only
    split_ifs with short magic
    · exact ⟨True, fun argv _ _ => returns_pure (fails argv s)⟩
    · exact ⟨True, fun argv _ _ => returns_pure (fails argv s)⟩
    · obtain ⟨root, t1, ran1, g1, keeps1, ⟨rfl, -, -⟩ | ⟨pos, table⟩⟩ := procPagetable_returns h inv.spare addr
      · refine ⟨True, fun argv _ _ => returns_bind_eq ran1 ?_⟩
        rw [if_pos rfl]
        exact returns_pure (fails argv t1)
      · obtain ⟨⟨loaded, sz⟩, t2, ran2, g2, table2, keeps2⟩ := loadSegments_returns (frames_res _ _) table
        have upTo := keeps1.trans keeps2
        cases loaded with
        | false =>
          refine ⟨True, fun argv _ _ => returns_bind_eq ran1 ?_⟩
          rw [if_neg pos]
          refine returns_bind_eq ran2 ?_
          rw [if_neg Bool.false_ne_true]
          exact (procFree_returns table2).bind fun _ t _ => returns_pure (fails argv t)
        | true =>
          rw [sound_proc h, ← upTo.rest] at table2
          have mine := (upTo.owner _ _ (by simp [Family])).mpr own
          have spent := Table.keeps old upTo (by simp)
          rw [← upTo.rest] at mine spent
          obtain ⟨early, rest⟩ := execCommit_args path (leAt (readi file 0 elfHeaderSize) 24 8) table2 mine spent
          refine ⟨early, fun argv few short => returns_bind_eq ran1 ?_⟩
          rw [if_neg pos]
          refine returns_bind_eq ran2 ?_
          rw [if_pos rfl]
          exact rest argv few short

/-- A program that `exec` starts finds its arguments on the stack; and apart from what would fail
without arguments, `exec` fails exactly when they do not fit. -/
theorem exec_passes_arguments (ok : Consistent B s) (live : (s.proc p).state ≠ .unused)
    (fs : List UInt8 → Option (List UInt8)) (path : List UInt8) (few : argv.length < maxArg)
    (short : ∀ arg ∈ argv, arg.length < pgsize) :
    ∃ r t, exec B fs p path argv s = .ok (r, t) ∧ (r ≠ -1 → r = argv.length ∧ Passed B p argv t) ∧
      (r = -1 ↔ ¬ Fits argv ∨ ∃ t', exec B fs p path [] s = .ok (-1, t')) := by
  obtain ⟨g, args, h, inv⟩ := ok
  rw [sound_proc h] at live
  obtain ⟨early, spec⟩ := exec_args h inv live fs path
  obtain ⟨r, t, ran, fails, good⟩ := spec argv few short
  obtain ⟨r₀, t₀, ran₀, fails₀, -⟩ := spec [] (by decide) (by simp)
  have always : Fits [] := by
    unfold Fits
    decide
  refine ⟨r, t, ran, good, fails.trans ?_⟩
  rw [or_comm]
  refine or_congr Iff.rfl ⟨fun yes => ?_, ?_⟩
  · rw [← fails₀.mpr (.inl yes)]
    exact ⟨t₀, ran₀⟩
  · rintro ⟨t', other⟩
    rw [ran₀] at other
    have minus : r₀ = -1 := congrArg Prod.fst (Except.ok.inj other)
    exact (fails₀.mp minus).resolve_right (not_not.mpr always)

theorem exec_passes_arguments_boot : ∃ s : Kernel 2, Reachable smallBoard 0 s ∧ (s.proc 0).state ≠ .unused ∧
    Fits [[97], [98, 99]] ∧ ∀ fs, ∃ r t, exec smallBoard fs 0 [47] [[97], [98, 99]] s = .ok (r, t) ∧
      (r ≠ -1 → Passed smallBoard 0 [[97], [98, 99]] t) ∧
      (r = -1 → ∃ t', exec smallBoard fs 0 [47] [] s = .ok (-1, t')) := by
  obtain ⟨s, -, booted, live, -, -⟩ := small_boots
  have reach : Reachable smallBoard 0 s := ⟨s, [], booted, .nil s⟩
  have used : (s.proc 0).state ≠ .unused := by simp [live]
  have fits : Fits [[97], [98, 99]] := by
    unfold Fits
    decide
  refine ⟨s, reach, used, fits, fun fs => ?_⟩
  obtain ⟨r, t, ran, good, fails⟩ := exec_passes_arguments (reachable_consistent reach) used fs [47]
    (show ([[97], [98, 99]] : List (List UInt8)).length < maxArg by decide) (by decide)
  exact ⟨r, t, ran, fun done => (good done).2, fun failed => (fails.mp failed).resolve_left (not_not.mpr fits)⟩

end Xv6.ExecArgs
