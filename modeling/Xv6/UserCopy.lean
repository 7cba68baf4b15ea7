import Xv6.PageMap

/-! The kernel's access to user memory, byte by byte. A range of user addresses is copied
page by page; each page is looked up again, below `MAXVA` and with the flags that the
access needs. -/

namespace Xv6.UserCopy

open ByteFields VmMachine VmProc PageTable PageMap Total Function Option
open List (map_congr_left append_nil append_assoc length_append length_take)

variable {n : Nat} {B : Board} {s t : Kernel n} {root va : Nat}

def userPte (B : Board) (s : Kernel n) (root va : Nat) : Option Nat :=
  (lookup B s root va).filter fun pte => pte &&& pteU ≠ 0

def Readable (B : Board) (s : Kernel n) (root va : Nat) : Prop :=
  va < maxVa ∧ ∃ pte, lookup B s root va = some pte ∧ pte &&& pteU ≠ 0

def WritableIn (B : Board) (s : Kernel n) (root va pa : Nat) : Prop :=
  va < maxVa ∧ ∃ pte, lookup B s root va = some pte ∧ pte &&& pteU ≠ 0 ∧ pte &&& pteW ≠ 0 ∧
    pte2pa pte = pa

def Writable (B : Board) (s : Kernel n) (root va : Nat) : Prop :=
  ∃ pa, WritableIn B s root va pa

def userByte (B : Board) (s : Kernel n) (root va : Nat) : UInt8 :=
  match userPte B s root va with
  | some pte => byteAt (s.mem (pte2pa pte)) (va % pgsize)
  | none => 0

def userBytes (B : Board) (s : Kernel n) (root va len : Nat) : List UInt8 :=
  (List.range len).map fun k => userByte B s root (va + k)

/-- Pages that user code reaches are pages of their own, as `kalloc` hands them out: not the
null page, not shared by two virtual pages, and not pages of the table. -/
structure Separate (B : Board) (s : Kernel n) (root : Nat) : Prop where
  nonzero : ∀ va pte, userPte B s root va = some pte → pte2pa pte ≠ 0
  distinct : ∀ va va' pte pte', userPte B s root va = some pte → userPte B s root va' = some pte' →
    pte2pa pte = pte2pa pte' → va / pgsize = va' / pgsize
  table : ∀ va pte, userPte B s root va = some pte → ¬ InTree s.mem root (pte2pa pte)

lemma lookup_high (high : maxVa ≤ va) : lookup B s root va = none := by
  have panics : walk B root va false s = .error "walk" := by
    unfold walk
    rw [if_pos high]
    rfl
  unfold lookup
  rw [panics]

lemma lookup_page_eq (same : va / pgsize = va' / pgsize) : lookup B s root va = lookup B s root va' := by
  have whole : maxVa = 67108864 * pgsize := by decide
  by_cases low : va < maxVa
  · have low' : va' < maxVa := by
      unfold pgsize at *
      omega
    rw [lookup_eq low, lookup_eq low', same]
  · have high' : maxVa ≤ va' := by
      unfold pgsize at *
      omega
    rw [lookup_high (by omega), lookup_high high']

lemma userPte_page_eq (same : va / pgsize = va' / pgsize) : userPte B s root va = userPte B s root va' := by
  rw [userPte, userPte, lookup_page_eq same]

lemma userPte_eq_some : userPte B s root va = some pte ↔ lookup B s root va = some pte ∧ pte &&& pteU ≠ 0 := by
  simp [userPte, filter_eq_some_iff]

lemma lookup_lt (h : lookup B s root va = some pte) : va < maxVa := by
  by_contra high
  rw [lookup_high (by omega)] at h
  cases h

lemma readable_iff : Readable B s root va ↔ (userPte B s root va).isSome := by
  constructor
  · rintro ⟨-, pte, here, user⟩
    rw [userPte_eq_some.mpr ⟨here, user⟩]
    rfl
  · intro some'
    obtain ⟨pte, eq⟩ := isSome_iff_exists.mp some'
    obtain ⟨here, user⟩ := userPte_eq_some.mp eq
    exact ⟨lookup_lt here, pte, here, user⟩

lemma WritableIn.page (h : WritableIn B s root va pa)
    (same : va / pgsize = va' / pgsize) : WritableIn B s root va' pa := by
  obtain ⟨-, pte, here, rest⟩ := h
  rw [lookup_page_eq same] at here
  exact ⟨lookup_lt here, pte, here, rest⟩

lemma WritableIn.userPte (h : WritableIn B s root va pa) : ∃ pte, userPte B s root va = some pte ∧ pte2pa pte = pa := by
  obtain ⟨-, pte, here, user, -, eq⟩ := h
  exact ⟨pte, userPte_eq_some.mpr ⟨here, user⟩, eq⟩

lemma lookup_store (out : ¬ InTree s.mem root x) (va) : lookup B (s.store x page) root va = lookup B s root va := by
  have same : ∀ y, InTree s.mem root y → (s.store x page).mem y = s.mem y := by
    intro y inside
    refine update_of_ne ?_ ..
    rintro rfl
    exact out inside
  by_cases low : va < maxVa
  · rw [lookup_eq low, lookup_eq low, leafAt_congr same]
  · rw [lookup_high (by omega), lookup_high (by omega)]

lemma inTree_store (out : ¬ InTree s.mem root x) : InTree (s.store x page).mem root y ↔ InTree s.mem root y := by
  refine inTree_congr fun d v hd => tableAt_congr (fun y inside => ?_) hd v
  refine update_of_ne ?_ ..
  rintro rfl
  exact out inside

lemma walkaddr_eq (va) : walkaddr B root va s = .ok ((userPte B s root va).elim 0 pte2pa, s) := by
  unfold walkaddr
  by_cases high : maxVa ≤ va
  · rw [if_pos high, userPte, lookup_high high]
    rfl
  · have low : va < maxVa := by omega
    rw [if_neg high, bind_of_eq (walk_lookup low), userPte, lookup_eq low, leafAt]
    cases tableAt s.mem root 2 (va / pgsize / 512) with
    | none => rfl
    | some x =>
      rw [map_some, bind_some, px_zero]
      dsimp only
      rw [bind_of_eq rfl]
      cases entry : valid (s.mem x) (va / pgsize % 512) with
      | none =>
        rw [if_pos (valid_eq_none.mp entry)]
        rfl
      | some w =>
        obtain ⟨word, ok⟩ := valid_inv entry
        rw [word, if_neg ok]
        by_cases kernel : w &&& pteU = 0
        · rw [if_pos kernel]
          simp only [filter_some, kernel]
          rfl
        · rw [if_neg kernel]
          simp only [filter_some, ne_eq, kernel, not_false_eq_true, decide_true, if_true]
          rfl

lemma roundDown_div (va) : pgRoundDown va / pgsize = va / pgsize := by exact Nat.mul_div_cancel _ (by decide)

lemma roundDown_le (va) : pgRoundDown va ≤ va := Nat.div_mul_le_self ..

lemma first_page (lo : va ≤ x) (hi : x < va + count)
    (fits : count ≤ pgsize - (va - pgRoundDown va)) : x / pgsize = va / pgsize := by
  unfold pgRoundDown pgsize at *
  omega

lemma offset_eq : va - pgRoundDown va = va % pgsize := by
  unfold pgRoundDown pgsize
  omega

lemma offset_add (hk : k < count) (fits : count ≤ pgsize - (va - pgRoundDown va)) :
    (va + k) % pgsize = va - pgRoundDown va + k := by
  unfold pgRoundDown pgsize at *
  omega

lemma peek_eq (here : userPte B s root srcva = some pte) (fits : count ≤ pgsize - (srcva - pgRoundDown srcva)) :
    peekBytes (s.mem (pte2pa pte)) (srcva - pgRoundDown srcva) count = userBytes B s root srcva count := by
  refine map_congr_left fun k mem => ?_
  have hk := List.mem_range.mp mem
  have page : (srcva + k) / pgsize = srcva / pgsize := first_page (Nat.le_add_right ..) (by omega) fits
  rw [userByte, userPte_page_eq page, here]
  rw [offset_add hk fits]

lemma userBytes_append (va a b) : userBytes B s root va (a + b) =
    userBytes B s root va a ++ userBytes B s root (va + a) b := by
  unfold userBytes
  rw [List.range_add, List.map_append, List.map_map]
  congr 1
  refine map_congr_left fun k _ => ?_
  rw [comp_apply, add_assoc]

lemma userBytes_ext (h : ∀ k (hk : k < bytes.length), userByte B s root (va + k) = bytes[k]) :
    userBytes B s root va bytes.length = bytes := by
  unfold userBytes
  refine List.ext_getElem (by simp) fun k hk hk' => ?_
  rw [List.getElem_map, List.getElem_range, h k hk']

lemma next_start (eq : count = min (pgsize - (va - pgRoundDown va)) len)
    (more : count < len) : pgRoundDown va + pgsize = va + count := by
  unfold pgRoundDown pgsize at *
  omega

lemma copyinFrom_spec (sep : Separate B s root) (fuel) : ∀ srcva len dst, len ≤ fuel →
    Returns (copyinFrom B root fuel srcva len dst) s fun r t => t = s ∧
      (r.isSome ↔ ∀ va, srcva ≤ va → va < srcva + len → Readable B s root va) ∧
      ∀ bytes, r = some bytes → bytes = dst ++ userBytes B s root srcva len := by
  induction fuel with
  | zero =>
    intro srcva len dst le
    obtain rfl : len = 0 := by omega
    refine returns_pure ⟨rfl, ⟨fun _ va lo hi => by omega, fun _ => rfl⟩, fun bytes eq => ?_⟩
    rw [← some.inj eq]
    exact (append_nil _).symm
  | succ fuel ih =>
    intro srcva len dst le
    unfold copyinFrom
    by_cases done : len = 0
    · subst done
      rw [if_pos rfl]
      refine returns_pure ⟨rfl, ⟨fun _ va lo hi => by omega, fun _ => rfl⟩, fun bytes eq => ?_⟩
      rw [← some.inj eq]
      exact (append_nil _).symm
    rw [if_neg done]
    dsimp only
    refine Returns.bind (Q := fun r t => t = s ∧ r = (userPte B s root srcva).elim 0 pte2pa)
      ⟨_, _, walkaddr_eq _, rfl, by rw [userPte_page_eq (roundDown_div srcva)]⟩ ?_
    rintro pa t ⟨rfl, rfl⟩
    cases here : userPte B t root srcva with
    | none =>
      rw [elim_none, if_pos rfl]
      refine returns_pure ⟨rfl, ⟨nofun, fun all => ?_⟩, nofun⟩
      have bad := all srcva le_rfl (by omega)
      rw [readable_iff, here] at bad
      cases bad
    | some pte =>
      rw [elim_some, if_neg (sep.nonzero srcva pte here)]
      refine returns_get_bind ?_
      have first : ∀ va, srcva ≤ va → va < srcva + min (pgsize - (srcva - pgRoundDown srcva)) len →
        Readable B t root va := by
        intro va lo hi
        have page := first_page lo hi (min_le_left ..)
        rw [readable_iff, userPte_page_eq page, here]
        rfl
      rw [peek_eq here (min_le_left ..)]
      generalize hc : min (pgsize - (srcva - pgRoundDown srcva)) len = count at *
      have pos : 0 < count := by
        have low := Nat.mod_lt srcva (by decide : pgsize > 0)
        rw [← hc, offset_eq]
        omega
      refine (ih (pgRoundDown srcva + pgsize) (len - count) _ (by omega)).mono ?_
      rintro r u ⟨rfl, success, value⟩
      by_cases last : len = count
      · -- nothing is left for the next page
        subst last
        rw [Nat.sub_self] at success value
        refine ⟨rfl, ⟨fun _ => first, fun _ => success.mpr fun va lo hi => by omega⟩, fun bytes eq => ?_⟩
        rw [value bytes eq]
        exact append_nil _
      · have start := next_start hc.symm (by omega)
        rw [start] at success value
        refine ⟨rfl, ⟨fun yes va lo hi => ?_, fun all => success.mpr fun va lo hi => all va (by omega) (by omega)⟩,
          fun bytes eq => ?_⟩
        · by_cases near : va < srcva + count
          · exact first va lo near
          · exact success.mp yes va (by omega) (by omega)
        · rw [value bytes eq, append_assoc, ← userBytes_append]
          congr 2
          omega

/-- `t` is `s` after `bytes` has been written to user memory from `dstva` on, and nothing else. -/
structure Copied (B : Board) (root dstva : Nat) (bytes : List UInt8) (s t : Kernel n) : Prop where
  frame : t = { s with mem := t.mem }
  entries : ∀ va, lookup B t root va = lookup B s root va
  table : ∀ x, InTree t.mem root x ↔ InTree s.mem root x
  writable : ∀ k, k < bytes.length → Writable B s root (dstva + k)
  stored : userBytes B t root dstva bytes.length = bytes
  confined : ∀ x off, byteAt (t.mem x) off ≠ byteAt (s.mem x) off →
    ∃ k, k < bytes.length ∧ WritableIn B s root (dstva + k) x ∧ (dstva + k) % pgsize = off

variable {dstva : Nat} {bytes more : List UInt8} {u : Kernel n}

section
variable (h : Copied B root dstva bytes s t)
include h

lemma Copied.userPte_eq (va) : userPte B t root va = userPte B s root va := by rw [userPte, userPte, h.entries]

lemma Copied.separate (sep : Separate B s root) : Separate B t root := by
  refine ⟨fun va pte eq => ?_, fun va va' pte pte' eq eq' => ?_, fun va pte eq => ?_⟩
  · exact sep.nonzero va pte (h.userPte_eq va ▸ eq)
  · exact sep.distinct va va' pte pte' (h.userPte_eq va ▸ eq) (h.userPte_eq va' ▸ eq')
  · rw [h.table]
    exact sep.table va pte (h.userPte_eq va ▸ eq)

lemma Copied.writableIn_iff : WritableIn B t root va pa ↔ WritableIn B s root va pa := by
  unfold WritableIn
  rw [h.entries]

lemma Copied.outside (sep : Separate B s root)
    (out : va < dstva ∨ dstva + bytes.length ≤ va) : userByte B t root va = userByte B s root va := by
  unfold userByte
  rw [h.userPte_eq]
  cases here : userPte B s root va with
  | none => rfl
  | some pte =>
    by_contra changed
    obtain ⟨k, hk, inside, off⟩ := h.confined _ _ changed
    obtain ⟨pte', here', eq⟩ := inside.userPte
    have page := sep.distinct _ _ _ _ here here' eq.symm
    have same : va = dstva + k := by
      rw [← Nat.div_add_mod va pgsize, ← Nat.div_add_mod (dstva + k) pgsize, page, off]
    omega

end

lemma copied_nil : Copied B root dstva [] s s :=
  ⟨rfl, fun _ => rfl, fun _ => Iff.rfl, fun _ h => absurd h (Nat.not_lt_zero _), rfl, fun _ _ h => absurd rfl h⟩

lemma Copied.nothing (h : Copied B root dstva [] s t) (va) : Copied B root va [] s t := by
  refine ⟨h.frame, h.entries, h.table, nofun, rfl, fun x off changed => ?_⟩
  obtain ⟨k, hk, -⟩ := h.confined x off changed
  exact absurd hk (Nat.not_lt_zero k)

lemma Copied.trans (first : Copied B root dstva bytes s t) (sep : Separate B s root)
    (second : Copied B root (dstva + bytes.length) more t u) :
    Copied B root dstva (bytes ++ more) s u := by
  have early : userBytes B u root dstva bytes.length = userBytes B t root dstva bytes.length := by
    refine map_congr_left fun k mem => ?_
    have hk := List.mem_range.mp mem
    exact second.outside (first.separate sep) (.inl (by omega))
  refine ⟨?_, fun va => ?_, fun x => ?_, fun k hk => ?_, ?_, fun x off changed => ?_⟩
  · rw [second.frame, first.frame]
  · rw [second.entries, first.entries]
  · rw [second.table, first.table]
  · rw [length_append] at hk
    by_cases near : k < bytes.length
    · exact first.writable k near
    · obtain ⟨pa, there⟩ := second.writable (k - bytes.length) (by omega)
      rw [first.writableIn_iff, show dstva + bytes.length + (k - bytes.length) = dstva + k by omega] at there
      exact ⟨pa, there⟩
  · rw [length_append, userBytes_append, early, first.stored, second.stored]
  · rw [length_append]
    by_cases later : byteAt (u.mem x) off = byteAt (t.mem x) off
    · rw [later] at changed
      obtain ⟨k, hk, rest⟩ := first.confined x off changed
      exact ⟨k, by omega, rest⟩
    · obtain ⟨k, hk, inside, eq⟩ := second.confined x off later
      rw [first.writableIn_iff] at inside
      rw [add_assoc] at inside eq
      exact ⟨bytes.length + k, by omega, inside, eq⟩

lemma copied_page (sep : Separate B s root) (here : WritableIn B s root dstva pa)
    (fits : bytes.length ≤ pgsize - (dstva - pgRoundDown dstva)) :
    Copied B root dstva bytes s (s.store pa (pokeBytes (s.mem pa) (dstva - pgRoundDown dstva) bytes)) := by
  obtain ⟨pte, entry, rfl⟩ := here.userPte
  have out := sep.table dstva pte entry
  have whole : ∀ k, k < bytes.length → (dstva + k) / pgsize = dstva / pgsize := fun k hk =>
    first_page (Nat.le_add_right ..) (by omega) fits
  have offset : ∀ k, k < bytes.length → (dstva + k) % pgsize = dstva - pgRoundDown dstva + k := fun k hk =>
    offset_add hk fits
  refine ⟨rfl, fun va => lookup_store out va, fun x => inTree_store out, fun k hk => ?_, ?_, fun x off changed => ?_⟩
  · exact ⟨_, here.page (whole k hk).symm⟩
  · refine userBytes_ext fun k hk' => ?_
    have here' : userPte B (s.store (pte2pa pte)
      (pokeBytes (s.mem (pte2pa pte)) (dstva - pgRoundDown dstva) bytes)) root (dstva + k) = some pte := by
      rw [userPte, lookup_store out, lookup_page_eq (whole k hk'), ← userPte, entry]
    have inside := Nat.mod_lt (dstva + k) (by decide : pgsize > 0)
    rw [userByte, here']
    dsimp only [Kernel.store]
    rw [update_self, poke_inside _ _ _ inside (by rw [offset k hk']; omega)
      (by rw [offset k hk']; omega), offset k hk', Nat.add_sub_cancel_left,
      List.getD_eq_getElem _ _ hk']
  · dsimp only [Kernel.store] at changed
    by_cases same : x = pte2pa pte
    · subst same
      rw [update_self] at changed
      by_cases apart : off < dstva - pgRoundDown dstva ∨ dstva - pgRoundDown dstva + bytes.length ≤ off
      · exact absurd (poke_outside _ _ _ apart) changed
      · have hk : off - (dstva - pgRoundDown dstva) < bytes.length := by omega
        refine ⟨_, hk, here.page (whole _ hk).symm, ?_⟩
        rw [offset _ hk]
        omega
    · rw [update_of_ne same] at changed
      exact absurd rfl changed

lemma lookup_table (low : va < maxVa) : lookup B s root va = (tableAt s.mem root 2 (va / pgsize / 512)).bind fun x =>
    valid (s.mem x) (va / pgsize % 512) :=
  lookup_eq low

lemma writableIn_entry (low : va < maxVa) (table : tableAt s.mem root 2 (va / pgsize / 512) = some x)
    (read : pteAt (s.mem x) (va / pgsize % 512) = pte) :
    WritableIn B s root va pa ↔ ¬ (pte &&& pteV = 0 ∨ pte &&& pteU = 0 ∨ pte &&& pteW = 0) ∧ pte2pa pte = pa := by
  unfold WritableIn
  rw [lookup_table low, table, bind_some]
  constructor
  · rintro ⟨-, pte', entry, user, write, eq⟩
    obtain ⟨word, ok⟩ := valid_inv entry
    rw [read] at word
    subst word
    exact ⟨fun bad => bad.elim ok fun bad => bad.elim user write, eq⟩
  · rintro ⟨flags, eq⟩
    push Not at flags
    refine ⟨low, pte, ?_, flags.2.1, flags.2.2, eq⟩
    rw [valid, read, if_pos flags.1]

/-- `copyout` writes its bytes in order, up to the first page that may not be written. -/
lemma copyoutFrom_spec (fuel) :
    ∀ (s : Kernel n) (dstva : Nat) (src : List UInt8), Separate B s root → src.length ≤ fuel →
      Returns (copyoutFrom B root fuel dstva src) s fun ok t =>
        ∃ count, count ≤ src.length ∧ Copied B root dstva (src.take count) s t ∧ (ok = true → count = src.length) ∧
          (ok = false → count < src.length ∧ ¬ Writable B s root (dstva + count)) := by
  induction fuel with
  | zero =>
    intro s dstva src _ le
    refine returns_pure ⟨0, Nat.zero_le _, copied_nil, fun _ => by omega, nofun⟩
  | succ fuel ih =>
    intro s dstva src sep le
    unfold copyoutFrom
    by_cases empty : src.isEmpty
    · rw [if_pos empty]
      obtain rfl := List.isEmpty_iff.mp empty
      exact returns_pure ⟨0, le_rfl, copied_nil, fun _ => rfl, nofun⟩
    have pos : 0 < src.length := by
      rw [List.length_pos_iff]
      exact fun nil => empty (List.isEmpty_iff.mpr nil)
    rw [if_neg empty]
    dsimp only
    by_cases high : maxVa ≤ pgRoundDown dstva
    · rw [if_pos high]
      refine returns_pure ⟨0, Nat.zero_le _, copied_nil, nofun, fun _ => ⟨pos, ?_⟩⟩
      rintro ⟨pa, low, -⟩
      have le := roundDown_le dstva
      omega
    have low : pgRoundDown dstva < maxVa := by omega
    have same := roundDown_div dstva
    rw [if_neg high]
    have stop : (∀ pa, ¬ WritableIn B s root dstva pa) → Returns (pure false : K n Bool) s fun ok t =>
          ∃ count, count ≤ src.length ∧ Copied B root dstva (src.take count) s t ∧ (ok = true → count = src.length) ∧
            (ok = false → count < src.length ∧ ¬ Writable B s root (dstva + count)) := by
      intro bad
      refine returns_pure ⟨0, Nat.zero_le _, copied_nil, nofun, fun _ => ⟨pos, ?_⟩⟩
      rintro ⟨pa, here⟩
      exact bad pa here
    rw [Returns, bind_of_eq (walk_lookup low), ← Returns]
    cases table : tableAt s.mem root 2 (pgRoundDown dstva / pgsize / 512) with
    | none =>
      refine stop fun pa here => ?_
      obtain ⟨-, pte, entry, -⟩ := here.page same.symm
      rw [lookup_table low, table] at entry
      cases entry
    | some x =>
      rw [map_some, px_zero]
      refine Returns.bind (Q := fun pte t => s = t ∧ pteAt (s.mem x) (pgRoundDown dstva / pgsize % 512) = pte)
        ⟨_, _, rfl, rfl, rfl⟩ ?_
      intro pte t read
      obtain ⟨rfl, read⟩ := read
      split
      · rename_i bad
        refine stop fun pa here => ?_
        exact ((writableIn_entry low table read).mp (here.page same.symm)).1 bad
      · rename_i good
        have here : WritableIn B s root dstva (pte2pa pte) :=
          ((writableIn_entry low table read).mpr ⟨good, rfl⟩).page same
        refine returns_modify_bind ?_
        generalize hc : pgsize - (dstva - pgRoundDown dstva) = room
        have room_pos : 0 < room := by
          have low := Nat.mod_lt dstva (by decide : pgsize > 0)
          rw [← hc, offset_eq]
          omega
        have first : Copied B root dstva (src.take room) s _ :=
          copied_page sep here (by rw [List.length_take]; omega)
        have taken : (src.take room).length = min room src.length := List.length_take
        have left : (src.drop room).length = src.length - room := List.length_drop
        refine (ih _ (pgRoundDown dstva + pgsize) (src.drop room) (first.separate sep) (by omega)).mono ?_
        rintro ok t ⟨count, le', second, yes, no⟩
        by_cases last : src.length ≤ room
        · -- the whole of `src` fits on this page
          have none_left := List.drop_eq_nil_of_le last
          rw [none_left, List.take_nil] at second
          have all := first.trans sep (second.nothing _)
          rw [List.append_nil, List.take_of_length_le last] at all
          refine ⟨src.length, le_rfl, by rwa [List.take_length], fun _ => rfl, fun failed => ?_⟩
          have := (no failed).1
          omega
        · have start : pgRoundDown dstva + pgsize = dstva + (src.take room).length := by
            have eq : min room src.length = min (pgsize - (dstva - pgRoundDown dstva)) src.length := by rw [hc]
            rw [taken]
            exact next_start eq (by omega)
          rw [start] at second no
          have all := first.trans sep second
          rw [← List.take_add] at all
          refine ⟨room + count, by omega, all, fun good => ?_, fun bad => ⟨?_, ?_⟩⟩
          · have := yes good
            omega
          · have := (no bad).1
            omega
          · rintro ⟨pa, there⟩
            refine (no bad).2 ⟨pa, first.writableIn_iff.mpr ?_⟩
            rwa [taken, Nat.min_eq_left (by omega), Nat.add_assoc]

/-- The inner loop of `copyinstr`: the bytes of one page up to a `NUL`, appended to `dst`. -/
def scan (page : Bytes pgsize) : Nat → Nat → List UInt8 → Bool × List UInt8
  | 0, _, dst => (false, dst)
  | count + 1, p, dst =>
    if byteAt page p = 0 then (true, dst ++ [0])
    else scan page count (p + 1) (dst ++ [byteAt page p])

/-- The loop of `copyinstr` with everything that it writes to `dst`; the flag is `got_null`. -/
def copyinstrInto (B : Board) (pagetable : Nat) : Nat → Nat → Nat → List UInt8 → K n (Bool × List UInt8)
  | 0, _, _, dst => return (false, dst)
  | fuel + 1, srcva, max, dst =>
    if max = 0 then return (false, dst)
    else do
      let va0 := pgRoundDown srcva
      let pa0 ← walkaddr B pagetable va0
      if pa0 = 0 then return (false, dst)
      else
        let count := min (pgsize - (srcva - va0)) max
        let s ← get
        let (gotNull, dst) := scan (s.mem pa0) count (srcva - va0) dst
        if gotNull then return (true, dst)
        else copyinstrInto B pagetable fuel (va0 + pgsize) (max - count) dst

structure Terminated (B : Board) (s : Kernel n) (root srcva k : Nat) : Prop where
  readable : ∀ va, srcva ≤ va → va ≤ srcva + k → Readable B s root va
  nul : userByte B s root (srcva + k) = 0
  text : ∀ j, j < k → userByte B s root (srcva + j) ≠ 0

lemma peekBytes_succ (page : Bytes pgsize) (off count) :
    peekBytes page off (count + 1) = byteAt page off :: peekBytes page (off + 1) count := by
  unfold peekBytes
  rw [List.range_succ_eq_map, List.map_cons, List.map_map]
  congr 1
  refine map_congr_left fun k _ => ?_
  rw [comp_apply]
  congr 1
  omega

lemma scan_spec (page : Bytes pgsize) (count) : ∀ p dst,
    (∃ k, k < count ∧ byteAt page (p + k) = 0 ∧ (∀ j, j < k → byteAt page (p + j) ≠ 0) ∧
      scan page count p dst = (true, dst ++ peekBytes page p (k + 1))) ∨
    (∀ j, j < count → byteAt page (p + j) ≠ 0) ∧ scan page count p dst = (false, dst ++ peekBytes page p count) := by
  induction count with
  | zero => exact fun p dst => .inr ⟨nofun, by rw [scan]; exact congrArg _ (append_nil _).symm⟩
  | succ count ih =>
    intro p dst
    rw [scan]
    by_cases nul : byteAt page p = 0
    · rw [if_pos nul]
      refine .inl ⟨0, Nat.succ_pos _, nul, nofun, ?_⟩
      rw [peekBytes_succ, nul]
      rfl
    · rw [if_neg nul]
      rcases ih (p + 1) (dst ++ [byteAt page p]) with ⟨k, hk, zero, text, eq⟩ | ⟨text, eq⟩
      · refine .inl ⟨k + 1, by omega, ?_, fun j hj => ?_, ?_⟩
        · rw [← zero]
          congr 1
          omega
        · cases j with
          | zero => exact nul
          | succ j =>
            rw [show p + (j + 1) = p + 1 + j by omega]
            exact text j (by omega)
        · rw [eq, peekBytes_succ page p, append_assoc, List.singleton_append]
      · refine .inr ⟨fun j hj => ?_, ?_⟩
        · cases j with
          | zero => exact nul
          | succ j =>
            rw [show p + (j + 1) = p + 1 + j by omega]
            exact text j (by omega)
        · rw [eq, peekBytes_succ page p, append_assoc, List.singleton_append]

lemma userByte_page (here : userPte B s root srcva = some pte)
    (fits : count ≤ pgsize - (srcva - pgRoundDown srcva)) (hk : k < count) :
    userByte B s root (srcva + k) = byteAt (s.mem (pte2pa pte)) (srcva - pgRoundDown srcva + k) := by
  have page : (srcva + k) / pgsize = srcva / pgsize := first_page (Nat.le_add_right ..) (by omega) fits
  rw [userByte, userPte_page_eq page, here]
  rw [offset_add hk fits]

lemma Terminated.skip (first : ∀ va, srcva ≤ va → va < srcva + count → Readable B s root va)
    (text : ∀ j, j < count → userByte B s root (srcva + j) ≠ 0)
    (h : Terminated B s root (srcva + count) k) : Terminated B s root srcva (count + k) := by
  refine ⟨fun va lo hi => ?_, by rw [← add_assoc, h.nul], fun j hj => ?_⟩
  · by_cases near : va < srcva + count
    · exact first va lo near
    · exact h.readable va (by omega) (by omega)
  · by_cases near : j < count
    · exact text j near
    · have := h.text (j - count) (by omega)
      rwa [show srcva + count + (j - count) = srcva + j by omega] at this

lemma Terminated.unskip (text : ∀ j, j < count → userByte B s root (srcva + j) ≠ 0) (h : Terminated B s root srcva k) :
    count ≤ k ∧ Terminated B s root (srcva + count) (k - count) := by
  have le : count ≤ k := by
    by_contra less
    exact text k (by omega) h.nul
  refine ⟨le, fun va lo hi => h.readable va (by omega) (by omega), ?_, fun j hj => ?_⟩
  · rw [show srcva + count + (k - count) = srcva + k by omega, h.nul]
  · rw [add_assoc]
    exact h.text _ (by omega)

lemma Terminated.unique (h : Terminated B s root srcva k) (h' : Terminated B s root srcva k') : k = k' := by
  rcases Nat.lt_trichotomy k k' with less | eq | more
  · exact absurd h.nul (h'.text k less)
  · exact eq
  · exact absurd h'.nul (h.text k' more)

lemma copyinstrInto_spec (nonzero : ∀ va pte, userPte B s root va = some pte → pte2pa pte ≠ 0) (fuel) :
    ∀ srcva max dst, max ≤ fuel →
      Returns (copyinstrInto B root fuel srcva max dst) s fun r t => t = s ∧ r.2.length ≤ dst.length + max ∧
        (r.1 = true → ∃ k, k < max ∧ Terminated B s root srcva k ∧ r.2 = dst ++ userBytes B s root srcva (k + 1)) ∧
        ((∃ k, k < max ∧ Terminated B s root srcva k) → r.1 = true) := by
  induction fuel with
  | zero =>
    intro srcva max dst le
    refine returns_pure ⟨rfl, Nat.le_add_right .., nofun, ?_⟩
    rintro ⟨k, hk, -⟩
    omega
  | succ fuel ih =>
    intro srcva max dst le
    unfold copyinstrInto
    by_cases done : max = 0
    · rw [if_pos done]
      refine returns_pure ⟨rfl, Nat.le_add_right .., nofun, ?_⟩
      rintro ⟨k, hk, -⟩
      omega
    rw [if_neg done]
    dsimp only
    refine Returns.bind (Q := fun r t => t = s ∧ r = (userPte B s root srcva).elim 0 pte2pa)
      ⟨_, _, walkaddr_eq _, rfl, by rw [userPte_page_eq (roundDown_div srcva)]⟩ ?_
    rintro pa t ⟨rfl, rfl⟩
    cases here : userPte B t root srcva with
    | none =>
      rw [elim_none, if_pos rfl]
      refine returns_pure ⟨rfl, Nat.le_add_right .., nofun, ?_⟩
      rintro ⟨k, -, there⟩
      have bad := there.readable srcva le_rfl (by omega)
      rw [readable_iff, here] at bad
      cases bad
    | some pte =>
      rw [elim_some, if_neg (nonzero srcva pte here)]
      refine returns_get_bind ?_
      generalize hc : min (pgsize - (srcva - pgRoundDown srcva)) max = count
      have fits : count ≤ pgsize - (srcva - pgRoundDown srcva) := by omega
      have pos : 0 < count := by
        have low := Nat.mod_lt srcva (by decide : pgsize > 0)
        rw [← hc, offset_eq]
        omega
      have first : ∀ va, srcva ≤ va → va < srcva + count → Readable B t root va := by
        intro va lo hi
        rw [readable_iff, userPte_page_eq (first_page lo hi fits), here]
        rfl
      rcases scan_spec (t.mem (pte2pa pte)) count (srcva - pgRoundDown srcva) dst with
        ⟨k, hk, zero, text, eq⟩ | ⟨text, eq⟩
      · rw [eq]
        have found : Terminated B t root srcva k := by
          refine ⟨fun va lo hi => first va lo (by omega), ?_, fun j hj => ?_⟩
          · rw [userByte_page here fits hk, zero]
          · rw [userByte_page here fits (by omega)]
            exact text j hj
        refine returns_pure ⟨rfl, ?_, fun _ => ⟨k, by omega, found, ?_⟩, fun _ => rfl⟩
        · simp only [length_append, peekBytes, List.length_map, List.length_range]
          omega
        · rw [peek_eq here (by omega)]
      · rw [eq]
        have text' : ∀ j, j < count → userByte B t root (srcva + j) ≠ 0 := by
          intro j hj
          rw [userByte_page here fits hj]
          exact text j hj
        refine (ih (pgRoundDown srcva + pgsize) (max - count) _ (by omega)).mono ?_
        rintro ⟨ok, out⟩ u ⟨rfl, short, yes, no⟩
        have size : (peekBytes (u.mem (pte2pa pte)) (srcva - pgRoundDown srcva) count).length = count := by
          simp [peekBytes]
        rw [length_append, size] at short
        by_cases last : max = count
        · refine ⟨rfl, by omega, fun good => ?_, ?_⟩
          · obtain ⟨k, hk, -⟩ := yes good
            omega
          · rintro ⟨k, hk, there⟩
            have := (there.unskip text').1
            omega
        · have start := next_start hc.symm (by omega)
          rw [start] at yes no
          refine ⟨rfl, by omega, fun good => ?_, ?_⟩
          · obtain ⟨k, hk, there, value⟩ := yes good
            refine ⟨count + k, by omega, there.skip first text', ?_⟩
            rw [value, peek_eq here fits, append_assoc, ← userBytes_append]
            rfl
          · rintro ⟨k, hk, there⟩
            obtain ⟨le', rest⟩ := there.unskip text'
            exact no ⟨k - count, by omega, rest⟩

lemma scan_eq (page : Bytes pgsize) (count) : ∀ p dst, scan page count p dst =
    if ((peekBytes page p count).takeWhile (· ≠ 0)).length < count then
      (true, dst ++ (peekBytes page p count).takeWhile (· ≠ 0) ++ [0])
    else (false, dst ++ peekBytes page p count) := by
  induction count with
  | zero => exact fun p dst => congrArg _ (append_nil _).symm
  | succ count ih =>
    intro p dst
    rw [scan, peekBytes_succ]
    by_cases nul : byteAt page p = 0
    · rw [if_pos nul, List.takeWhile_cons_of_neg (by simpa using nul), append_nil,
        List.length_nil, if_pos (Nat.succ_pos count)]
    · rw [if_neg nul, ih, List.takeWhile_cons_of_pos (by simpa using nul)]
      simp

lemma copyinstrFrom_eq (fuel) : ∀ srcva max dst,
    copyinstrFrom B root fuel srcva max dst s = (copyinstrInto B root fuel srcva max dst s).map fun r =>
      (if r.1.1 then some r.1.2.dropLast else none, r.2) := by
  induction fuel with
  | zero => exact fun _ _ _ => rfl
  | succ fuel ih =>
    intro srcva max dst
    unfold copyinstrFrom copyinstrInto
    by_cases done : max = 0
    · rw [if_pos done, if_pos done]
      rfl
    rw [if_neg done, if_neg done]
    dsimp only
    rw [bind_of_eq (walkaddr_eq _), bind_of_eq (walkaddr_eq _)]
    generalize (userPte B s root (pgRoundDown srcva)).elim 0 pte2pa = pa
    by_cases unmapped : pa = 0
    · rw [if_pos unmapped, if_pos unmapped]
      rfl
    rw [if_neg unmapped, if_neg unmapped, bind_of_eq rfl, bind_of_eq rfl, scan_eq]
    generalize min (pgsize - (srcva - pgRoundDown srcva)) max = count
    have size : (peekBytes (s.mem pa) (srcva - pgRoundDown srcva) count).length = count := by simp [peekBytes]
    rw [size]
    by_cases found : ((peekBytes (s.mem pa) (srcva - pgRoundDown srcva) count).takeWhile (· ≠ 0)).length < count
    · rw [if_pos found, if_pos found]
      rw [if_pos rfl]
      change _ = Except.ok (if true = true then _ else _, s)
      rw [if_pos rfl, List.dropLast_concat]
      rfl
    · rw [if_neg found, if_neg found]
      exact ih _ _ _

/-- Both directions of the copy between kernel and user memory: what decides success, which
bytes are delivered, and that a write stays within the user-writable part of the range. -/
theorem user_copy_exact (sep : Separate B s root) (dstva : Nat) (src : List UInt8) (srcva len : Nat) :
    (∃ ok t, copyout B root dstva src s = .ok (ok, t) ∧
      (ok = true ↔ ∀ va, dstva ≤ va → va < dstva + src.length → Writable B s root va) ∧
      (ok = true → userBytes B t root dstva src.length = src) ∧
      t = { s with mem := t.mem } ∧
      ∀ x off, byteAt (t.mem x) off ≠ byteAt (s.mem x) off →
        ∃ va, dstva ≤ va ∧ va < dstva + src.length ∧ WritableIn B s root va x ∧ va % pgsize = off) ∧
    ∃ r, copyin B root srcva len s = .ok (r, s) ∧
      (r.isSome = true ↔ ∀ va, srcva ≤ va → va < srcva + len → Readable B s root va) ∧
      ∀ bytes, r = some bytes → bytes = userBytes B s root srcva len := by
  constructor
  · obtain ⟨ok, t, ran, count, le, copied, yes, no⟩ := copyoutFrom_spec src.length s dstva src sep le_rfl
    have size : (src.take count).length = count := by
      rw [length_take]
      omega
    refine ⟨ok, t, ran, ⟨fun good va lo hi => ?_, fun all => ?_⟩, fun good => ?_, copied.frame, fun x off changed => ?_⟩
    · have := copied.writable (va - dstva) (by rw [size, yes good]; omega)
      rwa [show dstva + (va - dstva) = va by omega] at this
    · by_contra failed
      obtain ⟨short, bad⟩ := no (Bool.eq_false_iff.mpr failed)
      exact bad (all _ (Nat.le_add_right ..) (by omega))
    · have stored := copied.stored
      rwa [yes good, List.take_length] at stored
    · obtain ⟨k, hk, inside, eq⟩ := copied.confined x off changed
      exact ⟨dstva + k, Nat.le_add_right .., by omega, inside, eq⟩
  · obtain ⟨r, t, ran, rfl, success, value⟩ := copyinFrom_spec sep len srcva len [] le_rfl
    exact ⟨r, ran, success, value⟩

/-- `copyinstr` succeeds on the strings that end within `max` bytes of readable memory. -/
theorem copyinstr_terminated (nonzero : ∀ va pte, userPte B s root va = some pte → pte2pa pte ≠ 0) (srcva max : Nat) :
    ∃ gotNull dst, copyinstrInto B root max srcva max [] s = .ok ((gotNull, dst), s) ∧
      (gotNull = true ↔ ∃ k, k < max ∧ Terminated B s root srcva k) ∧
      (∀ k, k < max → Terminated B s root srcva k → dst = userBytes B s root srcva (k + 1)) ∧
      dst.length ≤ max ∧
      copyinstr B root srcva max s = .ok (if gotNull then some dst.dropLast else none, s) := by
  obtain ⟨⟨gotNull, dst⟩, t, ran, rfl, short, yes, no⟩ := copyinstrInto_spec nonzero max srcva max [] le_rfl
  refine ⟨gotNull, dst, ran, ⟨fun good => ?_, no⟩, fun k hk there => ?_, by simpa using short, ?_⟩
  · obtain ⟨k, hk, there, -⟩ := yes good
    exact ⟨k, hk, there⟩
  · obtain ⟨k', hk', there', value⟩ := yes (no ⟨k, hk, there⟩)
    obtain rfl : k = k' := there.unique there'
    exact value
  · rw [copyinstr, copyinstrFrom_eq, ran]
    rfl

def sampleRoot : Nat := kernBase + pgsize

def sampleEntry : Nat := mapPte (kernBase + 4 * pgsize) (pteR ||| pteW ||| pteU)

def sampleDirectory : Nat → Bytes pgsize :=
  linked (fun _ => fill 0) sampleRoot 0 (kernBase + 2 * pgsize)

def sampleTable : Nat → Bytes pgsize :=
  linked sampleDirectory (kernBase + 2 * pgsize) 0 (kernBase + 3 * pgsize)

def sampleKernel : Kernel 1 :=
  { freshKernel with
    mem := Function.update sampleTable (kernBase + 3 * pgsize)
      (putPte (sampleTable (kernBase + 3 * pgsize)) 0 sampleEntry) }

lemma sample_fresh (h : tableAt (fun _ => fill 0) sampleRoot d v = some x) : d = 0 ∧ v = 0 ∧ x = sampleRoot := by
  cases d with
  | zero =>
    unfold tableAt at h
    split_ifs at h with zero
    exact ⟨rfl, zero, (some.inj h).symm⟩
  | succ d =>
    rw [tableAt_fresh rfl] at h
    cases h

lemma sample_table : Tree sampleTable sampleRoot ∧ tableAt sampleTable sampleRoot 2 0 = some (kernBase + 3 * pgsize) ∧
    (∀ u, leafAt sampleTable sampleRoot u = none) ∧
    ∀ x, InTree sampleTable sampleRoot x → x = sampleRoot ∨ x = kernBase + 2 * pgsize ∨ x = kernBase + 3 * pgsize := by
  have tree0 : Tree (fun _ => fill 0) sampleRoot := by
    intro d v d' v' x _ _ hx hx'
    obtain ⟨rfl, rfl, -⟩ := sample_fresh hx
    obtain ⟨rfl, rfl, -⟩ := sample_fresh hx'
    exact ⟨rfl, rfl⟩
  have fresh0 : ¬ InTree (fun _ => fill 0) sampleRoot (kernBase + 2 * pgsize) := by
    rintro ⟨d, v, -, h⟩
    exact absurd (sample_fresh h).2.2 (by decide)
  have frame1 : Frame (kernBase + 2 * pgsize) := ⟨by decide, by decide⟩
  have at0 : tableAt (fun _ => fill 0) sampleRoot 0 0 = some sampleRoot := rfl
  have tree1 := tree0.link at0 (by decide) (by decide) (valid_zeros 0) fresh0 rfl frame1
  have in1 : ∀ x, InTree sampleDirectory sampleRoot x → x = sampleRoot ∨ x = kernBase + 2 * pgsize := by
    intro x h
    rcases inTree_link tree0 at0 (by decide) (by decide) (valid_zeros 0) fresh0 rfl frame1 h with
      ⟨d, v, -, old⟩ | new
    · exact .inl (sample_fresh old).2.2
    · exact .inr new
  have at1 : tableAt sampleDirectory sampleRoot 1 0 = some (kernBase + 2 * pgsize) := by
    have := tableAt_link tree0 at0 (by decide) (by decide) (valid_zeros 0) fresh0 rfl frame1 (by decide : 1 ≤ 2) 0
    rwa [if_pos ⟨rfl, rfl⟩] at this
  have fresh1 : ¬ InTree sampleDirectory sampleRoot (kernBase + 3 * pgsize) := by
    intro h
    rcases in1 _ h with eq | eq
    · exact absurd eq (by decide)
    · exact absurd eq (by decide)
  have empty1 : valid (sampleDirectory (kernBase + 2 * pgsize)) 0 = none := by
    rw [sampleDirectory, linked, update_of_ne (by decide)]
    exact valid_zeros 0
  have zero1 : sampleDirectory (kernBase + 3 * pgsize) = fill 0 := by
    rw [sampleDirectory, linked, update_of_ne (by decide)]
  have frame2 : Frame (kernBase + 3 * pgsize) := ⟨by decide, by decide⟩
  refine ⟨tree1.link at1 (by decide) (by decide) empty1 fresh1 zero1 frame2, ?_, fun u => ?_, fun x h => ?_⟩
  · have := tableAt_link tree1 at1 (by decide) (by decide) empty1 fresh1 zero1 frame2 le_rfl 0
    rwa [if_pos ⟨rfl, rfl⟩] at this
  · have old := leafAt_link tree1 at1 (by decide) (by decide) empty1 fresh1 zero1 frame2 u
    have older := leafAt_link tree0 at0 (by decide) (by decide) (valid_zeros 0) fresh0 rfl frame1 u
    refine old.trans (older.trans ?_)
    rw [leafAt, tableAt_fresh rfl, bind_none]
  · rcases inTree_link tree1 at1 (by decide) (by decide) empty1 fresh1 zero1 frame2 h with old | new
    · exact (in1 x old).imp_right .inl
    · exact .inr (.inr new)

lemma sample_lookup (va) :
    lookup freshBoard sampleKernel sampleRoot va = if va < pgsize then some sampleEntry else none := by
  obtain ⟨tree, place, empty, -⟩ := sample_table
  by_cases low : va < maxVa
  · rw [lookup_eq low]
    have := leafAt_setLeaf tree place (by decide : 0 < 512) (w := sampleEntry) (by decide) (va / pgsize)
    have ok : sampleEntry &&& pteV ≠ 0 := by decide
    rw [empty, if_pos ok] at this
    refine this.trans ?_
    have page : va / pgsize = 0 * 512 + 0 ↔ va < pgsize := by
      rw [Nat.div_eq_iff (by decide)]
      unfold pgsize
      omega
    simp only [page]
  · have big : pgsize ≤ maxVa := by decide
    rw [lookup_high (by omega), if_neg (by omega)]

lemma sample_user (h : userPte freshBoard sampleKernel sampleRoot va = some pte) : va < pgsize ∧ pte = sampleEntry := by
  have here := (userPte_eq_some.mp h).1
  rw [sample_lookup] at here
  split_ifs at here with low
  exact ⟨low, (some.inj here).symm⟩

lemma sample_separate : Separate freshBoard sampleKernel sampleRoot := by
  obtain ⟨tree, place, -, inside⟩ := sample_table
  refine ⟨fun va pte h => ?_, fun va va' pte pte' h h' _ => ?_, fun va pte h => ?_⟩
  · rw [(sample_user h).2]
    decide
  · rw [Nat.div_eq_of_lt (sample_user h).1, Nat.div_eq_of_lt (sample_user h').1]
  · rw [(sample_user h).2]
    intro bad
    have old := (inTree_congr fun d v hd => tableAt_setLeaf tree place hd v).mp bad
    rcases inside _ old with eq | eq | eq
    · exact absurd eq (by decide)
    · exact absurd eq (by decide)
    · exact absurd eq (by decide)

lemma sample_writable (low : va < pgsize) : Writable freshBoard sampleKernel sampleRoot va := by
  have big : pgsize ≤ maxVa := by decide
  refine ⟨_, by omega, sampleEntry, ?_, by decide, by decide, rfl⟩
  rw [sample_lookup, if_pos low]

theorem user_copy_exact_sample : Separate freshBoard sampleKernel sampleRoot ∧
    ∃ t, copyout freshBoard sampleRoot 4094 [7, 9] sampleKernel = .ok (true, t) ∧
      userBytes freshBoard t sampleRoot 4094 2 = [7, 9] := by
  obtain ⟨⟨ok, t, ran, success, stored, -⟩, -⟩ := user_copy_exact sample_separate 4094 [7, 9] 0 0
  have good : ok = true := success.mpr fun va lo hi => sample_writable (by
    unfold pgsize
    omega)
  subst good
  exact ⟨sample_separate, t, ran, stored rfl⟩

theorem copyinstr_terminated_sample :
    copyinstr freshBoard sampleRoot 4095 1 sampleKernel = .ok (some [], sampleKernel) := by
  obtain ⟨gotNull, dst, -, success, value, -, ran⟩ := copyinstr_terminated sample_separate.nonzero 4095 1
  have here : userPte freshBoard sampleKernel sampleRoot 4095 = some sampleEntry := by
    rw [userPte_eq_some, sample_lookup, if_pos (by decide)]
    exact ⟨rfl, by decide⟩
  have byte : userByte freshBoard sampleKernel sampleRoot 4095 = 0 := by
    have page : sampleKernel.mem (pte2pa sampleEntry) = fill 0 := by
      dsimp only [sampleKernel, sampleTable, sampleDirectory, linked]
      rw [update_of_ne (by decide), update_of_ne (by decide), update_of_ne (by decide)]
    rw [userByte, here]
    dsimp only
    rw [page]
    decide
  have there : Terminated freshBoard sampleKernel sampleRoot 4095 0 := by
    refine ⟨fun va lo hi => ?_, byte, nofun⟩
    obtain rfl : va = 4095 := by omega
    rw [readable_iff, here]
    rfl
  have good := success.mpr ⟨0, by decide, there⟩
  rw [ran, good, value 0 (by decide) there]
  rfl

end Xv6.UserCopy
