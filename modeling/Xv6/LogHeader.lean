import Xv6.LogMachine

/-! The on-disk header: what `writeHead` encodes, `readHead` decodes, for every list of
block numbers that `struct logheader` has room for. -/

namespace Xv6.LogHeader
open ByteFields Params LogMachine

lemma storeBlocks_field_low (b i xs off w)
    (low : off + w ≤ 4 + 4 * i) : field (storeBlocks b i xs) off w = field b off w := by
  induction xs generalizing b i with
  | nil => rfl
  | cons x xs ih =>
    rw [storeBlocks, ih _ _ (by omega), field_set_other (by omega)]

lemma storeBlocks_field (b i xs) (fits : 4 + 4 * (i + xs.length) ≤ bsize) (small : ∀ x ∈ xs, x < 2 ^ 32)
    (k) (hk : k < xs.length) :
    field (storeBlocks b i xs) (4 + 4 * (i + k)) 4 = xs[k] := by
  induction xs generalizing b i k with
  | nil => simp at hk
  | cons x xs ih =>
    simp only [List.length_cons] at fits hk
    cases k with
    | zero =>
      have hx := small x (by simp)
      rw [storeBlocks, Nat.add_zero i, storeBlocks_field_low _ _ _ _ _ (by omega),
        field_setField_same _ _ _ _ (by omega), List.getElem_cons_zero]
      exact Nat.mod_eq_of_lt (by omega)
    | succ k =>
      have rest := ih (setField b (4 + 4 * i) 4 x) (i + 1) (by omega) (fun y hy => small y (by simp [hy])) k (by omega)
      rw [storeBlocks, List.getElem_cons_succ, ← rest]
      congr 1
      omega

lemma headCount_encodeHead (b lh) (room : lh.length ≤ logSize) : headCount (encodeHead b lh) = lh.length := by
  have small : lh.length < 2 ^ 31 := by simp only [logSize, maxOpBlocks] at room; omega
  have count : field (encodeHead b lh) 0 4 = lh.length := by
    rw [encodeHead, storeBlocks_field_low _ _ _ _ _ (by omega), field_setField_same _ _ _ _ (by simp [bsize])]
    exact Nat.mod_eq_of_lt (by omega)
  rw [headCount, count, if_pos small]

lemma headBlocks_encodeHead (b lh) (room : lh.length ≤ logSize)
    (small : ∀ x ∈ lh, x < 2 ^ 32) : headBlocks (encodeHead b lh) = lh := by
  rw [headBlocks, headCount_encodeHead b lh room]
  apply List.ext_getElem
  · simp
  · intro k _ hk
    have fits : 4 + 4 * (0 + lh.length) ≤ bsize := by
      simp only [logSize, maxOpBlocks, bsize] at room ⊢
      omega
    have entry := storeBlocks_field (setField b 0 4 lh.length) 0 lh fits small k hk
    simpa [encodeHead] using entry

def record (sb : Super) (lh : List Nat) (disk : Nat → Block) : List (Nat × Block) :=
  lh.mapIdx (fun i b => (b, disk (sb.logstart + i + 1)))

@[simp] lemma record_nil (sb disk) : record sb [] disk = [] := rfl

@[simp] lemma record_fst (sb lh disk) : (record sb lh disk).map Prod.fst = lh := by
  apply List.ext_getElem <;> simp [record]

lemma mem_record : w ∈ record sb lh disk ↔ ∃ i, ∃ h : i < lh.length, w = (lh[i], disk (sb.logstart + i + 1)) := by
  simp only [record, List.mem_mapIdx, eq_comm]

lemma record_congr (sb lh d d') (same : ∀ i < lh.length, d (sb.logstart + i + 1) = d' (sb.logstart + i + 1)) :
    record sb lh d = record sb lh d' := by
  apply List.ext_getElem
  · simp [record]
  · intro i hi _
    simp only [record, List.length_mapIdx] at hi
    simp [record, same i hi]

end Xv6.LogHeader
