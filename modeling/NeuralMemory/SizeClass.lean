import NeuralMemory.Basic

/-!
# Size classes

`pool_index_map` maps a block size to the index of its pool in `memory_pools`.  It is an
`std::unordered_map`, whose iteration order the standard leaves open; the model keeps the
entries of an `AList` in the order it holds them, and the results below hold for every
order.

`get_pool_index(size)` returns the pool of `size` itself when there is one, and otherwise
runs a nearest-fit loop: the first class met at the smallest distance `|size - class|`
wins, and an empty map gives index `0`.
-/

namespace NeuralMemory

/-- `pool_index_map`: size class ↦ index into `memory_pools`. -/
abbrev PoolIndexMap := AList (fun _ : UInt64 => Nat)

/-- One pass of the loop of `get_pool_index`, on `(best_index, min_diff)`. -/
def nearestStep (size : UInt64) (best : Nat × UInt64) (pair : Sigma fun _ : UInt64 => Nat) :
    Nat × UInt64 :=
  let diff := if size > pair.1 then size - pair.1 else pair.1 - size
  if diff < best.2 then (pair.2, diff) else best

def getPoolIndex (poolIndexMap : PoolIndexMap) (size : UInt64) : Nat :=
  match poolIndexMap.lookup size with
  | some idx => idx
  | none => (poolIndexMap.entries.foldl (nearestStep size) (0, sizeMax)).1

/-- The loop's `diff`: how far the class `c` lies from `size`, computed without wrapping. -/
def sizeDiff (size c : UInt64) : UInt64 := if size > c then size - c else c - size

theorem nearestStep_eq (size : UInt64) (best : Nat × UInt64) (e : Sigma fun _ : UInt64 => Nat) :
    nearestStep size best e =
      if sizeDiff size e.1 < best.2 then (e.2, sizeDiff size e.1) else best :=
  rfl

theorem sizeDiff_toNat (size c : UInt64) :
    (sizeDiff size c).toNat = Int.natAbs ((size.toNat : Int) - c.toNat) := by
  unfold sizeDiff
  split_ifs with h
  · have := UInt64.lt_iff_toNat_lt.mp h
    rw [UInt64.toNat_sub_of_le _ _ (UInt64.le_of_lt h)]
    omega
  · have := UInt64.le_iff_toNat_le.mp (UInt64.not_lt.mp h)
    rw [UInt64.toNat_sub_of_le _ _ (UInt64.not_lt.mp h)]
    omega

theorem foldl_nearestStep_le_acc (size : UInt64) (l : List (Sigma fun _ : UInt64 => Nat))
    (best : Nat × UInt64) : (l.foldl (nearestStep size) best).2 ≤ best.2 := by
  induction l generalizing best with
  | nil => exact UInt64.le_refl _
  | cons e l ih =>
    refine UInt64.le_trans (ih _) ?_
    rw [nearestStep_eq]
    split_ifs with h
    · exact UInt64.le_of_lt h
    · exact UInt64.le_refl _

theorem foldl_nearestStep_le_mem (size : UInt64) (l : List (Sigma fun _ : UInt64 => Nat))
    (best : Nat × UInt64) :
    ∀ e ∈ l, (l.foldl (nearestStep size) best).2 ≤ sizeDiff size e.1 := by
  induction l generalizing best with
  | nil => simp
  | cons e l ih =>
    intro e' he'
    rcases List.mem_cons.mp he' with rfl | he'
    · refine UInt64.le_trans (foldl_nearestStep_le_acc size l _) ?_
      rw [nearestStep_eq]
      split_ifs with h
      · exact UInt64.le_refl _
      · exact UInt64.not_lt.mp h
    · exact ih _ e' he'

theorem foldl_nearestStep_eq_or (size : UInt64) (l : List (Sigma fun _ : UInt64 => Nat))
    (best : Nat × UInt64) :
    l.foldl (nearestStep size) best = best ∨
      ∃ e ∈ l, l.foldl (nearestStep size) best = (e.2, sizeDiff size e.1) := by
  induction l generalizing best with
  | nil => exact .inl rfl
  | cons e l ih =>
    rw [List.foldl_cons]
    rcases ih (nearestStep size best e) with h | ⟨e', he', h⟩
    · rw [h, nearestStep_eq]
      split_ifs
      · exact .inr ⟨e, List.mem_cons_self _ _, rfl⟩
      · exact .inl rfl
    · exact .inr ⟨e', List.mem_cons_of_mem _ he', h⟩

theorem getPoolIndex_eq (poolIndexMap : PoolIndexMap) (size : UInt64) :
    getPoolIndex poolIndexMap size = 0 ∨
      ∃ k, poolIndexMap.lookup k = some (getPoolIndex poolIndexMap size) := by
  unfold getPoolIndex
  split
  · next idx hidx => exact .inr ⟨size, hidx⟩
  · rcases foldl_nearestStep_eq_or size poolIndexMap.entries (0, sizeMax) with h | ⟨e, he, h⟩
    · exact .inl (by rw [h])
    · exact .inr ⟨e.1, by rw [h]; exact AList.mem_lookup_iff.mpr he⟩

theorem getPoolIndex_lt {poolIndexMap : PoolIndexMap} {n : Nat} (hn : 0 < n)
    (hmap : ∀ k idx, poolIndexMap.lookup k = some idx → idx < n) (size : UInt64) :
    getPoolIndex poolIndexMap size < n := by
  rcases getPoolIndex_eq poolIndexMap size with h | ⟨k, hk⟩
  · rw [h]; exact hn
  · exact hmap k _ hk

theorem getPoolIndex_nearest {poolIndexMap : PoolIndexMap} {size c₀ : UInt64}
    (hc₀ : c₀ ∈ poolIndexMap) (hnear : sizeDiff size c₀ < sizeMax) :
    ∃ c, poolIndexMap.lookup c = some (getPoolIndex poolIndexMap size) ∧
      (∀ c' ∈ poolIndexMap, Int.natAbs ((size.toNat : Int) - c.toNat) ≤
        Int.natAbs ((size.toNat : Int) - c'.toNat)) ∧
      (size ∈ poolIndexMap → c = size) := by
  unfold getPoolIndex
  split
  · next idx hidx => exact ⟨size, hidx, fun c' _ => by simp, fun _ => rfl⟩
  · next hnone =>
    have hmin : ∀ c' ∈ poolIndexMap,
        (poolIndexMap.entries.foldl (nearestStep size) (0, sizeMax)).2 ≤ sizeDiff size c' :=
      fun c' hc' => by
        obtain ⟨i, hi⟩ := Option.isSome_iff_exists.mp (AList.lookup_isSome.mpr hc')
        exact foldl_nearestStep_le_mem size _ _ ⟨c', i⟩ (AList.mem_lookup_iff.mp hi)
    rcases foldl_nearestStep_eq_or size poolIndexMap.entries (0, sizeMax) with h | ⟨e, he, h⟩
    · have := hmin c₀ hc₀
      rw [h] at this
      exact absurd this (UInt64.not_le.mpr hnear)
    · refine ⟨e.1, by rw [h]; exact AList.mem_lookup_iff.mpr he, fun c' hc' => ?_,
        fun hs => absurd (AList.lookup_isSome.mpr hs) (by simp [hnone])⟩
      have := hmin c' hc'
      rw [h, UInt64.le_iff_toNat_le, sizeDiff_toNat, sizeDiff_toNat] at this
      exact this

end NeuralMemory
