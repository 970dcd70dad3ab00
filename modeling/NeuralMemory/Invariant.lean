import NeuralMemory.Session
import NeuralMemory.FreeList

/-!
# The manager invariant

With leak detection on, a reachable session satisfies `ManagerInv`: every pool satisfies
the pool invariant for the live pointers of its size class, no slab belongs to two pools,
and the unfreed records of the tracker are exactly the live allocations, with their
sizes.  `allocate` and `deallocate` keep it (`ManagerInv.allocate`,
`ManagerInv.deallocate`); `reallocate` is one or both of them, or nothing.  With
performance monitoring on as well, `MetricsInv` ties the byte counters to the live sizes.

The invariant reads only the `next` words of the heap, so `memcpy` keeps it.
-/

namespace NeuralMemory

open MemoryPool NeuralMemoryManager

/-- No slab belongs to two pools. -/
def SlabsDisjoint (pools : List MemoryPool) : Prop :=
  ∀ (i j : Nat) (pi pj : MemoryPool) (s : Nat), pools[i]? = some pi → pools[j]? = some pj →
    s ∈ pi.allocatedBlocks → s ∈ pj.allocatedBlocks → i = j

structure ManagerInv (next : Nat → Nat) (m : NeuralMemoryManager) (live : Live) : Prop where
  pools_ne_nil : m.memoryPools ≠ []
  index_lt : ∀ k idx, m.poolIndexMap.lookup k = some idx → idx < m.memoryPools.length
  pool : ∀ (idx : Nat) (pool : MemoryPool), m.memoryPools[idx]? = some pool →
    PoolInv next pool (liveIn m.poolIndexMap live idx)
  slabs_disjoint : SlabsDisjoint m.memoryPools
  tracked : ∀ ptr size, live.lookup ptr = some size ↔
    ∃ block, m.allocatedBlocks.lookup ptr = some block ∧ block.isFreed = false ∧
      block.size = size
  record_ptr : ∀ ptr block, m.allocatedBlocks.lookup ptr = some block → block.ptr = ptr

structure MetricsInv (m : NeuralMemoryManager) (live : Live) : Prop where
  current : m.metrics.currentMemoryUsage = liveBytes live
  balance : m.metrics.totalBytesAllocated - m.metrics.totalBytesDeallocated = liveBytes live

namespace SlabsDisjoint

variable {pools : List MemoryPool}

theorem set {idx : Nat} {pool pool' : MemoryPool} (hd : SlabsDisjoint pools)
    (hpool : pools[idx]? = some pool) (hsame : pool'.allocatedBlocks = pool.allocatedBlocks) :
    SlabsDisjoint (pools.set idx pool') := by
  have old : ∀ (k : Nat) (q : MemoryPool), (pools.set idx pool')[k]? = some q →
      ∃ q₀, pools[k]? = some q₀ ∧ q.allocatedBlocks = q₀.allocatedBlocks := by
    intro k q hq
    rcases getElem?_set_eq_some hq with ⟨rfl, rfl⟩ | ⟨-, hq⟩
    · exact ⟨pool, hpool, hsame⟩
    · exact ⟨q, hq, rfl⟩
  intro i j pi pj s hi hj hsi hsj
  obtain ⟨pi₀, hpi, hpi'⟩ := old i pi hi
  obtain ⟨pj₀, hpj, hpj'⟩ := old j pj hj
  exact hd i j pi₀ pj₀ s hpi hpj (hpi' ▸ hsi) (hpj' ▸ hsj)

theorem concat {pool : MemoryPool} (hd : SlabsDisjoint pools)
    (hfresh : ∀ (i : Nat) (q : MemoryPool) (s : Nat), pools[i]? = some q →
      s ∈ q.allocatedBlocks → s ∉ pool.allocatedBlocks) :
    SlabsDisjoint (pools ++ [pool]) := by
  intro i j pi pj s hi hj hsi hsj
  rcases getElem?_concat_eq_some hi with hi' | ⟨rfl, rfl⟩
  · rcases getElem?_concat_eq_some hj with hj' | ⟨-, rfl⟩
    · exact hd i j pi pj s hi' hj' hsi hsj
    · exact absurd hsj (hfresh i pi s hi' hsi)
  · rcases getElem?_concat_eq_some hj with hj' | ⟨rfl, -⟩
    · exact absurd hsi (hfresh j pj s hj' hsj)
    · rfl

end SlabsDisjoint

theorem tracked_insert {t : Tracker} {live live' : Live} {ptr : Nat} {record : MemoryBlock}
    (htracked : ∀ q n, live.lookup q = some n ↔
      ∃ block, t.lookup q = some block ∧ block.isFreed = false ∧ block.size = n)
    (hptr : live'.lookup ptr = if record.isFreed then none else some record.size)
    (hother : ∀ q, q ≠ ptr → live'.lookup q = live.lookup q) (q : Nat) (n : UInt64) :
    live'.lookup q = some n ↔
      ∃ block, (t.insert ptr record).lookup q = some block ∧ block.isFreed = false ∧
        block.size = n := by
  by_cases hq : q = ptr
  · subst hq
    rw [hptr, AList.lookup_insert]
    cases hfreed : record.isFreed <;> simp [hfreed]
  · rw [hother q hq, AList.lookup_insert_ne hq]
    exact htracked q n

theorem record_ptr_insert {t : Tracker} {ptr : Nat} {record : MemoryBlock}
    (hrec : ∀ q block, t.lookup q = some block → block.ptr = q) (hptr : record.ptr = ptr)
    (q : Nat) (block : MemoryBlock) (hq : (t.insert ptr record).lookup q = some block) :
    block.ptr = q := by
  by_cases hqp : q = ptr
  · subst hqp
    rw [AList.lookup_insert, Option.some.injEq] at hq
    exact hq ▸ hptr
  · rw [AList.lookup_insert_ne hqp] at hq
    exact hrec q block hq

namespace ManagerInv

variable {next : Nat → Nat} {m : NeuralMemoryManager} {live : Live}

theorem getPoolIndex_lt (hinv : ManagerInv next m live) (size : UInt64) :
    getPoolIndex m.poolIndexMap size < m.memoryPools.length :=
  NeuralMemory.getPoolIndex_lt (List.length_pos.mpr hinv.pools_ne_nil) hinv.index_lt size

theorem exists_pool (hinv : ManagerInv next m live) (size : UInt64) :
    ∃ pool, m.memoryPools[getPoolIndex m.poolIndexMap size]? = some pool :=
  ⟨_, List.getElem?_eq_getElem (hinv.getPoolIndex_lt size)⟩

theorem slabOf_mem {ptr : Nat} {size : UInt64} {pool : MemoryPool} (hinv : ManagerInv next m live)
    (hptr : live.lookup ptr = some size)
    (hpool : m.memoryPools[getPoolIndex m.poolIndexMap size]? = some pool) :
    ptr ∈ liveIn m.poolIndexMap live (getPoolIndex m.poolIndexMap size) ∧
      slabOf ptr ∈ pool.allocatedBlocks := by
  have hmem : ptr ∈ liveIn m.poolIndexMap live (getPoolIndex m.poolIndexMap size) :=
    mem_liveIn.mpr ⟨size, hptr, rfl⟩
  exact ⟨hmem, (hinv.pool _ _ hpool).slabOf_mem hmem⟩

theorem record_of_mem {ptr : Nat} (hinv : ManagerInv next m live) (hptr : ptr ∈ live) :
    ∃ block, m.allocatedBlocks.lookup ptr = some block ∧ block.isFreed = false ∧
      live.lookup ptr = some block.size := by
  obtain ⟨size, hsize⟩ := Option.isSome_iff_exists.mp (AList.lookup_isSome.mpr hptr)
  obtain ⟨block, hb, hfree, rfl⟩ := (hinv.tracked ptr size).mp hsize
  exact ⟨block, hb, hfree, hsize⟩

theorem ne_zero_of_mem {ptr : Nat} (hinv : ManagerInv next m live) (hptr : ptr ∈ live) :
    ptr ≠ 0 := by
  obtain ⟨size, hsize⟩ := Option.isSome_iff_exists.mp (AList.lookup_isSome.mpr hptr)
  obtain ⟨pool, hpool⟩ := hinv.exists_pool size
  have hslab := (hinv.slabOf_mem hsize hpool).2
  intro h0
  exact (hinv.pool _ _ hpool).zero_not_mem (by simpa [h0, slabOf] using hslab)

theorem next_congr {next' : Nat → Nat} (hinv : ManagerInv next m live) (h : next' = next) :
    ManagerInv next' m live := h ▸ hinv

theorem allocate {h h' : Heap} {m' : NeuralMemoryManager} {size : UInt64}
    {file : Option String} {line : Int} {ptr : Nat} (hinv : ManagerInv h.next m live)
    (hleak : m.defaultConfig.enableLeakDetection = true)
    (ha : m.allocate h size file line = .ok (ptr, h', m')) :
    ManagerInv h'.next m' (live.insert ptr size) ∧ ptr ∉ live := by
  obtain ⟨pool, hpool⟩ := hinv.exists_pool size
  obtain ⟨pool', hpa, rfl⟩ := allocate_eq_ok (hinv.getPoolIndex_lt size) ha
  obtain ⟨_, hget⟩ := List.getElem?_eq_some.mp hpool
  rw [hget] at hpa
  have hpinv := hinv.pool _ _ hpool
  obtain ⟨hpinv', hfresh⟩ := hpinv.allocate hpa
  obtain ⟨hne, hptr, rfl, rfl⟩ := MemoryPool.allocate_eq_ok hpa
  have hnotlive : ptr ∉ live := by
    intro hmem
    obtain ⟨n, hn⟩ := Option.isSome_iff_exists.mp (AList.lookup_isSome.mpr hmem)
    obtain ⟨poolj, hpoolj⟩ := hinv.exists_pool n
    obtain ⟨hmemj, hslabj⟩ := hinv.slabOf_mem hn hpoolj
    have hslab : slabOf ptr ∈ pool.allocatedBlocks := by
      rw [hptr, slabOf_add_dataOffset]; exact hpinv.freeList_mem hne
    rw [← hinv.slabs_disjoint _ _ _ _ _ hpool hpoolj hslab hslabj] at hmemj
    exact hfresh hmemj
  have hnodup := List.nodup_cons.mpr ⟨hfresh, liveIn_nodup⟩
  refine ⟨⟨by simpa using hinv.pools_ne_nil, by simpa using hinv.index_lt, ?_, ?_, ?_, ?_⟩,
    hnotlive⟩
  · intro j q hq
    simp only [recordAllocation_memoryPools, setPool_memoryPools, recordAllocation_poolIndexMap,
      setPool_poolIndexMap] at hq ⊢
    rcases getElem?_set_eq_some hq with ⟨rfl, rfl⟩ | ⟨hj, hq⟩
    · refine hpinv'.perm (liveIn_perm hnodup fun q => ?_).symm
      rw [mem_liveIn_insert hnotlive, List.mem_cons]
      simp
    · refine (hinv.pool j q hq).perm (liveIn_perm liveIn_nodup fun q => ?_).symm
      rw [mem_liveIn_insert hnotlive]
      exact ⟨fun h => h.resolve_left fun h' => hj h'.2.symm, .inr⟩
  · simp only [recordAllocation_memoryPools, setPool_memoryPools]
    exact hinv.slabs_disjoint.set hpool rfl
  · rw [recordAllocation_allocatedBlocks _ _ _ _ _ (by simpa using hleak)]
    exact tracked_insert hinv.tracked (by simp [AList.lookup_insert])
      fun q hq => AList.lookup_insert_ne hq
  · rw [recordAllocation_allocatedBlocks _ _ _ _ _ (by simpa using hleak)]
    exact record_ptr_insert hinv.record_ptr rfl

theorem deallocate {h : Heap} {ptr : Nat} (hinv : ManagerInv h.next m live)
    (hleak : m.defaultConfig.enableLeakDetection = true) (hptr : ptr ∈ live) :
    ManagerInv (m.deallocate h ptr).1.next (m.deallocate h ptr).2 (live.erase ptr) := by
  obtain ⟨block, hb, -, hsize⟩ := hinv.record_of_mem hptr
  have hptr0 := hinv.ne_zero_of_mem hptr
  have hlt := hinv.getPoolIndex_lt block.size
  rw [deallocate_of_lookup_some hptr0 hinv.pools_ne_nil hb hlt]
  have hpool := List.getElem?_eq_getElem hlt
  obtain ⟨hmem, hslab⟩ := hinv.slabOf_mem hsize hpool
  generalize hidx : getPoolIndex m.poolIndexMap block.size = idx at hlt hpool hmem hslab ⊢
  have hpinv' := (hinv.pool _ _ hpool).deallocate hmem
  rw [MemoryPool.deallocate_of_ne_zero hptr0] at hpinv' ⊢
  simp only [Heap.setNext_next] at hpinv' ⊢
  refine ⟨by simpa using hinv.pools_ne_nil, by simpa using hinv.index_lt, ?_, ?_, ?_, ?_⟩
  · intro j q hq
    simp only [recordDeallocation_memoryPools, setPool_memoryPools, recordDeallocation_poolIndexMap,
      setPool_poolIndexMap] at hq ⊢
    rcases getElem?_set_eq_some hq with ⟨rfl, rfl⟩ | ⟨hj, hq⟩
    · refine hpinv'.perm (liveIn_perm (liveIn_nodup.erase _) fun q => ?_).symm
      rw [mem_liveIn_erase, liveIn_nodup.mem_erase_iff]
    · have hnot : slabOf ptr ∉ q.allocatedBlocks := fun hs =>
        hj (hinv.slabs_disjoint _ _ _ _ _ hq hpool hs hslab)
      refine ((hinv.pool j q hq).update hnot).perm (liveIn_perm liveIn_nodup fun q' => ?_).symm
      rw [mem_liveIn_erase]
      refine ⟨And.right, fun hq' => ⟨?_, hq'⟩⟩
      rintro rfl
      obtain ⟨size', hsize', hj'⟩ := mem_liveIn.mp hq'
      cases hsize.symm.trans hsize'
      exact hj (hj' ▸ hidx)
  · simp only [recordDeallocation_memoryPools, setPool_memoryPools]
    exact hinv.slabs_disjoint.set hpool rfl
  · rw [recordDeallocation_allocatedBlocks _ _ (by simpa using hleak) (by simpa using hb)]
    exact tracked_insert hinv.tracked (by simp [AList.lookup_erase])
      fun q hq => AList.lookup_erase_ne hq
  · rw [recordDeallocation_allocatedBlocks _ _ (by simpa using hleak) (by simpa using hb)]
    exact record_ptr_insert hinv.record_ptr (hinv.record_ptr ptr block hb)

theorem leaks_perm (hinv : ManagerInv next m live) :
    (m.detectLeaks.leaks.map fun block => (block.ptr, block.size)).Perm
      (live.entries.map fun e => (e.1, e.2)) := by
  have hrec : ∀ e ∈ m.allocatedBlocks.entries, e.2.ptr = e.1 := fun e he =>
    hinv.record_ptr e.1 e.2 (AList.mem_lookup_iff.mpr he)
  simp only [detectLeaks, foldl_leakStep, List.nil_append, List.map_map]
  rw [@List.map_congr_left _ _ _ _ (fun e => (e.1, e.2.size)) fun e he =>
    by simp [hrec e (List.mem_of_mem_filter he)]]
  refine (List.perm_ext_iff_of_nodup ?_ ?_).mpr fun ⟨ptr, size⟩ => ?_
  · refine List.Nodup.of_map Prod.fst ?_
    simpa [List.map_map] using
      ((List.filter_sublist _).map Sigma.fst).nodup m.allocatedBlocks.nodupKeys
  · refine List.Nodup.of_map Prod.fst ?_
    simpa [List.map_map] using live.nodupKeys
  · simp only [List.mem_map, List.mem_filter, Prod.mk.injEq]
    constructor
    · rintro ⟨⟨k, block⟩, ⟨hmem, hfree⟩, rfl, rfl⟩
      have := (hinv.tracked k block.size).mpr
        ⟨block, AList.mem_lookup_iff.mpr hmem, by simpa using hfree, rfl⟩
      exact ⟨⟨k, block.size⟩, AList.mem_lookup_iff.mp this, rfl, rfl⟩
    · rintro ⟨⟨k, n⟩, hmem, rfl, rfl⟩
      obtain ⟨block, hb, hfree, hsize⟩ := (hinv.tracked k n).mp (AList.mem_lookup_iff.mpr hmem)
      exact ⟨⟨k, block⟩, ⟨AList.mem_lookup_iff.mp hb, by simp [hfree]⟩, rfl, hsize⟩

theorem detectLeaks_eq (hinv : ManagerInv next m live) :
    m.detectLeaks.leakedBlocks = live.entries.length ∧
      m.detectLeaks.leakedBytes = liveBytes live := by
  have hperm := hinv.leaks_perm
  have hlen := hperm.length_eq
  have hsum := (hperm.map Prod.snd).sum_eq
  simp only [detectLeaks, foldl_leakStep, List.nil_append, List.map_map, List.length_map]
    at hlen hsum ⊢
  exact ⟨by simpa using hlen, by simpa [liveBytes, Function.comp_def] using hsum⟩
end ManagerInv

namespace MetricsInv

variable {m : NeuralMemoryManager} {live : Live}

theorem allocate {h h' : Heap} {m' : NeuralMemoryManager} {size : UInt64} {file : Option String}
    {line : Int} {ptr : Nat} (hinv : ManagerInv h.next m live) (hmet : MetricsInv m live)
    (hperf : m.defaultConfig.enablePerformanceMonitoring = true)
    (ha : m.allocate h size file line = .ok (ptr, h', m')) (hptr : ptr ∉ live) :
    MetricsInv m' (live.insert ptr size) := by
  obtain ⟨pool', -, rfl⟩ := allocate_eq_ok (hinv.getPoolIndex_lt size) ha
  have hmetrics := recordAllocation_metrics (m.setPool (getPoolIndex m.poolIndexMap size) pool') ptr
    size file line (by simpa using hperf)
  rw [setPool_metrics] at hmetrics
  constructor
  · rw [hmetrics, PerformanceMetrics.update_alloc_current, hmet.current, liveBytes_insert hptr,
      add_comm]
  · rw [hmetrics, PerformanceMetrics.update_alloc_totalBytesAllocated,
      PerformanceMetrics.update_alloc_totalBytesDeallocated, liveBytes_insert hptr,
      ← hmet.balance]
    abel

theorem deallocate {h : Heap} {ptr : Nat} (hinv : ManagerInv h.next m live)
    (hmet : MetricsInv m live) (hleak : m.defaultConfig.enableLeakDetection = true)
    (hperf : m.defaultConfig.enablePerformanceMonitoring = true) (hptr : ptr ∈ live) :
    MetricsInv (m.deallocate h ptr).2 (live.erase ptr) := by
  obtain ⟨block, hb, -, hsize⟩ := hinv.record_of_mem hptr
  have hlt := hinv.getPoolIndex_lt block.size
  rw [deallocate_of_lookup_some (hinv.ne_zero_of_mem hptr) hinv.pools_ne_nil hb hlt]
  have hmetrics := recordDeallocation_metrics (m.setPool (getPoolIndex m.poolIndexMap block.size)
    (m.memoryPools[getPoolIndex m.poolIndexMap block.size].deallocate ptr h).2) ptr
    (by simpa using hleak) (by simpa using hperf) (by simpa using hb)
  rw [setPool_metrics] at hmetrics
  have hbytes := liveBytes_erase hsize
  constructor
  · rw [hmetrics, PerformanceMetrics.update_free_current, hmet.current, hbytes,
      add_sub_cancel_left]
  · rw [hmetrics, PerformanceMetrics.update_free_totalBytesAllocated,
      PerformanceMetrics.update_free_totalBytesDeallocated, ← sub_sub, hmet.balance, hbytes,
      add_sub_cancel_left]

end MetricsInv

end NeuralMemory
