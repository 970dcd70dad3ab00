import NeuralMemory.Table

/-!
# Slabs, capacity and shutdown

`expand_pool` does its work only inside a pool's constructor: `allocate` reaches it with
`pool_mutex` held.  So after `NeuralMemoryManager(config)` no call adds, removes or moves a
slab, whatever pointers it is passed (`TableInv.slabTable_call`), and each pool keeps the
one slab its constructor took, shared with no other pool (`SlabInv`).

In a program that passes only null or live pointers, with leak detection on, a size class
therefore has at most one live allocation, and `allocate(n)` returns exactly when the class
of `n` has none; otherwise it relocks `pool_mutex`.  `warmup_thread_cache(pool_size)`
returns only for `0`, or for `1` with the 64-byte class free.  Such a program never calls
`std::malloc`, `std::realloc` or `std::free` after the constructor, so at shutdown the
pools' destructors free each slab once, every one a live chunk.
-/

namespace NeuralMemory

open MemoryPool NeuralMemoryManager

/-- The slabs of each pool, in the order of `memory_pools`. -/
def slabTable (m : NeuralMemoryManager) : List (List Nat) :=
  m.memoryPools.map (·.allocatedBlocks)

theorem mem_slabTable {m : NeuralMemoryManager} {pool : MemoryPool}
    (hpool : pool ∈ m.memoryPools) : pool.allocatedBlocks ∈ slabTable m :=
  List.mem_map_of_mem _ hpool

/-! ## No call moves a slab -/

section SlabTable

variable {m m' : NeuralMemoryManager}

theorem slabTable_setPool {idx : Nat} {pool : MemoryPool} (hidx : idx < m.memoryPools.length)
    (hsame : pool.allocatedBlocks = m.memoryPools[idx].allocatedBlocks) :
    slabTable (m.setPool idx pool) = slabTable m := by
  refine List.ext_getElem (by simp [slabTable]) fun j _ _ => ?_
  simp only [slabTable, setPool_memoryPools, List.getElem_map, List.getElem_set]
  split_ifs with hj
  · subst hj; exact hsame
  · rfl

@[simp] theorem slabTable_recordAllocation (ptr : Nat) (size : UInt64) (file : Option String)
    (line : Int) : slabTable (m.recordAllocation ptr size file line) = slabTable m := by
  simp [slabTable]

@[simp] theorem slabTable_recordDeallocation (ptr : Nat) :
    slabTable (m.recordDeallocation ptr) = slabTable m := by
  simp [slabTable]

theorem slabTable_allocate {h h' : Heap} {size : UInt64} {file : Option String} {line : Int}
    {ptr : Nat} (hlt : getPoolIndex m.poolIndexMap size < m.memoryPools.length)
    (ha : m.allocate h size file line = .ok (ptr, h', m')) : slabTable m' = slabTable m := by
  obtain ⟨pool', hpa, rfl⟩ := NeuralMemoryManager.allocate_eq_ok hlt ha
  obtain ⟨-, -, -, rfl⟩ := MemoryPool.allocate_eq_ok hpa
  exact (slabTable_recordAllocation ..).trans (slabTable_setPool hlt rfl)

theorem slabTable_deallocate (h : Heap) (m : NeuralMemoryManager) (ptr : Nat) :
    slabTable (m.deallocate h ptr).2 = slabTable m := by
  unfold NeuralMemoryManager.deallocate
  split_ifs
  · rfl
  · split
    · next idx _ =>
      exact (slabTable_recordDeallocation ptr).trans
        (slabTable_setPool idx.2 (MemoryPool.deallocate_allocatedBlocks ..))
    · exact slabTable_recordDeallocation ptr

theorem slabTable_reallocate {h h' : Heap} {ptr : Nat} {newSize : UInt64}
    {file : Option String} {line : Int} {result : Nat}
    (hlt : getPoolIndex m.poolIndexMap newSize < m.memoryPools.length)
    (hr : m.reallocate h ptr newSize file line = .ok (result, h', m')) :
    slabTable m' = slabTable m := by
  rcases reallocate_eq_ok hr with ⟨-, ha⟩ | ⟨-, -, -, hd⟩ | ⟨-, -, -, -, rfl⟩ |
    ⟨-, -, block, -, ⟨-, -, -, rfl⟩ | ⟨-, h₁, m₁, ha, hd⟩⟩
  · exact slabTable_allocate hlt ha
  · obtain rfl : m' = _ := congrArg Prod.snd hd
    exact slabTable_deallocate h m ptr
  · split_ifs <;> rfl
  · rfl
  · split_ifs at hd
    · obtain rfl : m' = _ := congrArg Prod.snd hd
      exact (slabTable_deallocate ..).trans (slabTable_allocate hlt ha)
    · cases hd
      exact slabTable_allocate hlt ha

end SlabTable

theorem TableInv.slabTable_call {config : MemoryPoolConfig} {s s' : Heap × NeuralMemoryManager}
    (ht : TableInv config s.2) (hc : Call s s') : slabTable s'.2 = slabTable s.2 := by
  cases hc with
  | allocate ha => exact slabTable_allocate (ht.getPoolIndex_lt _) ha
  | deallocate => exact slabTable_deallocate ..
  | reallocate hr => exact slabTable_reallocate (ht.getPoolIndex_lt _) hr

/-! ## One slab per pool -/

/-- What the constructor leaves and no call changes: one non-null slab per pool, none twice. -/
structure SlabInv (slabs : List (List Nat)) : Prop where
  single : ∀ l ∈ slabs, ∃ slab, l = [slab]
  nodup : slabs.flatten.Nodup
  zero_not_mem : 0 ∉ slabs.flatten

theorem SlabInv.addPool {config : MemoryPoolConfig} {acc r : Heap × NeuralMemoryManager}
    {size : UInt64} (hacc : SlabInv (slabTable acc.2) ∧
      ∀ q ∈ (slabTable acc.2).flatten, q ≤ acc.1.brk ∧ q ∈ acc.1.chunks.map Prod.fst)
    (ha : addPool config acc size = .ok r) :
    SlabInv (slabTable r.2) ∧
      ∀ q ∈ (slabTable r.2).flatten, q ≤ r.1.brk ∧ q ∈ r.1.chunks.map Prod.fst := by
  obtain ⟨pool, hpc, hr⟩ := addPool_eq_ok ha
  have hchunks := MemoryPool.create_chunks hpc
  obtain ⟨newBlock, hlt, hle, -, rfl⟩ := MemoryPool.create_eq_ok hpc
  obtain ⟨⟨hsingle, hnd, h0⟩, hold⟩ := hacc
  have hfresh : newBlock ∉ (slabTable acc.2).flatten := fun hq => by
    have := (hold _ hq).1
    omega
  have htable : slabTable r.2 = slabTable acc.2 ++ [[newBlock]] := by simp [slabTable, hr]
  have hflat : (slabTable r.2).flatten = (slabTable acc.2).flatten ++ [newBlock] := by
    simp [htable]
  refine ⟨⟨fun l hl => ?_, ?_, ?_⟩, fun q hq => ?_⟩
  · rcases List.mem_append.mp (htable ▸ hl) with hl | hl
    · exact hsingle l hl
    · exact ⟨newBlock, List.mem_singleton.mp hl⟩
  · rw [hflat]
    exact hnd.append (List.nodup_singleton _) (List.disjoint_singleton.mpr hfresh)
  · rw [hflat, List.mem_append, List.mem_singleton, not_or]
    exact ⟨h0, by omega⟩
  · rw [hflat, List.mem_append, List.mem_singleton] at hq
    simp only [hchunks, List.map_cons, List.mem_cons]
    rcases hq with hq | rfl
    · exact ⟨by have := (hold q hq).1; omega, .inr (hold q hq).2⟩
    · exact ⟨hle, .inl rfl⟩

theorem SlabInv.create {config : MemoryPoolConfig} {h h' : Heap} {m : NeuralMemoryManager}
    (hc : NeuralMemoryManager.create config h = .ok (h', m)) :
    SlabInv (slabTable m) ∧ ∀ q ∈ (slabTable m).flatten, q ∈ h'.chunks.map Prod.fst := by
  have hbuild := @foldlM_addPool_induction config (fun acc =>
      SlabInv (slabTable acc.2) ∧
        ∀ q ∈ (slabTable acc.2).flatten, q ≤ acc.1.brk ∧ q ∈ acc.1.chunks.map Prod.fst)
    (fun _ _ _ hacc ha => SlabInv.addPool hacc ha) _ _ _
    ⟨⟨by simp [slabTable], by simp [slabTable], by simp [slabTable]⟩, by simp [slabTable]⟩
    hc
  exact ⟨hbuild.1, fun q hq => (hbuild.2 q hq).2⟩

theorem ManagerReachable.slabInv {config : MemoryPoolConfig} {s : Heap × NeuralMemoryManager}
    (hs : ManagerReachable config s) : SlabInv (slabTable s.2) := by
  induction hs with
  | init hc => exact (SlabInv.create hc).1
  | call hs' hcall ih => rwa [hs'.tableInv.slabTable_call hcall]

theorem PoolInv.one_slab {next : Nat → Nat} {p : MemoryPool} {live : List Nat}
    (hinv : PoolInv next p live) (hone : p.allocatedBlocks.length = 1) :
    live.length ≤ 1 ∧ (p.freeList ≠ 0 ↔ live = []) := by
  obtain ⟨free, hchain, hperm⟩ := hinv.chain
  have hlen := hperm.length_eq
  rw [List.length_append, List.length_map, hone] at hlen
  refine ⟨by omega, ?_⟩
  cases free with
  | nil =>
    exact iff_of_false (not_not.mpr hchain.eq_zero_of_nil)
      (List.ne_nil_of_length_pos (by simp at hlen; omega))
  | cons b rest =>
    exact iff_of_true (hchain.pop.1 ▸ hchain.ne_zero_of_mem (List.mem_cons_self b rest))
      (List.eq_nil_of_length_eq_zero (by simp at hlen; omega))

theorem Reachable.classPool {config : MemoryPoolConfig} {s : Session}
    (hleak : config.enableLeakDetection = true) (hs : Reachable config s) (size : UInt64) :
    ∃ pool : MemoryPool,
      s.manager.memoryPools[getPoolIndex s.manager.poolIndexMap size]? = some pool ∧
      (liveIn s.manager.poolIndexMap s.live (getPoolIndex s.manager.poolIndexMap size)).length
        ≤ 1 ∧
      (pool.freeList ≠ 0 ↔
        liveIn s.manager.poolIndexMap s.live (getPoolIndex s.manager.poolIndexMap size) = []) := by
  have hsi := hs.sessionInv hleak
  obtain ⟨pool, hpool⟩ := hsi.manager.exists_pool size
  obtain ⟨slab, hslab⟩ := hs.managerReachable.slabInv.single _
    (mem_slabTable (List.getElem?_mem hpool))
  exact ⟨pool, hpool, (hsi.manager.pool _ pool hpool).one_slab (by simp [hslab])⟩

theorem returns_iff_of_cases {α : Type} {x : Except Fault α} {P : Prop}
    (hx : P ∧ (∃ r, x = .ok r) ∨ ¬P ∧ x = .error (.selfDeadlock .poolMutex)) :
    ((∃ r, x = .ok r) ↔ P) ∧ ∀ e, x = .error e → e = .selfDeadlock .poolMutex := by
  rcases hx with ⟨hp, r, rfl⟩ | ⟨hp, rfl⟩
  · exact ⟨iff_of_true ⟨r, rfl⟩ hp, fun e he => by cases he⟩
  · exact ⟨iff_of_false (fun ⟨_, he⟩ => by cases he) hp, fun e he => by cases he; rfl⟩

theorem allocate_cases_of_pool {m : NeuralMemoryManager} {size : UInt64} {pool : MemoryPool}
    (hpool : m.memoryPools[getPoolIndex m.poolIndexMap size]? = some pool) (h : Heap)
    (file : Option String) (line : Int) :
    pool.freeList ≠ 0 ∧ (∃ r, m.allocate h size file line = .ok r) ∨
    pool.freeList = 0 ∧ m.allocate h size file line = .error (.selfDeadlock .poolMutex) := by
  rw [allocate_of_pool hpool]
  by_cases h0 : pool.freeList = 0
  · rw [allocate_of_freeList_eq_zero h0]
    exact .inr ⟨h0, rfl⟩
  · rw [allocate_of_freeList_ne_zero h0]
    exact .inl ⟨h0, _, rfl⟩

theorem Reachable.allocate_cases {config : MemoryPoolConfig} {s : Session}
    (hleak : config.enableLeakDetection = true) (hs : Reachable config s) (size : UInt64)
    (file : Option String) (line : Int) :
    liveIn s.manager.poolIndexMap s.live (getPoolIndex s.manager.poolIndexMap size) = [] ∧
      (∃ r, s.manager.allocate s.heap size file line = .ok r) ∨
    liveIn s.manager.poolIndexMap s.live (getPoolIndex s.manager.poolIndexMap size) ≠ [] ∧
      s.manager.allocate s.heap size file line = .error (.selfDeadlock .poolMutex) := by
  obtain ⟨pool, hpool, -, hiff⟩ := hs.classPool hleak size
  rcases allocate_cases_of_pool hpool s.heap file line with ⟨hne, hok⟩ | ⟨h0, herr⟩
  · exact .inl ⟨hiff.mp hne, hok⟩
  · exact .inr ⟨fun hfree => hiff.mpr hfree h0, herr⟩

/--
With leak detection on, in every reachable session each size class has at most one live
allocation, and `allocate(n)` returns exactly when the class of `n` has none; when it does
not return, it has relocked `pool_mutex`.
-/
theorem allocate_returns_iff_class_free {config : MemoryPoolConfig} {s : Session}
    (hleak : config.enableLeakDetection = true) (hs : Reachable config s) :
    (∀ idx, (liveIn s.manager.poolIndexMap s.live idx).length ≤ 1) ∧
    ∀ size file line,
      ((∃ r, s.manager.allocate s.heap size file line = .ok r) ↔
        liveIn s.manager.poolIndexMap s.live (getPoolIndex s.manager.poolIndexMap size) = []) ∧
      ∀ e, s.manager.allocate s.heap size file line = .error e →
        e = .selfDeadlock .poolMutex := by
  refine ⟨fun idx => ?_, fun size file line =>
    returns_iff_of_cases (hs.allocate_cases hleak size file line)⟩
  cases hl : liveIn s.manager.poolIndexMap s.live idx with
  | nil => exact Nat.zero_le _
  | cons p rest =>
    obtain ⟨size, -, rfl⟩ := mem_liveIn.mp (hl ▸ List.mem_cons_self p rest)
    obtain ⟨-, -, hle, -⟩ := hs.classPool hleak size
    rwa [hl] at hle

theorem allocate_returns_iff_class_free_default :
    MemoryPoolConfig.default.enableLeakDetection = true ∧ Reachable .default allocatedSession ∧
    ((∀ idx, (liveIn allocatedSession.manager.poolIndexMap allocatedSession.live idx).length
        ≤ 1) ∧
    ∀ size file line,
      ((∃ r, allocatedSession.manager.allocate allocatedSession.heap size file line = .ok r) ↔
        liveIn allocatedSession.manager.poolIndexMap allocatedSession.live
          (getPoolIndex allocatedSession.manager.poolIndexMap size) = []) ∧
      ∀ e, allocatedSession.manager.allocate allocatedSession.heap size file line = .error e →
        e = .selfDeadlock .poolMutex) :=
  ⟨rfl, allocatedSession_reachable,
    allocate_returns_iff_class_free rfl allocatedSession_reachable⟩

/--
With leak detection on, `reallocate` growing a live block returns exactly when the class of
the new size has no live allocation, so it never returns when that is the block's own class;
otherwise it relocks `pool_mutex`.
-/
theorem reallocate_grow_returns_iff {config : MemoryPoolConfig} {s : Session} {ptr : Nat}
    {size newSize : UInt64} (hleak : config.enableLeakDetection = true) (hs : Reachable config s)
    (hptr : s.live.lookup ptr = some size) (hgrow : size < newSize) (file : Option String)
    (line : Int) :
    ((∃ r, s.manager.reallocate s.heap ptr newSize file line = .ok r) ↔
      liveIn s.manager.poolIndexMap s.live (getPoolIndex s.manager.poolIndexMap newSize) = []) ∧
    ∀ e, s.manager.reallocate s.heap ptr newSize file line = .error e →
      e = .selfDeadlock .poolMutex := by
  have hsi := hs.sessionInv hleak
  have hne : ptr ≠ 0 := hsi.manager.ne_zero_of_mem (AList.lookup_isSome.mp (by simp [hptr]))
  obtain ⟨block, hb, -, rfl⟩ := (hsi.manager.tracked ptr size).mp hptr
  have hz : newSize ≠ 0 := fun h0 => by
    rw [h0, UInt64.lt_iff_toNat_lt] at hgrow; simp at hgrow
  rw [reallocate_of_grow hne hz hb (UInt64.not_le.mpr hgrow)]
  refine returns_iff_of_cases ?_
  rcases hs.allocate_cases hleak newSize file line with ⟨hfree, r, ha⟩ | ⟨hbusy, ha⟩ <;> rw [ha]
  · exact .inl ⟨hfree, _, rfl⟩
  · exact .inr ⟨hbusy, rfl⟩

theorem reallocate_grow_returns_iff_default :
    MemoryPoolConfig.default.enableLeakDetection = true ∧ Reachable .default allocatedSession ∧
    allocatedSession.live.lookup 4120 = some 64 ∧ (64 : UInt64) < 128 ∧
    (((∃ r, allocatedSession.manager.reallocate allocatedSession.heap 4120 128 none 0 = .ok r) ↔
      liveIn allocatedSession.manager.poolIndexMap allocatedSession.live
        (getPoolIndex allocatedSession.manager.poolIndexMap 128) = []) ∧
    ∀ e, allocatedSession.manager.reallocate allocatedSession.heap 4120 128 none 0 = .error e →
      e = .selfDeadlock .poolMutex) :=
  ⟨rfl, allocatedSession_reachable, by decide, by decide,
    reallocate_grow_returns_iff rfl allocatedSession_reachable
      (show allocatedSession.live.lookup 4120 = some 64 by decide)
      (show (64 : UInt64) < 128 by decide) none 0⟩

/--
With leak detection on, `warmup_thread_cache(pool_size)` returns in a reachable session
only for `pool_size = 0`, or for `1` when the 64-byte class has no live allocation: its
second `allocate(64)` finds that class taken by its first.  Otherwise it relocks
`pool_mutex`.
-/
theorem warmupThreadCache_returns_iff {config : MemoryPoolConfig} {s : Session}
    (hleak : config.enableLeakDetection = true) (hs : Reachable config s)
    (threadCache : Option ThreadLocalCache) (poolSize : Nat) :
    ((∃ r, warmupThreadCache s.heap s.manager threadCache poolSize = .ok r) ↔
      poolSize = 0 ∨ poolSize = 1 ∧
        liveIn s.manager.poolIndexMap s.live (getPoolIndex s.manager.poolIndexMap 64) = []) ∧
    ∀ e, warmupThreadCache s.heap s.manager threadCache poolSize = .error e →
      e = .selfDeadlock .poolMutex := by
  unfold warmupThreadCache
  generalize threadCache.getD ⟨[]⟩ = cache
  refine returns_iff_of_cases ?_
  rcases poolSize with _ | n
  · exact .inl ⟨.inl rfl, _, rfl⟩
  rcases hs.allocate_cases hleak 64 none 0 with ⟨hfree, ⟨ptr, h', m'⟩, ha⟩ | ⟨hbusy, ha⟩
  · rw [warmupLoop_succ_of_ok ha]
    rcases n with _ | k
    · exact .inl ⟨.inr ⟨rfl, hfree⟩, _, rfl⟩
    have hs' : Reachable config ⟨h', m', s.live.insert ptr 64⟩ := hs.step (.allocate ha)
    have hmem : ptr ∈ liveIn m'.poolIndexMap (s.live.insert ptr 64)
        (getPoolIndex m'.poolIndexMap 64) := mem_liveIn.mpr ⟨64, by simp, rfl⟩
    rcases hs'.allocate_cases hleak 64 none 0 with ⟨hfree', -⟩ | ⟨-, ha'⟩
    · exact absurd (hfree' ▸ hmem) (List.not_mem_nil _)
    · rw [warmupLoop_succ_of_error ha']
      exact .inr ⟨by simp, rfl⟩
  · rw [warmupLoop_succ_of_error ha]
    exact .inr ⟨by simp [hbusy], rfl⟩

theorem warmupThreadCache_returns_iff_default :
    MemoryPoolConfig.default.enableLeakDetection = true ∧ Reachable .default defaultSession ∧
    (((∃ r, warmupThreadCache defaultSession.heap defaultSession.manager none 2 = .ok r) ↔
      2 = 0 ∨ 2 = 1 ∧ liveIn defaultSession.manager.poolIndexMap defaultSession.live
        (getPoolIndex defaultSession.manager.poolIndexMap 64) = []) ∧
    ∀ e, warmupThreadCache defaultSession.heap defaultSession.manager none 2 = .error e →
      e = .selfDeadlock .poolMutex) :=
  ⟨rfl, defaultSession_reachable,
    warmupThreadCache_returns_iff rfl defaultSession_reachable none 2⟩

/-! ## Reuse of a freed block -/

/--
`deallocate` pushes a live block on the free list of its class's pool, so with leak
detection on the next `allocate` of any size of that class hands back the same pointer.
-/
theorem allocate_after_deallocate_reuses {config : MemoryPoolConfig} {s : Session} {ptr : Nat}
    {size size' : UInt64} (hleak : config.enableLeakDetection = true) (hs : Reachable config s)
    (hptr : s.live.lookup ptr = some size)
    (hclass : getPoolIndex s.manager.poolIndexMap size' = getPoolIndex s.manager.poolIndexMap size)
    (file : Option String) (line : Int) :
    ∃ h' m', (s.manager.deallocate s.heap ptr).2.allocate (s.manager.deallocate s.heap ptr).1
      size' file line = .ok (ptr, h', m') := by
  have hsi := hs.sessionInv hleak
  have hne : ptr ≠ 0 := hsi.manager.ne_zero_of_mem (AList.lookup_isSome.mp (by simp [hptr]))
  obtain ⟨block, hb, -, rfl⟩ := (hsi.manager.tracked ptr size).mp hptr
  have hlt := hsi.manager.getPoolIndex_lt block.size
  have hpool := List.getElem?_eq_getElem hlt
  have hslab0 : slabOf ptr ≠ 0 := fun h0 =>
    (hsi.manager.pool _ _ hpool).zero_not_mem (h0 ▸ (hsi.manager.slabOf_mem hptr hpool).2)
  obtain ⟨pool₁, hpool₁, hfree₁⟩ : ∃ pool₁ : MemoryPool,
      (s.manager.deallocate s.heap ptr).2.memoryPools[getPoolIndex s.manager.poolIndexMap size']? =
        some pool₁ ∧ pool₁.freeList = slabOf ptr := by
    rw [deallocate_of_lookup_some hne hsi.manager.pools_ne_nil hb hlt,
      MemoryPool.deallocate_of_ne_zero hne, hclass]
    simp [hlt]
  rw [← (Frame.deallocate s.heap s.manager ptr).poolIndexMap] at hpool₁
  rw [allocate_of_pool hpool₁, allocate_of_freeList_ne_zero (hfree₁ ▸ hslab0), hfree₁]
  have hptr' : slabOf ptr + dataOffset = ptr := by
    simp only [slabOf, dataOffset] at hslab0 ⊢; omega
  exact ⟨_, _, by rw [hptr']; rfl⟩

theorem allocate_after_deallocate_reuses_default :
    MemoryPoolConfig.default.enableLeakDetection = true ∧ Reachable .default allocatedSession ∧
    allocatedSession.live.lookup 4120 = some 64 ∧
    getPoolIndex allocatedSession.manager.poolIndexMap 50 =
      getPoolIndex allocatedSession.manager.poolIndexMap 64 ∧
    ∃ h' m', (allocatedSession.manager.deallocate allocatedSession.heap 4120).2.allocate
      (allocatedSession.manager.deallocate allocatedSession.heap 4120).1 50 none 0 =
        .ok (4120, h', m') :=
  ⟨rfl, allocatedSession_reachable, by decide, by decide,
    allocate_after_deallocate_reuses rfl allocatedSession_reachable
      (show allocatedSession.live.lookup 4120 = some 64 by decide)
      (show getPoolIndex allocatedSession.manager.poolIndexMap 50 =
        getPoolIndex allocatedSession.manager.poolIndexMap 64 by decide) none 0⟩

/--
With leak detection on, `deallocate` of the pointer `allocate` just returned puts back every
pool's free list and count and every `next` word of the heap.
-/
theorem deallocate_undoes_allocate {config : MemoryPoolConfig} {s : Session} {size : UInt64}
    {file : Option String} {line : Int} {ptr : Nat} {h' : Heap} {m' : NeuralMemoryManager}
    (hleak : config.enableLeakDetection = true) (hs : Reachable config s)
    (ha : s.manager.allocate s.heap size file line = .ok (ptr, h', m')) :
    (m'.deallocate h' ptr).1.next = s.heap.next ∧
    (m'.deallocate h' ptr).2.memoryPools.map (fun pool => (pool.freeList, pool.allocatedCount)) =
      s.manager.memoryPools.map fun pool => (pool.freeList, pool.allocatedCount) := by
  have hsi := hs.sessionInv hleak
  have hlt := hsi.manager.getPoolIndex_lt size
  obtain ⟨pool', hpa, rfl⟩ := allocate_eq_ok hlt ha
  obtain ⟨hnext, hfree, hcount⟩ := MemoryPool.deallocate_allocate hpa
  obtain ⟨-, rfl, rfl, -⟩ := MemoryPool.allocate_eq_ok hpa
  have hb := recordAllocation_allocatedBlocks
    (s.manager.setPool (getPoolIndex s.manager.poolIndexMap size) pool')
    (s.manager.memoryPools[getPoolIndex s.manager.poolIndexMap size].freeList + dataOffset)
    size file line (by simpa [hsi.config_eq] using hleak)
  rw [deallocate_of_lookup_some (by simp [dataOffset]) (by simpa using hsi.manager.pools_ne_nil)
    (by rw [hb]; exact AList.lookup_insert _) (by simpa using hlt)]
  simp only [recordDeallocation_memoryPools, setPool_memoryPools, recordAllocation_memoryPools,
    recordAllocation_poolIndexMap, setPool_poolIndexMap, List.getElem_set_self, List.set_set,
    List.map_set]
  refine ⟨hnext, ?_⟩
  rw [hfree, hcount]
  convert set_getElem_self
    (s.manager.memoryPools.map fun pool => (pool.freeList, pool.allocatedCount))
    (by simpa using hlt) using 2
  simp

theorem deallocate_undoes_allocate_default :
    MemoryPoolConfig.default.enableLeakDetection = true ∧ Reachable .default defaultSession ∧
    defaultSession.manager.allocate defaultSession.heap 64 none 0 =
      .ok (4120, allocatedSession.heap, allocatedSession.manager) ∧
    ((allocatedSession.manager.deallocate allocatedSession.heap 4120).1.next =
        defaultSession.heap.next ∧
      (allocatedSession.manager.deallocate allocatedSession.heap 4120).2.memoryPools.map
          (fun pool => (pool.freeList, pool.allocatedCount)) =
        defaultSession.manager.memoryPools.map fun pool => (pool.freeList, pool.allocatedCount)) :=
  ⟨rfl, defaultSession_reachable, rfl, deallocate_undoes_allocate rfl defaultSession_reachable
    (show defaultSession.manager.allocate defaultSession.heap 64 none 0 =
      .ok (4120, allocatedSession.heap, allocatedSession.manager) from rfl)⟩

/--
With leak detection on, `clear_tracking()` while a block is live strands it: the tracker no
longer knows the pointer, so `deallocate` of it returns nothing to its pool and changes
nothing, and `allocate` of the block's size then relocks `pool_mutex`.
-/
theorem clearTracking_strands_live_block {config : MemoryPoolConfig} {s : Session} {ptr : Nat}
    {size : UInt64} (hleak : config.enableLeakDetection = true) (hs : Reachable config s)
    (hptr : s.live.lookup ptr = some size) (file : Option String) (line : Int) :
    s.manager.clearTracking.deallocate s.heap ptr = (s.heap, s.manager.clearTracking) ∧
    s.manager.clearTracking.allocate s.heap size file line =
      .error (.selfDeadlock .poolMutex) := by
  refine ⟨deallocate_of_lookup_none (.inr rfl), ?_⟩
  -- the block is still out, so its class's pool has an empty free list
  obtain ⟨pool, hpool, -, hiff⟩ := hs.classPool hleak size
  have hout : liveIn s.manager.poolIndexMap s.live (getPoolIndex s.manager.poolIndexMap size) ≠
      [] := List.ne_nil_of_mem (mem_liveIn.mpr ⟨size, hptr, rfl⟩)
  have h0 : pool.freeList = 0 := not_not.mp (mt hiff.mp hout)
  rw [allocate_of_pool (show s.manager.clearTracking.memoryPools[getPoolIndex
    s.manager.clearTracking.poolIndexMap size]? = some pool from hpool),
    allocate_of_freeList_eq_zero h0]
  rfl

theorem clearTracking_strands_live_block_default :
    MemoryPoolConfig.default.enableLeakDetection = true ∧ Reachable .default allocatedSession ∧
    allocatedSession.live.lookup 4120 = some 64 ∧
    (allocatedSession.manager.clearTracking.deallocate allocatedSession.heap 4120 =
        (allocatedSession.heap, allocatedSession.manager.clearTracking) ∧
      allocatedSession.manager.clearTracking.allocate allocatedSession.heap 64 none 0 =
        .error (.selfDeadlock .poolMutex)) :=
  ⟨rfl, allocatedSession_reachable, by decide,
    clearTracking_strands_live_block rfl allocatedSession_reachable
      (show allocatedSession.live.lookup 4120 = some 64 by decide) none 0⟩

/-! ## The heap after the constructor, and shutdown -/

/-- Every slab is a chunk that `std::malloc` handed out and nothing has freed since. -/
def SlabsLive (h : Heap) (m : NeuralMemoryManager) : Prop :=
  ∀ q ∈ (slabTable m).flatten, q ∈ h.chunks.map Prod.fst

theorem allocate_heap_eq {h h' : Heap} {m m' : NeuralMemoryManager} {size : UInt64}
    {file : Option String} {line : Int} {ptr : Nat}
    (hlt : getPoolIndex m.poolIndexMap size < m.memoryPools.length)
    (ha : m.allocate h size file line = .ok (ptr, h', m')) : h' = h := by
  obtain ⟨pool', hpa, -⟩ := NeuralMemoryManager.allocate_eq_ok hlt ha
  exact (MemoryPool.allocate_eq_ok hpa).2.2.1

theorem SessionInv.chunks_step {config : MemoryPoolConfig} {s s' : Session}
    (hs : SessionInv config s) (hstep : Step s s') : s'.heap.chunks = s.heap.chunks := by
  cases hstep with
  | allocate ha => rw [allocate_heap_eq (hs.manager.getPoolIndex_lt _) ha]
  | deallocate _ => exact deallocate_chunks ..
  | reallocate hptr hr =>
    rcases reallocate_eq_ok hr with ⟨-, ha⟩ | ⟨-, -, -, hd⟩ | ⟨h0, -, hb, -⟩ |
      ⟨-, -, block, -, ⟨-, -, rfl, -⟩ | ⟨-, h₁, m₁, ha, hd⟩⟩
    · rw [allocate_heap_eq (hs.manager.getPoolIndex_lt _) ha]
    · exact (congrArg Heap.chunks (congrArg Prod.fst hd)).trans (deallocate_chunks ..)
    · obtain ⟨block, hb', -⟩ := hs.manager.record_of_mem (hptr.resolve_left h0)
      cases hb.symm.trans hb'
    · rfl
    · obtain rfl := allocate_heap_eq (hs.manager.getPoolIndex_lt _) ha
      split_ifs at hd
      · exact (congrArg Heap.chunks (congrArg Prod.fst hd)).trans (deallocate_chunks ..)
      · cases hd; rfl

theorem Reachable.slabsLive {config : MemoryPoolConfig} {s : Session}
    (hleak : config.enableLeakDetection = true) (hs : Reachable config s) :
    SlabsLive s.heap s.manager := by
  induction hs with
  | init hc => exact (SlabInv.create hc).2
  | step hs' hstep ih =>
    intro q hq
    have htable : slabTable _ = slabTable _ :=
      hs'.managerReachable.tableInv.slabTable_call hstep.call
    rw [(hs'.sessionInv hleak).chunks_step hstep]
    exact ih q (htable ▸ hq)

theorem foldlM_destroy (pools : List MemoryPool) (h : Heap) :
    pools.foldlM (fun h pool => pool.destroy h) h =
      (pools.map (·.allocatedBlocks)).flatten.foldlM Heap.free h := by
  induction pools generalizing h with
  | nil => rfl
  | cons pool pools ih =>
    simp only [List.foldlM_cons, ih, List.map_cons, List.flatten_cons, List.foldlM_append]
    rfl

/--
With leak detection on, `~NeuralMemoryManager()` in a reachable session warns exactly when
some allocation is live, and the pools' destructors then free each slab once, every one a
live chunk: the heap loses exactly the slabs.
-/
theorem destroy_frees_each_slab_once {config : MemoryPoolConfig} {s : Session}
    (hleak : config.enableLeakDetection = true) (hs : Reachable config s) :
    ((s.manager.destroy s.heap).1.isSome ↔ s.live.entries ≠ []) ∧
    (s.manager.destroy s.heap).2 = some { s.heap with
      chunks := s.heap.chunks.filter fun c =>
        c.1 ∉ s.manager.memoryPools.flatMap (·.allocatedBlocks) } := by
  have hsi := hs.sessionInv hleak
  have hslab : SlabInv (slabTable s.manager) := hs.managerReachable.slabInv
  refine ⟨?_, ?_⟩
  · simp only [NeuralMemoryManager.destroy, hsi.manager.detectLeaks_eq.1, ← List.length_pos]
    split_ifs with hpos <;> simp [hpos]
  · rw [List.flatMap_def]
    exact (foldlM_destroy _ _).trans
      (Heap.foldlM_free hslab.nodup hslab.zero_not_mem (hs.slabsLive hleak))

theorem destroy_frees_each_slab_once_default :
    MemoryPoolConfig.default.enableLeakDetection = true ∧ Reachable .default allocatedSession ∧
    (((allocatedSession.manager.destroy allocatedSession.heap).1.isSome ↔
        allocatedSession.live.entries ≠ []) ∧
      (allocatedSession.manager.destroy allocatedSession.heap).2 = some { allocatedSession.heap with
        chunks := allocatedSession.heap.chunks.filter fun c =>
          c.1 ∉ allocatedSession.manager.memoryPools.flatMap (·.allocatedBlocks) }) :=
  ⟨rfl, allocatedSession_reachable, destroy_frees_each_slab_once rfl allocatedSession_reachable⟩

end NeuralMemory
