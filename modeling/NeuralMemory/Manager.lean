import NeuralMemory.Pool
import NeuralMemory.SizeClass
import NeuralMemory.Metrics

/-!
# `NeuralMemoryManager`

The manager owns one `MemoryPool` per size class, the tracker `allocated_blocks` that
leak detection reads, the performance counters and the corruption detector's switch.
Every operation takes the process memory `Heap` along with the manager.

`allocate` picks a pool with `get_or_create_pool`, pops a block, and then records the
allocation when leak detection is on and counts it when performance monitoring is on.
`deallocate` finds the pool again from the tracker's record of the pointer: a pointer
with no record goes back to no pool.  Records are overwritten but never erased (except by
`clear_tracking`), so a freed pointer keeps its record, with `is_freed` set.
-/

namespace NeuralMemory

/-- `allocated_blocks`: pointer ↦ record, most recently written first. -/
abbrev Tracker := AList (fun _ : Nat => MemoryBlock)

structure NeuralMemoryManager where
  defaultConfig : MemoryPoolConfig
  memoryPools : List MemoryPool
  poolIndexMap : PoolIndexMap
  allocatedBlocks : Tracker
  metrics : PerformanceMetrics
  /-- `corruption_detector.enabled`; its `magic_value` is never read. -/
  corruptionDetection : Bool

structure MemoryStats where
  totalAllocated : UInt64
  totalDeallocated : UInt64
  currentUsage : UInt64
  peakUsage : UInt64
  activeAllocations : Nat
  totalPools : Nat
  deriving DecidableEq, Repr

structure LeakReport where
  leakedBlocks : Nat
  leakedBytes : UInt64
  leaks : List MemoryBlock
  deriving DecidableEq, Repr

namespace NeuralMemoryManager

/-- `common_sizes`: the classes the constructor creates. -/
def commonSizes : List UInt64 := [64, 128, 256, 512, 1024, 2048, 4096, 8192]

/-- One pass of the constructor's loop: a pool for `size`, registered at its index. -/
def addPool (config : MemoryPoolConfig) (acc : Heap × NeuralMemoryManager) (size : UInt64) :
    Except Fault (Heap × NeuralMemoryManager) := do
  let (h, pool) ← MemoryPool.create { config with blockSize := size } acc.1
  let m := { acc.2 with memoryPools := acc.2.memoryPools ++ [pool] }
  pure (h, { m with poolIndexMap := m.poolIndexMap.insert size (m.memoryPools.length - 1) })

/-- `NeuralMemoryManager(config)`. -/
def create (config : MemoryPoolConfig) (h : Heap) : Except Fault (Heap × NeuralMemoryManager) :=
  commonSizes.foldlM (addPool config)
    (h, ⟨config, [], ∅, ∅, .zero, config.enableCorruptionDetection⟩)

/-- Writing back the pool at `idx` after an operation on it. -/
def setPool (m : NeuralMemoryManager) (idx : Nat) (pool : MemoryPool) : NeuralMemoryManager :=
  { m with memoryPools := m.memoryPools.set idx pool }

/-- `get_or_create_pool(size)`: the index of the pool to use, and that pool. -/
def getOrCreatePool (h : Heap) (m : NeuralMemoryManager) (size : UInt64) :
    Except Fault (Nat × MemoryPool × Heap × NeuralMemoryManager) :=
  let poolIdx := getPoolIndex m.poolIndexMap size
  if hlt : poolIdx < m.memoryPools.length then .ok (poolIdx, m.memoryPools[poolIdx], h, m)
  else do
    let (h, pool) ← MemoryPool.create { m.defaultConfig with blockSize := size } h
    let m := { m with memoryPools := m.memoryPools ++ [pool] }
    pure (m.memoryPools.length - 1, pool, h,
      { m with poolIndexMap := m.poolIndexMap.insert size (m.memoryPools.length - 1) })

def trackAllocation (m : NeuralMemoryManager) (ptr : Nat) (size : UInt64) (file : Option String)
    (line : Int) : NeuralMemoryManager :=
  { m with allocatedBlocks :=
      m.allocatedBlocks.insert ptr ⟨ptr, size, file.getD "unknown", line, false⟩ }

def trackDeallocation (m : NeuralMemoryManager) (ptr : Nat) : NeuralMemoryManager :=
  match m.allocatedBlocks.lookup ptr with
  | some block =>
    { m with allocatedBlocks := m.allocatedBlocks.insert ptr { block with isFreed := true } }
  | none => m

def updatePerformanceMetrics (m : NeuralMemoryManager) (bytes : UInt64) (isAllocation : Bool) :
    NeuralMemoryManager :=
  { m with metrics := m.metrics.updatePerformanceMetrics bytes isAllocation }

/-- The bookkeeping `allocate` does once the pool has handed out `ptr`. -/
def recordAllocation (m : NeuralMemoryManager) (ptr : Nat) (size : UInt64) (file : Option String)
    (line : Int) : NeuralMemoryManager :=
  let m := if m.defaultConfig.enableLeakDetection then m.trackAllocation ptr size file line else m
  if m.defaultConfig.enablePerformanceMonitoring then m.updatePerformanceMetrics size true else m

def allocate (h : Heap) (m : NeuralMemoryManager) (size : UInt64) (file : Option String)
    (line : Int) : Except Fault (Nat × Heap × NeuralMemoryManager) := do
  let (idx, pool, h, m) ← m.getOrCreatePool h size
  let (ptr, h, pool) ← pool.allocate h
  pure (ptr, h, (m.setPool idx pool).recordAllocation ptr size file line)

/--
The search loop of `deallocate`.  Each pass looks `ptr` up in the tracker, so the first
pass decides; with no pools the body never runs.
-/
def findPool (m : NeuralMemoryManager) (ptr : Nat) :
    List MemoryPool → Option (Fin m.memoryPools.length)
  | [] => none
  | _ :: pools =>
      match m.allocatedBlocks.lookup ptr with
      | some block =>
          let poolIdx := getPoolIndex m.poolIndexMap block.size
          if hlt : poolIdx < m.memoryPools.length then some ⟨poolIdx, hlt⟩ else none
      | none => findPool m ptr pools

/-- The bookkeeping `deallocate` does after returning the block to its pool, if any. -/
def recordDeallocation (m : NeuralMemoryManager) (ptr : Nat) : NeuralMemoryManager :=
  let m := if m.defaultConfig.enableLeakDetection then m.trackDeallocation ptr else m
  if m.defaultConfig.enablePerformanceMonitoring then
    match m.allocatedBlocks.lookup ptr with
    | some block => m.updatePerformanceMetrics block.size false
    | none => m
  else m

def deallocate (h : Heap) (m : NeuralMemoryManager) (ptr : Nat) : Heap × NeuralMemoryManager :=
  if ptr = 0 then (h, m)
  else
    match m.findPool ptr m.memoryPools with
    | some idx =>
        let (h, pool) := (m.memoryPools.get idx).deallocate ptr h
        (h, (m.setPool idx pool).recordDeallocation ptr)
    | none => (h, m.recordDeallocation ptr)

def reallocate (h : Heap) (m : NeuralMemoryManager) (ptr : Nat) (newSize : UInt64)
    (file : Option String) (line : Int) : Except Fault (Nat × Heap × NeuralMemoryManager) :=
  if ptr = 0 then m.allocate h newSize file line
  else if newSize = 0 then
    let (h, m) := m.deallocate h ptr
    .ok (0, h, m)
  else
    match m.allocatedBlocks.lookup ptr with
    | none => do
        let (newPtr, h) ← h.realloc ptr newSize
        pure (newPtr, h, if newPtr ≠ 0 then m.trackAllocation newPtr newSize file line else m)
    | some block =>
        if newSize ≤ block.size then .ok (ptr, h, m)
        else do
          let (newPtr, h, m) ← m.allocate h newSize file line
          if newPtr ≠ 0 then
            let (h, m) := m.deallocate (h.memcpy newPtr ptr block.size.toNat) ptr
            pure (newPtr, h, m)
          else pure (newPtr, h, m)

def getMemoryStats (m : NeuralMemoryManager) : MemoryStats :=
  ⟨m.metrics.totalBytesAllocated, m.metrics.totalBytesDeallocated, m.metrics.currentMemoryUsage,
    m.metrics.peakMemoryUsage, m.allocatedBlocks.entries.length, m.memoryPools.length⟩

/-- One pass of the loop of `detect_leaks`. -/
def leakStep (report : LeakReport) (pair : Sigma fun _ : Nat => MemoryBlock) : LeakReport :=
  if !pair.2.isFreed then
    ⟨report.leakedBlocks + 1, report.leakedBytes + pair.2.size, report.leaks ++ [pair.2]⟩
  else report

def detectLeaks (m : NeuralMemoryManager) : LeakReport :=
  m.allocatedBlocks.entries.foldl leakStep ⟨0, 0, []⟩

def setCorruptionDetection (m : NeuralMemoryManager) (enabled : Bool) : NeuralMemoryManager :=
  { m with corruptionDetection := enabled }

def validateMemoryIntegrity (m : NeuralMemoryManager) (ptr : Nat) (size : UInt64) : Bool :=
  if !m.corruptionDetection then true else ptr != 0 && size > 0

def validateAllMemory (m : NeuralMemoryManager) : Bool :=
  if !m.corruptionDetection then true
  else m.allocatedBlocks.entries.all fun pair =>
    pair.2.isFreed || m.validateMemoryIntegrity pair.2.ptr pair.2.size

def getAllocationHistory (m : NeuralMemoryManager) : List MemoryBlock :=
  m.allocatedBlocks.entries.map (·.2)

def clearTracking (m : NeuralMemoryManager) : NeuralMemoryManager :=
  { m with allocatedBlocks := ∅ }

/--
`~NeuralMemoryManager()`: the report it prints a warning with, when `detect_leaks` finds a
block, and then the destructors of the pools, in the order of `memory_pools`.
-/
def destroy (h : Heap) (m : NeuralMemoryManager) : Option LeakReport × Option Heap :=
  let leaks := m.detectLeaks
  (if leaks.leakedBlocks > 0 then some leaks else none,
    m.memoryPools.foldlM (fun h pool => pool.destroy h) h)

/-- `ThreadLocalCache`; its `pool_index` and `cache_mutex` are never read. -/
structure ThreadLocalCache where
  cachedBlocks : List Nat
  deriving DecidableEq, Repr

/-- The loop of `warmup_thread_cache`: `allocate(64)` and a push, `poolSize` times. -/
def warmupLoop (h : Heap) (m : NeuralMemoryManager) (cache : ThreadLocalCache) :
    Nat → Except Fault (Heap × NeuralMemoryManager × ThreadLocalCache)
  | 0 => .ok (h, m, cache)
  | poolSize + 1 => do
      let (block, h, m) ← m.allocate h 64 none 0
      warmupLoop h m ⟨cache.cachedBlocks ++ [block]⟩ poolSize

theorem warmupLoop_succ_of_ok {h h' : Heap} {m m' : NeuralMemoryManager}
    {cache : ThreadLocalCache} {block n : Nat} (ha : m.allocate h 64 none 0 = .ok (block, h', m')) :
    warmupLoop h m cache (n + 1) = warmupLoop h' m' ⟨cache.cachedBlocks ++ [block]⟩ n := by
  rw [warmupLoop, ha]; rfl

theorem warmupLoop_succ_of_error {h : Heap} {m : NeuralMemoryManager} {cache : ThreadLocalCache}
    {n : Nat} {e : Fault} (ha : m.allocate h 64 none 0 = .error e) :
    warmupLoop h m cache (n + 1) = .error e := by
  rw [warmupLoop, ha]; rfl

/-- `warmup_thread_cache(pool_size)`, creating the thread's cache if it has none. -/
def warmupThreadCache (h : Heap) (m : NeuralMemoryManager) (threadCache : Option ThreadLocalCache)
    (poolSize : Nat) : Except Fault (Heap × NeuralMemoryManager × ThreadLocalCache) :=
  warmupLoop h m (threadCache.getD ⟨[]⟩) poolSize

/-! ## What each piece of bookkeeping touches -/

section Fields

variable (m : NeuralMemoryManager) (ptr : Nat) (size : UInt64) (file : Option String) (line : Int)

@[simp] theorem setPool_memoryPools (idx : Nat) (pool : MemoryPool) :
    (m.setPool idx pool).memoryPools = m.memoryPools.set idx pool := rfl

@[simp] theorem setPool_poolIndexMap (idx : Nat) (pool : MemoryPool) :
    (m.setPool idx pool).poolIndexMap = m.poolIndexMap := rfl

@[simp] theorem setPool_allocatedBlocks (idx : Nat) (pool : MemoryPool) :
    (m.setPool idx pool).allocatedBlocks = m.allocatedBlocks := rfl

@[simp] theorem setPool_metrics (idx : Nat) (pool : MemoryPool) :
    (m.setPool idx pool).metrics = m.metrics := rfl

@[simp] theorem setPool_defaultConfig (idx : Nat) (pool : MemoryPool) :
    (m.setPool idx pool).defaultConfig = m.defaultConfig := rfl

@[simp] theorem trackAllocation_memoryPools :
    (m.trackAllocation ptr size file line).memoryPools = m.memoryPools :=
  rfl

@[simp] theorem trackDeallocation_memoryPools :
    (m.trackDeallocation ptr).memoryPools = m.memoryPools := by
  unfold trackDeallocation; split <;> rfl

@[simp] theorem trackAllocation_poolIndexMap :
    (m.trackAllocation ptr size file line).poolIndexMap = m.poolIndexMap :=
  rfl

@[simp] theorem trackDeallocation_poolIndexMap :
    (m.trackDeallocation ptr).poolIndexMap = m.poolIndexMap := by
  unfold trackDeallocation; split <;> rfl

@[simp] theorem trackAllocation_defaultConfig :
    (m.trackAllocation ptr size file line).defaultConfig = m.defaultConfig :=
  rfl

@[simp] theorem trackDeallocation_defaultConfig :
    (m.trackDeallocation ptr).defaultConfig = m.defaultConfig := by
  unfold trackDeallocation; split <;> rfl

@[simp] theorem trackAllocation_metrics :
    (m.trackAllocation ptr size file line).metrics = m.metrics :=
  rfl

@[simp] theorem trackDeallocation_metrics : (m.trackDeallocation ptr).metrics = m.metrics := by
  unfold trackDeallocation; split <;> rfl

@[simp] theorem updatePerformanceMetrics_memoryPools (isAllocation : Bool) :
    (m.updatePerformanceMetrics size isAllocation).memoryPools = m.memoryPools := rfl

@[simp] theorem updatePerformanceMetrics_poolIndexMap (isAllocation : Bool) :
    (m.updatePerformanceMetrics size isAllocation).poolIndexMap = m.poolIndexMap := rfl

@[simp] theorem updatePerformanceMetrics_defaultConfig (isAllocation : Bool) :
    (m.updatePerformanceMetrics size isAllocation).defaultConfig = m.defaultConfig := rfl

@[simp] theorem updatePerformanceMetrics_allocatedBlocks (isAllocation : Bool) :
    (m.updatePerformanceMetrics size isAllocation).allocatedBlocks = m.allocatedBlocks := rfl

@[simp] theorem recordAllocation_memoryPools :
    (m.recordAllocation ptr size file line).memoryPools = m.memoryPools := by
  dsimp only [recordAllocation]; split_ifs <;> simp

@[simp] theorem recordDeallocation_memoryPools :
    (m.recordDeallocation ptr).memoryPools = m.memoryPools := by
  dsimp only [recordDeallocation]; split_ifs <;> (try split) <;> simp

@[simp] theorem recordAllocation_poolIndexMap :
    (m.recordAllocation ptr size file line).poolIndexMap = m.poolIndexMap := by
  dsimp only [recordAllocation]; split_ifs <;> simp

@[simp] theorem recordDeallocation_poolIndexMap :
    (m.recordDeallocation ptr).poolIndexMap = m.poolIndexMap := by
  dsimp only [recordDeallocation]; split_ifs <;> (try split) <;> simp

@[simp] theorem recordAllocation_defaultConfig :
    (m.recordAllocation ptr size file line).defaultConfig = m.defaultConfig := by
  dsimp only [recordAllocation]; split_ifs <;> simp

@[simp] theorem recordDeallocation_defaultConfig :
    (m.recordDeallocation ptr).defaultConfig = m.defaultConfig := by
  dsimp only [recordDeallocation]; split_ifs <;> (try split) <;> simp

@[simp] theorem setPool_corruptionDetection (idx : Nat) (pool : MemoryPool) :
    (m.setPool idx pool).corruptionDetection = m.corruptionDetection := rfl

@[simp] theorem trackAllocation_corruptionDetection :
    (m.trackAllocation ptr size file line).corruptionDetection = m.corruptionDetection := rfl

@[simp] theorem trackDeallocation_corruptionDetection :
    (m.trackDeallocation ptr).corruptionDetection = m.corruptionDetection := by
  unfold trackDeallocation; split <;> rfl

@[simp] theorem updatePerformanceMetrics_corruptionDetection (isAllocation : Bool) :
    (m.updatePerformanceMetrics size isAllocation).corruptionDetection =
      m.corruptionDetection := rfl

@[simp] theorem recordAllocation_corruptionDetection :
    (m.recordAllocation ptr size file line).corruptionDetection = m.corruptionDetection := by
  dsimp only [recordAllocation]; split_ifs <;> simp

@[simp] theorem recordDeallocation_corruptionDetection :
    (m.recordDeallocation ptr).corruptionDetection = m.corruptionDetection := by
  dsimp only [recordDeallocation]; split_ifs <;> (try split) <;> simp

theorem recordAllocation_allocatedBlocks (hleak : m.defaultConfig.enableLeakDetection = true) :
    (m.recordAllocation ptr size file line).allocatedBlocks =
      m.allocatedBlocks.insert ptr ⟨ptr, size, file.getD "unknown", line, false⟩ := by
  dsimp only [recordAllocation]; rw [if_pos hleak]; split_ifs <;> rfl

theorem recordAllocation_allocatedBlocks_of_leak_off
    (hleak : m.defaultConfig.enableLeakDetection = false) :
    (m.recordAllocation ptr size file line).allocatedBlocks = m.allocatedBlocks := by
  dsimp only [recordAllocation]; simp only [hleak, Bool.false_eq_true, if_false]; split_ifs <;> rfl

theorem recordAllocation_metrics (hperf : m.defaultConfig.enablePerformanceMonitoring = true) :
    (m.recordAllocation ptr size file line).metrics =
      m.metrics.updatePerformanceMetrics size true := by
  dsimp only [recordAllocation]; split_ifs <;> simp_all [updatePerformanceMetrics]

theorem recordDeallocation_allocatedBlocks {block : MemoryBlock}
    (hleak : m.defaultConfig.enableLeakDetection = true)
    (hb : m.allocatedBlocks.lookup ptr = some block) :
    (m.recordDeallocation ptr).allocatedBlocks =
      m.allocatedBlocks.insert ptr { block with isFreed := true } := by
  dsimp only [recordDeallocation]; rw [if_pos hleak]; split_ifs <;> (try split) <;>
    simp [trackDeallocation, hb]

theorem recordDeallocation_metrics {block : MemoryBlock}
    (hleak : m.defaultConfig.enableLeakDetection = true)
    (hperf : m.defaultConfig.enablePerformanceMonitoring = true)
    (hb : m.allocatedBlocks.lookup ptr = some block) :
    (m.recordDeallocation ptr).metrics = m.metrics.updatePerformanceMetrics block.size false := by
  simp [recordDeallocation, hleak, hperf, trackDeallocation, hb, AList.lookup_insert,
    updatePerformanceMetrics]

end Fields

/-! ## One lemma per operation -/

theorem addPool_eq_ok {config : MemoryPoolConfig} {acc r : Heap × NeuralMemoryManager}
    {size : UInt64} (ha : addPool config acc size = .ok r) :
    ∃ pool, MemoryPool.create { config with blockSize := size } acc.1 = .ok (r.1, pool) ∧
      r.2 = { acc.2 with
        memoryPools := acc.2.memoryPools ++ [pool]
        poolIndexMap := acc.2.poolIndexMap.insert size acc.2.memoryPools.length } := by
  simp only [addPool, Except.bind_eq_ok] at ha
  obtain ⟨⟨h, pool⟩, hc, hres⟩ := ha
  cases hres
  exact ⟨pool, hc, by simp⟩

theorem foldlM_addPool_induction {config : MemoryPoolConfig}
    {P : Heap × NeuralMemoryManager → Prop}
    (hstep : ∀ acc r size, P acc → addPool config acc size = .ok r → P r) :
    ∀ (sizes : List UInt64) (acc r : Heap × NeuralMemoryManager),
      P acc → sizes.foldlM (addPool config) acc = .ok r → P r
  | [], acc, r, hacc, hr => by cases hr; exact hacc
  | size :: sizes, acc, r, hacc, hr => by
      simp only [List.foldlM_cons, Except.bind_eq_ok] at hr
      obtain ⟨acc', ha, hrest⟩ := hr
      exact foldlM_addPool_induction hstep sizes acc' r (hstep acc acc' size hacc ha) hrest

theorem foldlM_addPool_length {config : MemoryPoolConfig} :
    ∀ (sizes : List UInt64) (acc r : Heap × NeuralMemoryManager),
      sizes.foldlM (addPool config) acc = .ok r →
        r.2.memoryPools.length = acc.2.memoryPools.length + sizes.length
  | [], acc, r, hr => by cases hr; rfl
  | size :: sizes, acc, r, hr => by
      simp only [List.foldlM_cons, Except.bind_eq_ok] at hr
      obtain ⟨acc', ha, hrest⟩ := hr
      obtain ⟨pool, -, hacc'⟩ := addPool_eq_ok ha
      rw [foldlM_addPool_length sizes acc' r hrest, hacc']
      simp only [List.length_append, List.length_cons, List.length_nil]
      omega

theorem create_memoryPools_length {config : MemoryPoolConfig} {h h' : Heap}
    {m : NeuralMemoryManager} (hc : create config h = .ok (h', m)) :
    m.memoryPools.length = commonSizes.length :=
  foldlM_addPool_length _ _ _ hc

theorem getOrCreatePool_of_lt {h : Heap} {m : NeuralMemoryManager} {size : UInt64}
    (hlt : getPoolIndex m.poolIndexMap size < m.memoryPools.length) :
    m.getOrCreatePool h size =
      .ok (getPoolIndex m.poolIndexMap size, m.memoryPools[getPoolIndex m.poolIndexMap size],
        h, m) :=
  dif_pos hlt

theorem allocate_eq_ok {h h' : Heap} {m m' : NeuralMemoryManager} {size : UInt64}
    {file : Option String} {line : Int} {ptr : Nat}
    (hlt : getPoolIndex m.poolIndexMap size < m.memoryPools.length)
    (ha : m.allocate h size file line = .ok (ptr, h', m')) :
    ∃ pool', m.memoryPools[getPoolIndex m.poolIndexMap size].allocate h = .ok (ptr, h', pool') ∧
      m' = (m.setPool (getPoolIndex m.poolIndexMap size) pool').recordAllocation
        ptr size file line := by
  simp only [allocate, getOrCreatePool_of_lt hlt, Except.bind_eq_ok, Except.ok.injEq] at ha
  obtain ⟨_, rfl, ⟨ptr', h'', pool'⟩, hpa, hres⟩ := ha
  cases hres
  exact ⟨pool', hpa, rfl⟩

theorem allocate_of_pool {h : Heap} {m : NeuralMemoryManager} {size : UInt64}
    {file : Option String} {line : Int} {pool : MemoryPool}
    (hpool : m.memoryPools[getPoolIndex m.poolIndexMap size]? = some pool) :
    m.allocate h size file line = (pool.allocate h).bind fun (ptr, h, pool) =>
      .ok (ptr, h, (m.setPool (getPoolIndex m.poolIndexMap size) pool).recordAllocation
        ptr size file line) := by
  obtain ⟨hlt, rfl⟩ := List.getElem?_eq_some_iff.mp hpool
  simp only [allocate, getOrCreatePool_of_lt hlt]
  rfl

/-- `allocate(5000)` on a fresh default manager hands out a block of the 4096-byte pool. -/
theorem allocate_5000_gets_4096_byte_block :
    (do
      let (h, m) ← create .default (Heap.init 4096 4294967296)
      let (ptr, _, m) ← m.allocate h 5000 none 0
      pure ((m.memoryPools.find? fun pool => MemoryPool.slabOf ptr ∈ pool.allocatedBlocks).map
        (·.config.blockSize))) = Except.ok (some 4096) := by
  rfl

theorem findPool_of_lookup_none {m : NeuralMemoryManager} {ptr : Nat}
    (hb : m.allocatedBlocks.lookup ptr = none) (pools : List MemoryPool) :
    m.findPool ptr pools = none := by
  induction pools with
  | nil => rfl
  | cons _ pools ih => simp [findPool, hb, ih]

theorem findPool_of_lookup_some {m : NeuralMemoryManager} {ptr : Nat} {block : MemoryBlock}
    {pool : MemoryPool} {pools : List MemoryPool} (hb : m.allocatedBlocks.lookup ptr = some block)
    (hlt : getPoolIndex m.poolIndexMap block.size < m.memoryPools.length) :
    m.findPool ptr (pool :: pools) = some ⟨getPoolIndex m.poolIndexMap block.size, hlt⟩ := by
  simp [findPool, hb, hlt]

@[simp] theorem trackDeallocation_of_lookup_none {m : NeuralMemoryManager} {ptr : Nat}
    (hb : m.allocatedBlocks.lookup ptr = none) : m.trackDeallocation ptr = m := by
  simp [trackDeallocation, hb]

theorem recordDeallocation_of_lookup_none {m : NeuralMemoryManager} {ptr : Nat}
    (hb : m.allocatedBlocks.lookup ptr = none) : m.recordDeallocation ptr = m := by
  unfold recordDeallocation
  split_ifs <;> simp [hb]

theorem deallocate_of_lookup_none {h : Heap} {m : NeuralMemoryManager} {ptr : Nat}
    (hb : ptr = 0 ∨ m.allocatedBlocks.lookup ptr = none) : m.deallocate h ptr = (h, m) := by
  unfold deallocate
  split_ifs with h0
  · rfl
  · have hb : m.allocatedBlocks.lookup ptr = none := hb.resolve_left h0
    rw [findPool_of_lookup_none hb, recordDeallocation_of_lookup_none hb]

theorem deallocate_after_allocate_of_leak_off {h h' : Heap} {m m' : NeuralMemoryManager}
    {size : UInt64} {file : Option String} {line : Int} {ptr : Nat}
    (hlt : getPoolIndex m.poolIndexMap size < m.memoryPools.length)
    (hleak : m.defaultConfig.enableLeakDetection = false)
    (ha : m.allocate h size file line = .ok (ptr, h', m'))
    (hb : m.allocatedBlocks.lookup ptr = none) : m'.deallocate h' ptr = (h', m') := by
  obtain ⟨pool', -, rfl⟩ := allocate_eq_ok hlt ha
  refine deallocate_of_lookup_none (.inr ?_)
  rw [recordAllocation_allocatedBlocks_of_leak_off _ _ _ _ _ (by simpa using hleak)]
  simpa using hb

/-- So the 64-byte pool of a manager without leak detection keeps its block counted. -/
theorem deallocate_without_leak_detection_keeps_block :
    (do
      let (h, m) ← create ⟨4096, false, true, true⟩ (Heap.init 4096 4294967296)
      let (ptr, h, m) ← m.allocate h 64 none 0
      let (_, m) := m.deallocate h ptr
      pure (m.memoryPools[0]?.map fun pool => (pool.freeList, pool.allocatedCount))) =
    Except.ok (some (0, 1)) := by
  -- the constructor, and the `allocate(64)` that records nothing
  obtain ⟨⟨h, m⟩, hc, ⟨ptr, h', m'⟩, ha, hlt, hleak, hb, hpool⟩ :
      ∃ r, create ⟨4096, false, true, true⟩ (Heap.init 4096 4294967296) = .ok r ∧
        ∃ s, r.2.allocate r.1 64 none 0 = .ok s ∧
          getPoolIndex r.2.poolIndexMap 64 < r.2.memoryPools.length ∧
          r.2.defaultConfig.enableLeakDetection = false ∧ r.2.allocatedBlocks.lookup s.1 = none ∧
          s.2.2.memoryPools[0]?.map
            (fun pool : MemoryPool => (pool.freeList, pool.allocatedCount)) = some (0, 1) :=
    ⟨_, rfl, _, rfl, by decide, rfl, rfl, by decide⟩
  simp only [hc, ha, bind, Except.bind, deallocate_after_allocate_of_leak_off hlt hleak ha hb,
    hpool]
  rfl

theorem deallocate_of_lookup_some {h : Heap} {m : NeuralMemoryManager} {ptr : Nat}
    {block : MemoryBlock} (hptr : ptr ≠ 0) (hpools : m.memoryPools ≠ [])
    (hb : m.allocatedBlocks.lookup ptr = some block)
    (hlt : getPoolIndex m.poolIndexMap block.size < m.memoryPools.length) :
    m.deallocate h ptr =
      ((m.memoryPools[getPoolIndex m.poolIndexMap block.size].deallocate ptr h).1,
        (m.setPool (getPoolIndex m.poolIndexMap block.size)
          (m.memoryPools[getPoolIndex m.poolIndexMap block.size].deallocate ptr h).2
          ).recordDeallocation ptr) := by
  obtain ⟨pool, pools, hcons⟩ := List.exists_cons_of_ne_nil hpools
  unfold deallocate
  rw [if_neg hptr]
  have := @findPool_of_lookup_some m ptr block pool pools hb hlt
  rw [← hcons] at this
  rw [this]
  rfl

/--
A record outlives its block, with `is_freed` set, so a second `deallocate` of the same
pointer pushes the block again and takes its size off the counters again.
-/
theorem deallocate_twice_wraps_counters :
    (do
      let (h, m) ← create .default (Heap.init 4096 4294967296)
      let (ptr, h, m) ← m.allocate h 64 none 0
      let (h, m₁) := m.deallocate h ptr
      let (_, m₂) := m₁.deallocate h ptr
      pure ((m₁.metrics.currentMemoryUsage, m₁.memoryPools[0]?.map (·.allocatedCount)),
        (m₂.metrics.currentMemoryUsage, m₂.memoryPools[0]?.map (·.allocatedCount)))) =
    Except.ok ((0, some 0), (18446744073709551552, some 18446744073709551615)) := by
  rfl

@[simp] theorem deallocate_defaultConfig (h : Heap) (m : NeuralMemoryManager) (ptr : Nat) :
    (m.deallocate h ptr).2.defaultConfig = m.defaultConfig := by
  unfold deallocate
  split_ifs
  · rfl
  · split <;> simp

@[simp] theorem deallocate_chunks (h : Heap) (m : NeuralMemoryManager) (ptr : Nat) :
    (m.deallocate h ptr).1.chunks = h.chunks := by
  unfold deallocate
  split_ifs with h0
  · rfl
  · split
    · rw [MemoryPool.deallocate_of_ne_zero h0]; rfl
    · rfl

theorem length_insert_of_mem {t : Tracker} {ptr : Nat} (block : MemoryBlock) (hptr : ptr ∈ t) :
    (t.insert ptr block).entries.length = t.entries.length := by
  have hk := congrArg List.length (@AList.keys_insert Nat (fun _ => MemoryBlock) _ ptr block t)
  have hpos := List.length_pos_of_mem (AList.mem_keys.mp hptr)
  rw [List.length_cons, List.length_erase_of_mem (AList.mem_keys.mp hptr),
    Nat.sub_add_cancel hpos] at hk
  simpa [AList.keys, List.keys] using hk

@[simp] theorem trackDeallocation_length (m : NeuralMemoryManager) (ptr : Nat) :
    (m.trackDeallocation ptr).allocatedBlocks.entries.length =
      m.allocatedBlocks.entries.length := by
  unfold trackDeallocation
  split
  · next block hb => exact length_insert_of_mem _ (AList.lookup_isSome.mp (by simp [hb]))
  · rfl

@[simp] theorem recordDeallocation_length (m : NeuralMemoryManager) (ptr : Nat) :
    (m.recordDeallocation ptr).allocatedBlocks.entries.length =
      m.allocatedBlocks.entries.length := by
  dsimp only [recordDeallocation]; split_ifs <;> (try split) <;> simp

theorem deallocate_allocatedBlocks_length (h : Heap) (m : NeuralMemoryManager) (ptr : Nat) :
    (m.deallocate h ptr).2.allocatedBlocks.entries.length = m.allocatedBlocks.entries.length := by
  unfold deallocate
  split_ifs
  · rfl
  · split <;> simp

/-- After one `allocate` and its `deallocate`, `active_allocations` still counts one. -/
theorem activeAllocations_counts_freed_record :
    (do
      let (h, m) ← create .default (Heap.init 4096 4294967296)
      let (ptr, h, m) ← m.allocate h 64 none 0
      pure (m.deallocate h ptr).2.getMemoryStats.activeAllocations) =
    Except.ok 1 := by
  simp only [getMemoryStats, deallocate_allocatedBlocks_length]
  rfl

theorem reallocate_eq_ok {h h' : Heap} {m m' : NeuralMemoryManager} {ptr : Nat} {newSize : UInt64}
    {file : Option String} {line : Int} {result : Nat}
    (hr : m.reallocate h ptr newSize file line = .ok (result, h', m')) :
    (ptr = 0 ∧ m.allocate h newSize file line = .ok (result, h', m')) ∨
    (ptr ≠ 0 ∧ newSize = 0 ∧ result = 0 ∧ (h', m') = m.deallocate h ptr) ∨
    (ptr ≠ 0 ∧ newSize ≠ 0 ∧ m.allocatedBlocks.lookup ptr = none ∧
      h.realloc ptr newSize = .ok (result, h') ∧
      m' = if result ≠ 0 then m.trackAllocation result newSize file line else m) ∨
    (ptr ≠ 0 ∧ newSize ≠ 0 ∧ ∃ block, m.allocatedBlocks.lookup ptr = some block ∧
      ((newSize ≤ block.size ∧ result = ptr ∧ h' = h ∧ m' = m) ∨
       (¬newSize ≤ block.size ∧ ∃ h₁ m₁,
         m.allocate h newSize file line = .ok (result, h₁, m₁) ∧
         (h', m') =
           if result ≠ 0 then m₁.deallocate (h₁.memcpy result ptr block.size.toNat) ptr
           else (h₁, m₁)))) := by
  unfold reallocate at hr
  by_cases h0 : ptr = 0
  · exact .inl ⟨h0, by rwa [if_pos h0] at hr⟩
  by_cases hs : newSize = 0
  · simp only [if_neg h0, if_pos hs, Except.ok.injEq, Prod.mk.injEq] at hr
    exact .inr (.inl ⟨h0, hs, hr.1.symm, by rw [← hr.2.1, ← hr.2.2]⟩)
  simp only [if_neg h0, if_neg hs] at hr
  refine .inr (.inr ?_)
  split at hr
  · next hb =>
    simp only [Except.bind_eq_ok, Except.ok.injEq] at hr
    obtain ⟨⟨newPtr, h₁⟩, hre, ⟨⟩⟩ := hr
    exact .inl ⟨h0, hs, hb, hre, rfl⟩
  · next block hb =>
    refine .inr ⟨h0, hs, block, hb, ?_⟩
    split_ifs at hr with hle
    · simp only [Except.ok.injEq, Prod.mk.injEq] at hr
      exact .inl ⟨hle, hr.1.symm, hr.2.1.symm, hr.2.2.symm⟩
    · simp only [Except.bind_eq_ok] at hr
      obtain ⟨⟨newPtr, h₁, m₁⟩, ha, hres⟩ := hr
      refine .inr ⟨hle, h₁, m₁, ?_⟩
      have : newPtr = result := by split_ifs at hres <;> cases hres <;> rfl
      subst this
      split_ifs at hres ⊢ <;> cases hres <;> exact ⟨ha, rfl⟩

theorem reallocate_of_grow {h : Heap} {m : NeuralMemoryManager} {ptr : Nat} {newSize : UInt64}
    {file : Option String} {line : Int} {block : MemoryBlock} (hptr : ptr ≠ 0)
    (hz : newSize ≠ 0) (hb : m.allocatedBlocks.lookup ptr = some block)
    (hgt : ¬newSize ≤ block.size) :
    m.reallocate h ptr newSize file line = (m.allocate h newSize file line).bind fun r =>
      .ok (if r.1 ≠ 0 then (r.1, r.2.2.deallocate (r.2.1.memcpy r.1 ptr block.size.toNat) ptr)
        else r) := by
  simp only [reallocate, if_neg hptr, if_neg hz, hb, if_neg hgt]
  congr 1
  funext ⟨newPtr, h, m⟩
  split_ifs <;> rfl

/--
`reallocate` growing a live block fails.  Without leak detection the pointer has no
record and goes to `std::realloc`; with it, a size whose nearest class is the block's
own asks that class's pool for a second block.
-/
theorem reallocate_live_pointer_fails :
    (do
      let (h, m) ← create ⟨4096, false, true, true⟩ (Heap.init 4096 4294967296)
      let (ptr, h, m) ← m.allocate h 64 none 0
      m.reallocate h ptr 128 none 0) = .error (.invalidRealloc 4120) ∧
    (do
      let (h, m) ← create .default (Heap.init 4096 4294967296)
      let (ptr, h, m) ← m.allocate h 64 none 0
      m.reallocate h ptr 70 none 0) = .error (.selfDeadlock .poolMutex) :=
  ⟨rfl, rfl⟩

theorem foldl_leakStep (l : List (Sigma fun _ : Nat => MemoryBlock)) (r : LeakReport) :
    l.foldl leakStep r =
      ⟨r.leakedBlocks + (l.filter fun e => !e.2.isFreed).length,
        r.leakedBytes + ((l.filter fun e => !e.2.isFreed).map (·.2.size)).sum,
        r.leaks ++ (l.filter fun e => !e.2.isFreed).map (·.2)⟩ := by
  induction l generalizing r with
  | nil => simp
  | cons e l ih =>
    rw [List.foldl_cons, ih]
    cases hf : e.2.isFreed <;> simp [leakStep, hf, List.filter_cons]
    exact ⟨by omega, add_assoc _ _ _⟩

end NeuralMemoryManager

end NeuralMemory
