import NeuralMemory.Invariant

/-!
# Reachable sessions

`Reachable config` is every session a program reaches from `NeuralMemoryManager(config)`
by calls that return, passing `deallocate` and `reallocate` only null or live pointers.
With leak detection on, every such session satisfies `SessionInv`: the manager invariant,
and with performance monitoring on the metrics invariant as well.  The constructor's loop
keeps `BuildInv`, which gives `SessionInv` of the first session, and every `Step` keeps
`SessionInv`.
-/

namespace NeuralMemory

open MemoryPool NeuralMemoryManager

/-! ## The constructor -/

/-- What holds after each pass of the constructor's loop. -/
structure BuildInv (config : MemoryPoolConfig) (h : Heap) (m : NeuralMemoryManager) : Prop where
  config_eq : m.defaultConfig = config
  tracker : m.allocatedBlocks = ∅
  metrics : m.metrics = .zero
  index_lt : ∀ k idx, m.poolIndexMap.lookup k = some idx → idx < m.memoryPools.length
  pool : ∀ (idx : Nat) (pool : MemoryPool), m.memoryPools[idx]? = some pool →
    PoolInv h.next pool []
  slabs_disjoint : SlabsDisjoint m.memoryPools
  below_brk : ∀ (idx : Nat) (pool : MemoryPool) (s : Nat), m.memoryPools[idx]? = some pool →
    s ∈ pool.allocatedBlocks → s ≤ h.brk

namespace BuildInv

variable {config : MemoryPoolConfig}

theorem empty (h : Heap) :
    BuildInv config h ⟨config, [], ∅, ∅, .zero, config.enableCorruptionDetection⟩ :=
  ⟨rfl, rfl, rfl, by simp, by simp, by simp [SlabsDisjoint], by simp⟩

theorem addPool {acc r : Heap × NeuralMemoryManager} {size : UInt64}
    (hb : BuildInv config acc.1 acc.2) (ha : addPool config acc size = .ok r) :
    BuildInv config r.1 r.2 := by
  obtain ⟨pool, hc, hr⟩ := addPool_eq_ok ha
  have hpinv := (PoolInv.create hc).1
  obtain ⟨newBlock, hlt, hle, hnext, rfl⟩ := MemoryPool.create_eq_ok hc
  have hfresh : ∀ (i : Nat) (q : MemoryPool) (s : Nat), acc.2.memoryPools[i]? = some q →
      s ∈ q.allocatedBlocks → s ≠ newBlock := fun i q s hq hs => by
    have := hb.below_brk i q s hq hs
    omega
  rw [hr]
  refine ⟨by simpa using hb.config_eq, by simpa using hb.tracker, by simpa using hb.metrics,
    ?_, ?_, ?_, ?_⟩
  · intro k idx hk
    simp only [List.length_append, List.length_singleton]
    by_cases hks : k = size
    · subst hks
      simp only [AList.lookup_insert, Option.some.injEq] at hk
      omega
    · have := hb.index_lt k idx (by simpa [AList.lookup_insert_ne hks] using hk)
      omega
  · intro idx q hq
    rcases getElem?_concat_eq_some hq with hq | ⟨-, rfl⟩
    · rw [hnext]
      exact (hb.pool idx q hq).update fun hs => hfresh idx q _ hq hs rfl
    · exact hpinv
  · exact hb.slabs_disjoint.concat fun i q s hq hs hs' => hfresh i q s hq hs (by simpa using hs')
  · intro idx q s hq hs
    rcases getElem?_concat_eq_some hq with hq | ⟨-, rfl⟩
    · have := hb.below_brk idx q s hq hs
      omega
    · simp only [List.mem_singleton] at hs
      omega

theorem create {h h' : Heap} {m : NeuralMemoryManager}
    (hc : NeuralMemoryManager.create config h = .ok (h', m)) : BuildInv config h' m :=
  @foldlM_addPool_induction config (fun acc => BuildInv config acc.1 acc.2)
    (fun _ _ _ hacc ha => hacc.addPool ha) _ _ _ (empty h) hc

end BuildInv

/-! ## The session invariant -/

structure SessionInv (config : MemoryPoolConfig) (s : Session) : Prop where
  config_eq : s.manager.defaultConfig = config
  manager : ManagerInv s.heap.next s.manager s.live
  metrics : config.enablePerformanceMonitoring = true → MetricsInv s.manager s.live

namespace SessionInv

variable {config : MemoryPoolConfig} {h h' : Heap} {m m' : NeuralMemoryManager} {live : Live}

theorem init (hc : NeuralMemoryManager.create config h = .ok (h', m)) :
    SessionInv config ⟨h', m, ∅⟩ := by
  have hb := BuildInv.create hc
  have hlen := create_memoryPools_length hc
  refine ⟨hb.config_eq, ⟨?_, hb.index_lt, ?_, hb.slabs_disjoint, ?_, ?_⟩,
    fun _ => ⟨?_, ?_⟩⟩
  · intro hnil
    simp only at hnil
    simp [hnil, commonSizes] at hlen
  · intro idx pool hpool
    simpa [liveIn] using hb.pool idx pool hpool
  · simp [hb.tracker]
  · simp [hb.tracker]
  · simp [hb.metrics, liveBytes, PerformanceMetrics.zero]
  · simp [hb.metrics, liveBytes, PerformanceMetrics.zero]

theorem next_congr (hs : SessionInv config ⟨h, m, live⟩) (hnext : h'.next = h.next) :
    SessionInv config ⟨h', m, live⟩ :=
  ⟨hs.config_eq, hs.manager.next_congr hnext, hs.metrics⟩

theorem allocate {size : UInt64} {file : Option String} {line : Int} {ptr : Nat}
    (hleak : config.enableLeakDetection = true) (hs : SessionInv config ⟨h, m, live⟩)
    (ha : m.allocate h size file line = .ok (ptr, h', m')) :
    SessionInv config ⟨h', m', live.insert ptr size⟩ ∧ ptr ∉ live := by
  obtain ⟨hinv', hptr⟩ := hs.manager.allocate (hs.config_eq ▸ hleak) ha
  refine ⟨⟨?_, hinv', fun hperf =>
    (hs.metrics hperf).allocate hs.manager (hs.config_eq ▸ hperf) ha hptr⟩, hptr⟩
  obtain ⟨pool', -, rfl⟩ := allocate_eq_ok (hs.manager.getPoolIndex_lt size) ha
  simpa using hs.config_eq

theorem deallocate {ptr : Nat} (hleak : config.enableLeakDetection = true)
    (hs : SessionInv config ⟨h, m, live⟩) (hptr : ptr = 0 ∨ ptr ∈ live) :
    SessionInv config ⟨(m.deallocate h ptr).1, (m.deallocate h ptr).2, live.erase ptr⟩ := by
  rcases hptr with rfl | hptr
  · rw [deallocate_of_lookup_none (.inl rfl),
      erase_of_not_mem fun h0 => hs.manager.ne_zero_of_mem h0 rfl]
    exact hs
  · have hleak' : m.defaultConfig.enableLeakDetection = true := hs.config_eq ▸ hleak
    exact ⟨by simpa using hs.config_eq, hs.manager.deallocate hleak' hptr,
      fun hperf => (hs.metrics hperf).deallocate hs.manager hleak' (hs.config_eq ▸ hperf) hptr⟩

theorem reallocate {ptr : Nat} {newSize : UInt64} {file : Option String} {line : Int}
    {result : Nat} (hleak : config.enableLeakDetection = true)
    (hs : SessionInv config ⟨h, m, live⟩) (hptr : ptr = 0 ∨ ptr ∈ live)
    (hr : m.reallocate h ptr newSize file line = .ok (result, h', m')) :
    SessionInv config ⟨h', m', reallocLive live ptr newSize result⟩ := by
  rcases reallocate_eq_ok hr with ⟨rfl, ha⟩ | ⟨h0, hz, rfl, hd⟩ | ⟨h0, -, hb, -⟩ |
    ⟨h0, hz, block, hb, hgrow⟩
  · simpa [reallocLive] using (hs.allocate hleak ha).1
  · have hs' := hs.deallocate hleak hptr
    rw [← hd] at hs'
    simpa [reallocLive, h0, hz] using hs'
  · obtain ⟨block, hb', -⟩ := hs.manager.record_of_mem (hptr.resolve_left h0)
    cases hb.symm.trans hb'
  · have hmem := hptr.resolve_left h0
    obtain ⟨block', hb', -, hsize⟩ := hs.manager.record_of_mem hmem
    cases hb.symm.trans hb'
    rcases hgrow with ⟨hle, rfl, rfl, rfl⟩ | ⟨hle, h₁, m₁, ha, hd⟩
    · simpa [reallocLive, h0, hz, hsize, hle] using hs
    · obtain ⟨hs₁, -⟩ := hs.allocate hleak ha
      have hne : result ≠ 0 :=
        hs₁.manager.ne_zero_of_mem ((AList.mem_insert _).mpr (.inl rfl))
      have hs₂ := (hs₁.next_congr
          (Heap.memcpy_next h₁ result ptr block.size.toNat)).deallocate
        hleak (.inr ((AList.mem_insert _).mpr (.inr hmem)))
      rw [if_pos hne] at hd
      rw [← hd] at hs₂
      simpa [reallocLive, h0, hz, hsize, hle] using hs₂

theorem step {s s' : Session} (hleak : config.enableLeakDetection = true)
    (hs : SessionInv config s) (hstep : Step s s') : SessionInv config s' := by
  cases hstep with
  | allocate ha => exact (hs.allocate hleak ha).1
  | deallocate hptr => exact hs.deallocate hleak hptr
  | reallocate hptr hr => exact hs.reallocate hleak hptr hr

end SessionInv

theorem Reachable.sessionInv {config : MemoryPoolConfig} {s : Session}
    (hleak : config.enableLeakDetection = true) (hr : Reachable config s) :
    SessionInv config s := by
  induction hr with
  | init hc => exact .init hc
  | step _ hstep ih => exact ih.step hleak hstep

/-! ## The default configuration on a fresh arena -/

/-- `MemoryPool(MemoryPoolConfig())` on a 4 GiB arena above address 4096. -/
def defaultPool : Heap × MemoryPool :=
  match MemoryPool.create .default (Heap.init 4096 4294967296) with
  | .ok r => r
  | .error _ => (Heap.init 4096 4294967296, ⟨0, [], .default, 0, 0⟩)

/-- `NeuralMemoryManager()` on the same arena. -/
def defaultStart : Heap × NeuralMemoryManager :=
  match NeuralMemoryManager.create .default (Heap.init 4096 4294967296) with
  | .ok r => r
  | .error _ => (Heap.init 4096 4294967296, ⟨.default, [], ∅, ∅, .zero, true⟩)

/-- The program's first session with the default manager. -/
def defaultSession : Session := ⟨defaultStart.1, defaultStart.2, ∅⟩

/-- The default pool after one `allocate()`, which returns `4120`. -/
def allocatedPool : Heap × MemoryPool :=
  match defaultPool.2.allocate defaultPool.1 with
  | .ok (_, h, p) => (h, p)
  | .error _ => defaultPool

/-- The default session after `allocate(64)`, which returns `4120`. -/
def allocatedSession : Session :=
  match defaultSession.manager.allocate defaultSession.heap 64 none 0 with
  | .ok (ptr, h, m) => ⟨h, m, defaultSession.live.insert ptr 64⟩
  | .error _ => defaultSession

theorem defaultPool_reachable : PoolReachable defaultPool.1 defaultPool.2 [] :=
  PoolReachable.create (show MemoryPool.create .default (Heap.init 4096 4294967296) =
    .ok (defaultPool.1, defaultPool.2) from rfl)

theorem allocatedPool_reachable : PoolReachable allocatedPool.1 allocatedPool.2 [4120] :=
  .allocate defaultPool_reachable (show defaultPool.2.allocate defaultPool.1 =
    .ok (4120, allocatedPool.1, allocatedPool.2) from rfl)

theorem defaultSession_reachable : Reachable .default defaultSession :=
  Reachable.init (show NeuralMemoryManager.create .default (Heap.init 4096 4294967296) =
    .ok (defaultStart.1, defaultStart.2) from rfl)

theorem allocatedSession_reachable : Reachable .default allocatedSession :=
  .step defaultSession_reachable (Step.allocate (show
    defaultSession.manager.allocate defaultSession.heap 64 none 0 =
      .ok (4120, allocatedSession.heap, allocatedSession.manager) from rfl))

/-! ## What every reachable state satisfies -/

/--
A pool's free list and live blocks partition its slabs, each slab once, and its counter
is the number of live blocks, so `allocate` never hands out a live pointer.  This holds of
a pool run on its own, and of every pool of a manager with leak detection on, whose pools
share no slab.
-/
theorem pools_partition_blocks {h : Heap} {p : MemoryPool} {poolLive : List Nat}
    {config : MemoryPoolConfig} {s : Session} (hp : PoolReachable h p poolLive)
    (hleak : config.enableLeakDetection = true) (hs : Reachable config s) :
    (PoolInv h.next p poolLive ∧
      ∀ ptr h' p', p.allocate h = .ok (ptr, h', p') → ptr ∉ poolLive) ∧
    (∀ (idx : Nat) (pool : MemoryPool), s.manager.memoryPools[idx]? = some pool →
      PoolInv s.heap.next pool (liveIn s.manager.poolIndexMap s.live idx)) ∧
    SlabsDisjoint s.manager.memoryPools ∧
    ∀ size file line ptr h' m', s.manager.allocate s.heap size file line = .ok (ptr, h', m') →
      ptr ∉ s.live := by
  have hsi := hs.sessionInv hleak
  exact ⟨⟨hp.poolInv, fun _ _ _ ha => (hp.poolInv.allocate ha).2⟩, hsi.manager.pool,
    hsi.manager.slabs_disjoint,
    fun _ _ _ _ _ _ ha => (hsi.manager.allocate (hsi.config_eq ▸ hleak) ha).2⟩

theorem pools_partition_blocks_allocated :
    PoolReachable allocatedPool.1 allocatedPool.2 [4120] ∧
    MemoryPoolConfig.default.enableLeakDetection = true ∧
    Reachable .default allocatedSession ∧
    ((PoolInv allocatedPool.1.next allocatedPool.2 [4120] ∧
      ∀ ptr h' p', allocatedPool.2.allocate allocatedPool.1 = .ok (ptr, h', p') →
        ptr ∉ [4120]) ∧
    (∀ (idx : Nat) (pool : MemoryPool), allocatedSession.manager.memoryPools[idx]? = some pool →
      PoolInv allocatedSession.heap.next pool
        (liveIn allocatedSession.manager.poolIndexMap allocatedSession.live idx)) ∧
    SlabsDisjoint allocatedSession.manager.memoryPools ∧
    ∀ size file line ptr h' m',
      allocatedSession.manager.allocate allocatedSession.heap size file line =
        .ok (ptr, h', m') → ptr ∉ allocatedSession.live) :=
  ⟨allocatedPool_reachable, rfl, allocatedSession_reachable,
    pools_partition_blocks allocatedPool_reachable rfl allocatedSession_reachable⟩

/--
With leak detection and performance monitoring on, `detect_leaks` reports exactly the
live allocations, each with the size it was asked for, and the byte counters agree.
-/
theorem detectLeaks_reports_live {config : MemoryPoolConfig} {s : Session}
    (hleak : config.enableLeakDetection = true) (hperf : config.enablePerformanceMonitoring = true)
    (hs : Reachable config s) :
    (s.manager.detectLeaks.leaks.map fun block => (block.ptr, block.size)).Perm
        (s.live.entries.map fun e => (e.1, e.2)) ∧
      s.manager.detectLeaks.leakedBlocks = s.live.entries.length ∧
      s.manager.detectLeaks.leakedBytes = liveBytes s.live ∧
      s.manager.metrics.currentMemoryUsage = liveBytes s.live ∧
      s.manager.metrics.totalBytesAllocated - s.manager.metrics.totalBytesDeallocated =
        liveBytes s.live := by
  have hsi := hs.sessionInv hleak
  have hmet := hsi.metrics hperf
  exact ⟨hsi.manager.leaks_perm, hsi.manager.detectLeaks_eq.1, hsi.manager.detectLeaks_eq.2,
    hmet.current, hmet.balance⟩

theorem detectLeaks_reports_live_allocated :
    MemoryPoolConfig.default.enableLeakDetection = true ∧
    MemoryPoolConfig.default.enablePerformanceMonitoring = true ∧
    Reachable .default allocatedSession ∧
    ((allocatedSession.manager.detectLeaks.leaks.map fun block => (block.ptr, block.size)).Perm
        (allocatedSession.live.entries.map fun e => (e.1, e.2)) ∧
      allocatedSession.manager.detectLeaks.leakedBlocks = allocatedSession.live.entries.length ∧
      allocatedSession.manager.detectLeaks.leakedBytes = liveBytes allocatedSession.live ∧
      allocatedSession.manager.metrics.currentMemoryUsage = liveBytes allocatedSession.live ∧
      allocatedSession.manager.metrics.totalBytesAllocated -
        allocatedSession.manager.metrics.totalBytesDeallocated =
          liveBytes allocatedSession.live) :=
  ⟨rfl, rfl, allocatedSession_reachable,
    detectLeaks_reports_live rfl rfl allocatedSession_reachable⟩

end NeuralMemory
