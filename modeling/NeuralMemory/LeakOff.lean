import NeuralMemory.Slabs

/-!
# Without leak detection

With `enable_leak_detection` off, `allocate` writes nothing to `allocated_blocks`, so
`deallocate` finds no pool for any pointer and gives nothing back, and `reallocate` of a
live pointer falls back to `std::realloc`, which fails on a pool block: no block is ever a
chunk of its own.  In a program that passes only null or live pointers, each pool hands out
its constructor's slab at most once.  Its `allocated_count` goes from 0 to 1, and from then
on every `allocate` of its class relocks `pool_mutex`.

The arena is any heap whose chunks all lie below its top, as `std::malloc` leaves it.
-/

namespace NeuralMemory

open MemoryPool NeuralMemoryManager

/--
A manager without leak detection in a program that passes only null or live pointers: the
tracker is empty; each pool's one slab, whose `next` word is null and whose payload is not
a chunk, is on the free list or handed out; and no live pointer is null or a chunk.
-/
structure LeakOffInv (s : Session) : Prop where
  untracked : ∀ ptr, s.manager.allocatedBlocks.lookup ptr = none
  pool : ∀ pool ∈ s.manager.memoryPools, ∃ slab, slab ≠ 0 ∧ s.heap.next slab = 0 ∧
    slab + dataOffset ∉ s.heap.chunks.map Prod.fst ∧
    (pool.freeList = slab ∧ pool.allocatedCount = 0 ∨
      pool.freeList = 0 ∧ pool.allocatedCount = 1)
  live : ∀ p ∈ s.live, p ≠ 0 ∧ p ∉ s.heap.chunks.map Prod.fst

/-! ## The constructor -/

/--
What the constructor's loop keeps: every chunk below the top, nothing tracked, and each
pool's slab on its free list, below the top, with a null `next` word and a payload that is
not a chunk.
-/
def FreshPools (acc : Heap × NeuralMemoryManager) : Prop :=
  (∀ c ∈ acc.1.chunks, c.1 ≤ acc.1.brk) ∧ (∀ ptr, acc.2.allocatedBlocks.lookup ptr = none) ∧
  ∀ pool ∈ acc.2.memoryPools, pool.freeList ≠ 0 ∧ pool.freeList ≤ acc.1.brk ∧
    acc.1.next pool.freeList = 0 ∧ pool.freeList + dataOffset ∉ acc.1.chunks.map Prod.fst ∧
    pool.allocatedCount = 0

theorem FreshPools.addPool {config : MemoryPoolConfig} {acc r : Heap × NeuralMemoryManager}
    {size : UInt64} (hacc : FreshPools acc) (ha : addPool config acc size = .ok r) :
    FreshPools r := by
  obtain ⟨pool, hpc, hr⟩ := addPool_eq_ok ha
  have hchunks := MemoryPool.create_chunks hpc
  have htop : pool.freeList = acc.1.brk + 16 := MemoryPool.create_freeList hpc
  obtain ⟨q, hlt, hle, hnext, rfl⟩ := MemoryPool.create_eq_ok hpc
  obtain ⟨hwf, huntracked, hpools⟩ := hacc
  have hold : ∀ c ∈ acc.1.chunks, c.1 ≠ q + dataOffset := fun c hc => by
    have := hwf c hc
    simp only [dataOffset]
    omega
  refine ⟨fun c hc => ?_, fun ptr => by rw [hr]; exact huntracked ptr, fun p hp => ?_⟩
  · rw [hchunks, List.mem_cons] at hc
    rcases hc with rfl | hc
    · exact hle
    · have := hwf c hc
      omega
  · simp only [hr, List.mem_append, List.mem_singleton] at hp
    simp only [hnext, hchunks, List.map_cons, List.mem_cons, not_or]
    rcases hp with hp | rfl
    · obtain ⟨h0, hbrk, hn, hoff, hcount⟩ := hpools p hp
      refine ⟨h0, by omega, by rw [Function.update_noteq (by omega)]; exact hn, ⟨?_, hoff⟩,
        hcount⟩
      simp only [dataOffset] at htop ⊢
      omega
    · refine ⟨by omega, hle, Function.update_same _ _ _, ⟨by simp [dataOffset], ?_⟩, rfl⟩
      rw [List.mem_map]
      exact fun ⟨c, hc, he⟩ => hold c hc he

theorem LeakOffInv.create {config : MemoryPoolConfig} {h₀ h : Heap} {m : NeuralMemoryManager}
    (hc : NeuralMemoryManager.create config h₀ = .ok (h, m))
    (hwf : ∀ c ∈ h₀.chunks, c.1 ≤ h₀.brk) : LeakOffInv ⟨h, m, ∅⟩ := by
  obtain ⟨-, huntracked, hpools⟩ := @foldlM_addPool_induction config FreshPools
    (fun _ _ _ hacc ha => hacc.addPool ha) _ _ _ (by exact ⟨hwf, fun _ => rfl, by simp⟩) hc
  refine ⟨huntracked, fun pool hp => ?_, by simp⟩
  obtain ⟨h0, -, hnext, hoff, hcount⟩ := hpools pool hp
  exact ⟨pool.freeList, h0, hnext, hoff, .inl ⟨rfl, hcount⟩⟩

/-! ## One call -/

section Steps

variable {config : MemoryPoolConfig} {s : Session}

theorem LeakOffInv.erase (hinv : LeakOffInv s) (ptr : Nat) :
    LeakOffInv ⟨s.heap, s.manager, s.live.erase ptr⟩ :=
  ⟨hinv.untracked, hinv.pool, fun p hp => hinv.live p (AList.mem_erase.mp hp).2⟩

theorem LeakOffInv.allocate (hleak : config.enableLeakDetection = false)
    (ht : TableInv config s.manager) (hinv : LeakOffInv s) {size : UInt64}
    {file : Option String} {line : Int} {ptr : Nat} {h : Heap} {m : NeuralMemoryManager}
    (ha : s.manager.allocate s.heap size file line = .ok (ptr, h, m)) :
    LeakOffInv ⟨h, m, s.live.insert ptr size⟩ := by
  have hlt := ht.getPoolIndex_lt size
  obtain ⟨pool', hpa, rfl⟩ := allocate_eq_ok hlt ha
  obtain ⟨hne, rfl, rfl, rfl⟩ := MemoryPool.allocate_eq_ok hpa
  obtain ⟨slab, h0, hnext, hoff, ⟨hfree, hcount⟩ | ⟨hfree, -⟩⟩ :=
    hinv.pool _ (List.getElem_mem hlt)
  swap
  · exact absurd hfree hne
  refine ⟨fun ptr => ?_, fun pool hp => ?_, fun p hp => ?_⟩
  · rw [recordAllocation_allocatedBlocks_of_leak_off _ _ _ _ _
      (by simpa [ht.defaultConfig] using hleak)]
    exact hinv.untracked ptr
  · simp only [recordAllocation_memoryPools, setPool_memoryPools] at hp
    rcases List.mem_or_eq_of_mem_set hp with hp | rfl
    · exact hinv.pool pool hp
    · exact ⟨slab, h0, hnext, hoff, .inr ⟨by simp [hfree, hnext], by simp [hcount]⟩⟩
  · rcases (AList.mem_insert _).mp hp with rfl | hp
    · rw [hfree]
      exact ⟨by simp [dataOffset], hoff⟩
    · exact hinv.live p hp

theorem LeakOffInv.step (hleak : config.enableLeakDetection = false)
    (ht : TableInv config s.manager) (hinv : LeakOffInv s) {s' : Session} (hstep : Step s s') :
    LeakOffInv s' := by
  cases hstep with
  | allocate ha => exact hinv.allocate hleak ht ha
  | deallocate _ =>
    rw [deallocate_of_lookup_none (.inr (hinv.untracked _))]
    exact hinv.erase _
  | reallocate hptr hr =>
    rcases reallocate_eq_ok hr with ⟨rfl, ha⟩ | ⟨h0, rfl, -, hd⟩ | ⟨h0, -, -, hre, -⟩ |
      ⟨-, -, block, hb, -⟩
    · exact hinv.allocate hleak ht ha
    · rw [deallocate_of_lookup_none (.inr (hinv.untracked _))] at hd
      cases hd
      simpa [reallocLive, h0] using hinv.erase _
    · rw [Heap.realloc_of_not_mem (hinv.live _ (hptr.resolve_left h0)).2] at hre
      cases hre
    · cases (hinv.untracked _).symm.trans hb

end Steps

theorem LeakOffInv.run {config : MemoryPoolConfig} {h₀ h : Heap} {m : NeuralMemoryManager}
    {s : Session} (hleak : config.enableLeakDetection = false)
    (hc : NeuralMemoryManager.create config h₀ = .ok (h, m))
    (hwf : ∀ c ∈ h₀.chunks, c.1 ≤ h₀.brk) (hrun : Relation.ReflTransGen Step ⟨h, m, ∅⟩ s) :
    Reachable config s ∧ LeakOffInv s := by
  induction hrun with
  | refl => exact ⟨.init hc, .create hc hwf⟩
  | tail _ hstep ih =>
    exact ⟨ih.1.step hstep, ih.2.step hleak ih.1.managerReachable.tableInv hstep⟩

/--
Without leak detection, from a manager built on an arena whose chunks lie below its top,
over every run that passes `deallocate` and `reallocate` only null or live pointers:
`deallocate` of any pointer changes nothing, each pool's `allocated_count` is at most 1,
and `allocate(n)` returns exactly when the pool of `get_pool_index(n)` has handed out
nothing yet.  Otherwise it relocks `pool_mutex`.
-/
theorem leak_off_hands_out_each_slab_once {config : MemoryPoolConfig} {h₀ h : Heap}
    {m : NeuralMemoryManager} {s : Session} (hleak : config.enableLeakDetection = false)
    (hc : NeuralMemoryManager.create config h₀ = .ok (h, m))
    (hwf : ∀ c ∈ h₀.chunks, c.1 ≤ h₀.brk) (hrun : Relation.ReflTransGen Step ⟨h, m, ∅⟩ s) :
    (∀ ptr, s.manager.deallocate s.heap ptr = (s.heap, s.manager)) ∧
    (∀ pool ∈ s.manager.memoryPools, pool.allocatedCount ≤ 1) ∧
    ∀ size file line,
      ((∃ r, s.manager.allocate s.heap size file line = .ok r) ↔
        ∃ pool, s.manager.memoryPools[getPoolIndex s.manager.poolIndexMap size]? = some pool ∧
          pool.allocatedCount = 0) ∧
      ∀ e, s.manager.allocate s.heap size file line = .error e → e = .selfDeadlock .poolMutex := by
  obtain ⟨hs, hinv⟩ := LeakOffInv.run hleak hc hwf hrun
  refine ⟨fun ptr => deallocate_of_lookup_none (.inr (hinv.untracked ptr)),
    fun pool hp => ?_, fun size file line => returns_iff_of_cases ?_⟩
  · obtain ⟨-, -, -, -, ⟨-, hcount⟩ | ⟨-, hcount⟩⟩ := hinv.pool pool hp <;> rw [hcount] <;> decide
  · have hpool := List.getElem?_eq_getElem (hs.managerReachable.tableInv.getPoolIndex_lt size)
    obtain ⟨slab, h0, -, -, hstate⟩ := hinv.pool _ (List.getElem?_mem hpool)
    rcases allocate_cases_of_pool hpool s.heap file line with ⟨hne, hok⟩ | ⟨hz, herr⟩
    · exact .inl ⟨⟨_, hpool, (hstate.resolve_right fun h => hne h.1).2⟩, hok⟩
    · refine .inr ⟨fun ⟨pool, hpool', hcount⟩ => ?_, herr⟩
      obtain rfl := Option.some.inj (hpool'.symm.trans hpool)
      rcases hstate with ⟨hf, -⟩ | ⟨-, h1⟩
      · exact h0 (hf ▸ hz)
      · exact absurd (hcount.symm.trans h1) (by decide)

/--
Without leak detection, over the same runs, `reallocate(p, n)` of a live pointer with
`n > 0` finds no record of `p` and passes it to `std::realloc`, which never handed it out:
undefined behaviour, whatever the size.
-/
theorem leak_off_reallocate_is_undefined {config : MemoryPoolConfig} {h₀ h : Heap}
    {m : NeuralMemoryManager} {s : Session} (hleak : config.enableLeakDetection = false)
    (hc : NeuralMemoryManager.create config h₀ = .ok (h, m))
    (hwf : ∀ c ∈ h₀.chunks, c.1 ≤ h₀.brk) (hrun : Relation.ReflTransGen Step ⟨h, m, ∅⟩ s)
    {ptr : Nat} (hptr : ptr ∈ s.live) {newSize : UInt64} (hz : newSize ≠ 0)
    (file : Option String) (line : Int) :
    s.manager.reallocate s.heap ptr newSize file line = .error (.invalidRealloc ptr) := by
  have hinv := (LeakOffInv.run hleak hc hwf hrun).2
  obtain ⟨h0, hchunk⟩ := hinv.live ptr hptr
  simp only [reallocate, if_neg h0, if_neg hz, hinv.untracked ptr,
    Heap.realloc_of_not_mem hchunk]
  rfl

/-- `MemoryPoolConfig()` with leak detection switched off. -/
def leakOffConfig : MemoryPoolConfig := ⟨4096, false, true, true⟩

/-- A manager built with `leakOffConfig` on the default arena. -/
def leakOffStart : Heap × NeuralMemoryManager :=
  match NeuralMemoryManager.create leakOffConfig (Heap.init 4096 4294967296) with
  | .ok r => r
  | .error _ => (Heap.init 4096 4294967296, ⟨leakOffConfig, [], ∅, ∅, .zero, true⟩)

/-- That manager after `allocate(64)`, which returns `4120`. -/
def leakOffAllocated : Session :=
  match leakOffStart.2.allocate leakOffStart.1 64 none 0 with
  | .ok (ptr, h, m) => ⟨h, m, (∅ : Live).insert ptr 64⟩
  | .error _ => ⟨leakOffStart.1, leakOffStart.2, ∅⟩

/-- Then `deallocate(4120)`. -/
def leakOffFreed : Session :=
  ⟨(leakOffAllocated.manager.deallocate leakOffAllocated.heap 4120).1,
    (leakOffAllocated.manager.deallocate leakOffAllocated.heap 4120).2,
    leakOffAllocated.live.erase 4120⟩

theorem leakOffAllocated_run :
    Relation.ReflTransGen Step ⟨leakOffStart.1, leakOffStart.2, ∅⟩ leakOffAllocated :=
  .single (Step.allocate (show leakOffStart.2.allocate leakOffStart.1 64 none 0 =
    .ok (4120, leakOffAllocated.heap, leakOffAllocated.manager) from rfl))

theorem leakOffFreed_run :
    Relation.ReflTransGen Step ⟨leakOffStart.1, leakOffStart.2, ∅⟩ leakOffFreed :=
  .tail leakOffAllocated_run
    (Step.deallocate (.inr (show 4120 ∈ leakOffAllocated.live by decide)))

theorem leak_off_hands_out_each_slab_once_default :
    leakOffConfig.enableLeakDetection = false ∧
    NeuralMemoryManager.create leakOffConfig (Heap.init 4096 4294967296) =
      .ok (leakOffStart.1, leakOffStart.2) ∧
    (∀ c ∈ (Heap.init 4096 4294967296).chunks, c.1 ≤ (Heap.init 4096 4294967296).brk) ∧
    Relation.ReflTransGen Step ⟨leakOffStart.1, leakOffStart.2, ∅⟩ leakOffFreed ∧
    ((∀ ptr, leakOffFreed.manager.deallocate leakOffFreed.heap ptr =
        (leakOffFreed.heap, leakOffFreed.manager)) ∧
      (∀ pool ∈ leakOffFreed.manager.memoryPools, pool.allocatedCount ≤ 1) ∧
      ∀ size file line,
        ((∃ r, leakOffFreed.manager.allocate leakOffFreed.heap size file line = .ok r) ↔
          ∃ pool, leakOffFreed.manager.memoryPools[
              getPoolIndex leakOffFreed.manager.poolIndexMap size]? = some pool ∧
            pool.allocatedCount = 0) ∧
        ∀ e, leakOffFreed.manager.allocate leakOffFreed.heap size file line = .error e →
          e = .selfDeadlock .poolMutex) :=
  ⟨rfl, rfl, fun _ hc => absurd hc (List.not_mem_nil _), leakOffFreed_run,
    leak_off_hands_out_each_slab_once rfl
      (show NeuralMemoryManager.create leakOffConfig (Heap.init 4096 4294967296) =
        .ok (leakOffStart.1, leakOffStart.2) from rfl)
      (fun _ hc => absurd hc (List.not_mem_nil _)) leakOffFreed_run⟩

theorem leak_off_reallocate_is_undefined_default :
    leakOffConfig.enableLeakDetection = false ∧
    NeuralMemoryManager.create leakOffConfig (Heap.init 4096 4294967296) =
      .ok (leakOffStart.1, leakOffStart.2) ∧
    (∀ c ∈ (Heap.init 4096 4294967296).chunks, c.1 ≤ (Heap.init 4096 4294967296).brk) ∧
    Relation.ReflTransGen Step ⟨leakOffStart.1, leakOffStart.2, ∅⟩ leakOffAllocated ∧
    4120 ∈ leakOffAllocated.live ∧ (128 : UInt64) ≠ 0 ∧
    leakOffAllocated.manager.reallocate leakOffAllocated.heap 4120 128 none 0 =
      .error (.invalidRealloc 4120) :=
  ⟨rfl, rfl, fun _ hc => absurd hc (List.not_mem_nil _), leakOffAllocated_run, by decide,
    by decide, leak_off_reallocate_is_undefined rfl
      (show NeuralMemoryManager.create leakOffConfig (Heap.init 4096 4294967296) =
        .ok (leakOffStart.1, leakOffStart.2) from rfl)
      (fun _ hc => absurd hc (List.not_mem_nil _)) leakOffAllocated_run
      (show 4120 ∈ leakOffAllocated.live by decide) (show (128 : UInt64) ≠ 0 by decide) none 0⟩

end NeuralMemory
