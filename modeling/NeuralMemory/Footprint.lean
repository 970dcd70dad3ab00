import NeuralMemory.Locking
import NeuralMemory.Table

/-!
# The traces cover what the calls write

`NeuralMemory.Locking` describes each call by its accesses to the shared objects, one list
for each branch of the code.  Here the branch is read off the manager's state, as the
sequential model takes it (`allocateCall`, `deallocateCall`): the class's pool and whether its
free list is empty; the pools the search loop of `deallocate` passes over, the pool the record
names, and whether there is a record.  Every shared object that the sequential call changes is
one its list writes (`writes_are_traced`), so the interleaved model leaves out no write of
`allocate` or `deallocate`.
-/

namespace NeuralMemory

/-- Whether a call from `m` to `m'` changed `o`: the tracker, or the head of a pool's free
list.  No call destroys the manager itself. -/
def Shared.Changed (m m' : NeuralMemoryManager) : Shared → Prop
  | .allocatedBlocks => m'.allocatedBlocks ≠ m.allocatedBlocks
  | .freeList idx => m'.memoryPools[idx]?.map (·.freeList) ≠ m.memoryPools[idx]?.map (·.freeList)
  | .manager => False

theorem Shared.not_changed_self {m : NeuralMemoryManager} (o : Shared) : ¬ o.Changed m m := by
  cases o <;> simp [Shared.Changed]

theorem Shared.changed_freeList_set {m m' : NeuralMemoryManager} {idx j : Nat}
    {pool : MemoryPool} (hpools : m'.memoryPools = m.memoryPools.set idx pool)
    (hc : (Shared.freeList j).Changed m m') : j = idx := by
  by_contra hj
  exact hc (by rw [hpools, List.getElem?_set_ne (Ne.symm hj)])

namespace NeuralMemoryManager

theorem recordDeallocation_allocatedBlocks_of_leak_off {m : NeuralMemoryManager} {ptr : Nat}
    (hleak : m.defaultConfig.enableLeakDetection = false) :
    (m.recordDeallocation ptr).allocatedBlocks = m.allocatedBlocks := by
  dsimp only [recordDeallocation]; simp only [hleak, Bool.false_eq_true, if_false]
  split_ifs <;> (try split) <;> rfl

/--
The branch `allocate(size)` takes from `m`: the pool of its class, and whether that pool's
free list is empty.  With no pool for the class `get_or_create_pool` would add one, a branch
no reachable state takes (`TableInv.getPoolIndex_lt`).
-/
def allocateCall (m : NeuralMemoryManager) (size : UInt64) : ThreadCall :=
  .allocate (getPoolIndex m.poolIndexMap size)
    ((m.memoryPools[getPoolIndex m.poolIndexMap size]?.map (·.freeList == 0)).getD false)

/-- The branch `deallocate(ptr)` takes from `m`: the pools its search loop passes over, the
pool the record of `ptr` names, and whether `ptr` has a record. -/
def deallocateCall (m : NeuralMemoryManager) (ptr : Nat) : ThreadCall :=
  .deallocate m.memoryPools.length ((m.findPool ptr m.memoryPools).map Fin.val)
    (m.allocatedBlocks.lookup ptr).isSome

theorem allocate_writes_traced {h h' : Heap} {m m' : NeuralMemoryManager} {size : UInt64}
    {file : Option String} {line : Int} {ptr : Nat}
    (hlt : getPoolIndex m.poolIndexMap size < m.memoryPools.length)
    (ha : m.allocate h size file line = .ok (ptr, h', m')) {o : Shared} (ho : o.Changed m m') :
    .write o ∈ (m.allocateCall size).trace m.defaultConfig := by
  obtain ⟨pool', hpa, rfl⟩ := allocate_eq_ok hlt ha
  have hne : m.memoryPools[getPoolIndex m.poolIndexMap size].freeList ≠ 0 := fun h0 => by
    rw [MemoryPool.allocate_of_freeList_eq_zero h0] at hpa; cases hpa
  have hcall : m.allocateCall size = .allocate (getPoolIndex m.poolIndexMap size) false := by
    simp [allocateCall, List.getElem?_eq_getElem hlt, hne]
  rw [hcall]
  cases o with
  | allocatedBlocks =>
    cases hleak : m.defaultConfig.enableLeakDetection
    · exact absurd (recordAllocation_allocatedBlocks_of_leak_off _ _ _ _ _
        (by simpa using hleak)) ho
    · simp [ThreadCall.trace, allocateTrace, hleak, trackAllocationTrace, withLock]
  | freeList j =>
    obtain rfl := @Shared.changed_freeList_set _ _ (getPoolIndex m.poolIndexMap size) _ pool'
      (by simp) ho
    simp [ThreadCall.trace, allocateTrace, poolAllocateTrace, withLock]
  | manager => exact ho.elim

theorem deallocate_eq_recordDeallocation {m : NeuralMemoryManager} {ptr : Nat} (hptr : ptr ≠ 0)
    (h : Heap) :
    ∃ m₀ : NeuralMemoryManager, (m.deallocate h ptr).2 = m₀.recordDeallocation ptr ∧
      m₀.defaultConfig = m.defaultConfig ∧ m₀.allocatedBlocks = m.allocatedBlocks ∧
      ∀ j, (Shared.freeList j).Changed m m₀ →
        (m.findPool ptr m.memoryPools).map Fin.val = some j := by
  unfold deallocate
  rw [if_neg hptr]
  split
  · next idx hfind =>
    refine ⟨_, rfl, rfl, rfl, fun j hj => ?_⟩
    rw [hfind, Shared.changed_freeList_set rfl hj]
    rfl
  · exact ⟨m, rfl, rfl, rfl, fun j hj => absurd hj (Shared.not_changed_self _)⟩

theorem deallocate_writes_traced {h : Heap} {m : NeuralMemoryManager} {ptr : Nat}
    (hptr : ptr ≠ 0) {o : Shared} (ho : o.Changed m (m.deallocate h ptr).2) :
    .write o ∈ (m.deallocateCall ptr).trace m.defaultConfig := by
  obtain ⟨m₀, heq, hcfg, hblocks, hpool⟩ := deallocate_eq_recordDeallocation hptr h
  rw [heq] at ho
  cases o with
  | allocatedBlocks =>
    -- only `track_deallocation` writes the tracker, and only a record it finds
    cases hleak : m.defaultConfig.enableLeakDetection
    · exact absurd ((recordDeallocation_allocatedBlocks_of_leak_off (hcfg ▸ hleak)).trans
        hblocks) ho
    · cases hb : m.allocatedBlocks.lookup ptr with
      | none =>
        rw [recordDeallocation_of_lookup_none (hblocks ▸ hb)] at ho
        exact absurd hblocks ho
      | some block =>
        simp [deallocateCall, ThreadCall.trace, deallocateTrace, hleak, hb,
          trackDeallocationTrace, withLock]
  | freeList j =>
    have hj := hpool j (by simpa [Shared.Changed] using ho)
    simp [deallocateCall, ThreadCall.trace, deallocateTrace, hj, poolDeallocateTrace, withLock]
  | manager => exact ho.elim

end NeuralMemoryManager

/--
In every state of a manager built with `config` and then called any number of times, each
shared object that `allocate(size)` or `deallocate(ptr)` (for `ptr` non-null) changes is one
that the call's list of accesses, in the branch it takes from that state, writes.
-/
theorem writes_are_traced {config : MemoryPoolConfig} {h : Heap} {m : NeuralMemoryManager}
    (hs : ManagerReachable config (h, m)) :
    (∀ size file line ptr h' m', m.allocate h size file line = .ok (ptr, h', m') →
      ∀ o : Shared, o.Changed m m' → .write o ∈ (m.allocateCall size).trace m.defaultConfig) ∧
    ∀ ptr, ptr ≠ 0 → ∀ o : Shared, o.Changed m (m.deallocate h ptr).2 →
      .write o ∈ (m.deallocateCall ptr).trace m.defaultConfig :=
  ⟨fun size _ _ _ _ _ ha _ ho =>
      NeuralMemoryManager.allocate_writes_traced (hs.tableInv.getPoolIndex_lt size) ha ho,
    fun _ hptr _ ho => NeuralMemoryManager.deallocate_writes_traced hptr ho⟩

theorem writes_are_traced_default :
    ManagerReachable .default (allocatedSession.heap, allocatedSession.manager) ∧
    (∀ size file line ptr h' m',
      allocatedSession.manager.allocate allocatedSession.heap size file line = .ok (ptr, h', m') →
      ∀ o : Shared, o.Changed allocatedSession.manager m' →
        .write o ∈ (allocatedSession.manager.allocateCall size).trace
          allocatedSession.manager.defaultConfig) ∧
    ∀ ptr, ptr ≠ 0 → ∀ o : Shared,
      o.Changed allocatedSession.manager
        (allocatedSession.manager.deallocate allocatedSession.heap ptr).2 →
      .write o ∈ (allocatedSession.manager.deallocateCall ptr).trace
        allocatedSession.manager.defaultConfig :=
  ⟨allocatedSession_reachable.managerReachable,
    writes_are_traced allocatedSession_reachable.managerReachable⟩

end NeuralMemory
