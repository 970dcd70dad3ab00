import NeuralMemory.Heap

/-!
# `MemoryPool`

A pool hands out blocks of one size from a singly linked free list threaded through the
`next` words of `PoolBlock` headers.  Each slab is one `malloc` of
`block_size + sizeof(PoolBlock)` bytes and holds one block; callers get the address of
its `data` member.

`allocate` holds `pool_mutex` when it finds the free list empty and calls `expand_pool`,
which locks `pool_mutex` again.  Only the constructor reaches `expand_pool` with the
mutex free, so a pool grows exactly once and its second live block is never handed out
(`allocate_of_freeList_eq_zero`).
-/

namespace NeuralMemory

structure MemoryPool where
  freeList : Nat
  allocatedBlocks : List Nat
  config : MemoryPoolConfig
  allocatedCount : UInt64
  totalAllocated : UInt64
  deriving DecidableEq, Repr

namespace MemoryPool

/-- `sizeof(PoolBlock)`: the `next` pointer and `char data[1]`, padded to 16. -/
def poolBlockSize : UInt64 := 16

/-- `offsetof(PoolBlock, data)`. -/
def dataOffset : Nat := 8

/-- The header of a payload pointer, as `deallocate` computes it. -/
def slabOf (ptr : Nat) : Nat := ptr - dataOffset

def expandPool (held : List Mutex) (h : Heap) (p : MemoryPool) :
    Except Fault (Heap × MemoryPool) := do
  let _ ← lockGuard held .poolMutex
  match h.malloc (p.config.blockSize + poolBlockSize) with
  | none => throw .badAlloc
  | some (newBlock, h) =>
      pure (h.setNext newBlock p.freeList,
        { p with allocatedBlocks := p.allocatedBlocks ++ [newBlock], freeList := newBlock })

/-- `MemoryPool(cfg)`: an empty pool that expands once, with no lock held. -/
def create (cfg : MemoryPoolConfig) (h : Heap) : Except Fault (Heap × MemoryPool) :=
  expandPool [] h ⟨0, [], cfg, 0, 0⟩

def allocate (h : Heap) (p : MemoryPool) : Except Fault (Nat × Heap × MemoryPool) := do
  let held ← lockGuard [] .poolMutex
  let (h, p) ← if p.freeList = 0 then p.expandPool held h else pure (h, p)
  let block := p.freeList
  pure (block + dataOffset, h,
    { p with freeList := h.next block, allocatedCount := p.allocatedCount + 1,
             totalAllocated := p.totalAllocated + p.config.blockSize })

def deallocate (ptr : Nat) (h : Heap) (p : MemoryPool) : Heap × MemoryPool :=
  if ptr = 0 then (h, p)
  else
    let block := slabOf ptr
    (h.setNext block p.freeList,
      { p with freeList := block, allocatedCount := p.allocatedCount - 1 })

/-- `~MemoryPool()`: `std::free` on every slab of `allocated_blocks`, in order. -/
def destroy (h : Heap) (p : MemoryPool) : Option Heap := p.allocatedBlocks.foldlM Heap.free h

/-! ## One lemma per operation -/

theorem expandPool_eq_ok {held : List Mutex} {h h' : Heap} {p p' : MemoryPool}
    (he : p.expandPool held h = .ok (h', p')) :
    ∃ newBlock h₁, h.malloc (p.config.blockSize + poolBlockSize) = some (newBlock, h₁) ∧
      h' = h₁.setNext newBlock p.freeList ∧
      p' = { p with allocatedBlocks := p.allocatedBlocks ++ [newBlock], freeList := newBlock } := by
  unfold expandPool at he
  by_cases hm : Mutex.poolMutex ∈ held
  · simp [lockGuard_of_mem hm] at he
    cases he
  · simp only [lockGuard_of_not_mem hm] at he
    split at he
    · cases he
    · next newBlock h₁ hmalloc =>
      cases he
      exact ⟨newBlock, h₁, hmalloc, rfl, rfl⟩

theorem expandPool_of_mem {held : List Mutex} (hm : Mutex.poolMutex ∈ held) (h : Heap)
    (p : MemoryPool) : p.expandPool held h = .error (.selfDeadlock .poolMutex) := by
  simp [expandPool, lockGuard_of_mem hm]
  rfl

theorem allocate_of_freeList_eq_zero {p : MemoryPool} (hp : p.freeList = 0) (h : Heap) :
    p.allocate h = .error (.selfDeadlock .poolMutex) := by
  simp [allocate, hp, expandPool_of_mem (List.mem_singleton_self _)]
  rfl

theorem allocate_of_freeList_ne_zero {p : MemoryPool} (hp : p.freeList ≠ 0) (h : Heap) :
    p.allocate h = .ok (p.freeList + dataOffset, h,
      { p with freeList := h.next p.freeList, allocatedCount := p.allocatedCount + 1,
               totalAllocated := p.totalAllocated + p.config.blockSize }) := by
  simp [allocate, hp]

theorem allocate_eq_ok {h h' : Heap} {p p' : MemoryPool} {ptr : Nat}
    (ha : p.allocate h = .ok (ptr, h', p')) :
    p.freeList ≠ 0 ∧ ptr = p.freeList + dataOffset ∧ h' = h ∧
      p' = { p with freeList := h.next p.freeList, allocatedCount := p.allocatedCount + 1,
                    totalAllocated := p.totalAllocated + p.config.blockSize } := by
  by_cases hp : p.freeList = 0
  · rw [allocate_of_freeList_eq_zero hp] at ha
    cases ha
  · rw [allocate_of_freeList_ne_zero hp] at ha
    cases ha
    exact ⟨hp, rfl, rfl, rfl⟩

theorem deallocate_of_ne_zero {ptr : Nat} (hptr : ptr ≠ 0) (h : Heap) (p : MemoryPool) :
    p.deallocate ptr h = (h.setNext (slabOf ptr) p.freeList,
      { p with freeList := slabOf ptr, allocatedCount := p.allocatedCount - 1 }) :=
  if_neg hptr

@[simp] theorem deallocate_zero (h : Heap) (p : MemoryPool) : p.deallocate 0 h = (h, p) := rfl

@[simp] theorem deallocate_config (ptr : Nat) (h : Heap) (p : MemoryPool) :
    (p.deallocate ptr h).2.config = p.config := by
  unfold deallocate; split_ifs <;> rfl

@[simp] theorem deallocate_allocatedBlocks (ptr : Nat) (h : Heap) (p : MemoryPool) :
    (p.deallocate ptr h).2.allocatedBlocks = p.allocatedBlocks := by
  unfold deallocate; split_ifs <;> rfl

theorem create_eq_ok {cfg : MemoryPoolConfig} {h h' : Heap} {p : MemoryPool}
    (hc : create cfg h = .ok (h', p)) :
    ∃ newBlock, h.brk < newBlock ∧ newBlock ≤ h'.brk ∧
      h'.next = Function.update h.next newBlock 0 ∧
      p = ⟨newBlock, [newBlock], cfg, 0, 0⟩ := by
  obtain ⟨newBlock, h₁, hm, rfl, rfl⟩ := expandPool_eq_ok hc
  obtain ⟨-, -, hnext, -⟩ := Heap.malloc_eq_some hm
  exact ⟨newBlock, (Heap.malloc_fresh hm).1, (Heap.malloc_fresh hm).2, by simp [hnext], rfl⟩

theorem create_chunks {cfg : MemoryPoolConfig} {h h' : Heap} {p : MemoryPool}
    (hc : create cfg h = .ok (h', p)) :
    h'.chunks = (p.freeList, cfg.blockSize + poolBlockSize) :: h.chunks := by
  obtain ⟨newBlock, h₁, hm, rfl, rfl⟩ := expandPool_eq_ok hc
  simpa using Heap.malloc_chunks hm

theorem create_freeList {cfg : MemoryPoolConfig} {h h' : Heap} {p : MemoryPool}
    (hc : create cfg h = .ok (h', p)) : p.freeList = h.brk + Heap.chunkHeader := by
  obtain ⟨newBlock, h₁, hm, -, rfl⟩ := expandPool_eq_ok hc
  exact (Heap.malloc_eq_some hm).1

theorem create_brk {cfg : MemoryPoolConfig} {h h' : Heap} {p : MemoryPool}
    (hc : create cfg h = .ok (h', p)) :
    h'.brk = p.freeList + (cfg.blockSize + poolBlockSize).toNat := by
  obtain ⟨newBlock, h₁, hm, rfl, rfl⟩ := expandPool_eq_ok hc
  exact (Heap.malloc_eq_some hm).2.1

theorem allocate_twice_after_create {cfg : MemoryPoolConfig} {h h₁ : Heap} {p₁ : MemoryPool}
    (hc : create cfg h = .ok (h₁, p₁)) :
    ∃ ptr h₂ p₂, p₁.allocate h₁ = .ok (ptr, h₂, p₂) ∧
      p₂.allocate h₂ = .error (.selfDeadlock .poolMutex) := by
  obtain ⟨newBlock, hlt, -, hnext, rfl⟩ := create_eq_ok hc
  refine ⟨_, _, _, allocate_of_freeList_ne_zero (show newBlock ≠ 0 by omega) h₁,
    allocate_of_freeList_eq_zero ?_ _⟩
  simp [hnext]

/-- The pool of `MemoryPool(MemoryPoolConfig())` on a fresh arena, asked for two blocks. -/
theorem allocate_twice_self_deadlock :
    (do
      let (h, p) ← create .default (Heap.init 4096 4294967296)
      let (_, h, p) ← p.allocate h
      p.allocate h) = .error (.selfDeadlock .poolMutex) := by
  obtain ⟨⟨h₁, p₁⟩, hc⟩ : ∃ r, create .default (Heap.init 4096 4294967296) = .ok r := ⟨_, rfl⟩
  obtain ⟨ptr, h₂, p₂, ha₁, ha₂⟩ := allocate_twice_after_create hc
  simp only [hc, ha₁, ha₂, bind, Except.bind]

@[simp] theorem slabOf_add_dataOffset (block : Nat) : slabOf (block + dataOffset) = block := by
  simp [slabOf]

theorem deallocate_allocate {p p' : MemoryPool} {h h' : Heap} {ptr : Nat}
    (ha : p.allocate h = .ok (ptr, h', p')) :
    (p'.deallocate ptr h').1.next = h.next ∧ (p'.deallocate ptr h').2.freeList = p.freeList ∧
      (p'.deallocate ptr h').2.allocatedCount = p.allocatedCount := by
  obtain ⟨-, rfl, rfl, rfl⟩ := allocate_eq_ok ha
  rw [deallocate_of_ne_zero (by simp [dataOffset])]
  simp

end MemoryPool

end NeuralMemory
