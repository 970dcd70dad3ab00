import NeuralMemory.Slabs

/-!
# Where the blocks lie

`expand_pool` takes each slab with `std::malloc(block_size + sizeof(PoolBlock))`, and the
constructor builds the pools one after another, so each pool's slab ends below the next
pool's (`SlabsApart`).  No call moves a slab or changes a pool's `block_size`, so this holds
in every state.  A live pointer is the `data` member of a slab of its class's pool, and a
pool has one slab: the `block_size` bytes from two live pointers never overlap.
-/

namespace NeuralMemory

open MemoryPool NeuralMemoryManager

/-- Each pool's slabs and `block_size`, in the order of `memory_pools`. -/
def slabLayout (m : NeuralMemoryManager) : List (List Nat × UInt64) :=
  m.memoryPools.map fun pool => (pool.allocatedBlocks, pool.config.blockSize)

/--
Every slab of a pool, with the `block_size + sizeof(PoolBlock)` bytes `expand_pool` asked
for it, lies below every slab of each later pool.
-/
def SlabsApart (layout : List (List Nat × UInt64)) : Prop :=
  layout.Pairwise fun a b => ∀ sa ∈ a.1, ∀ sb ∈ b.1, sa + (a.2 + poolBlockSize).toNat ≤ sb

/-! ## The constructor lays the slabs out in order -/

/-- The constructor's loop: slabs in order, and all of them below the top. -/
def SlabsBelow (acc : Heap × NeuralMemoryManager) : Prop :=
  SlabsApart (slabLayout acc.2) ∧
    ∀ e ∈ slabLayout acc.2, ∀ slab ∈ e.1, slab + (e.2 + poolBlockSize).toNat ≤ acc.1.brk

theorem SlabsBelow.addPool {config : MemoryPoolConfig} {acc r : Heap × NeuralMemoryManager}
    {size : UInt64} (hacc : SlabsBelow acc) (ha : addPool config acc size = .ok r) :
    SlabsBelow r := by
  obtain ⟨pool, hpc, hr⟩ := addPool_eq_ok ha
  have htop : pool.freeList = acc.1.brk + 16 := MemoryPool.create_freeList hpc
  have hbrk := MemoryPool.create_brk hpc
  obtain ⟨q, -, -, -, rfl⟩ := MemoryPool.create_eq_ok hpc
  simp only at htop hbrk
  have hlayout : slabLayout r.2 = slabLayout acc.2 ++ [([q], size)] := by
    simp [slabLayout, hr]
  obtain ⟨hapart, hbelow⟩ := hacc
  rw [SlabsBelow, hlayout]
  refine ⟨List.pairwise_append.mpr ⟨hapart, List.pairwise_singleton _ _, ?_⟩, ?_⟩
  · intro a ha b hb sa hsa sb hsb
    obtain rfl := List.mem_singleton.mp hb
    obtain rfl := List.mem_singleton.mp hsb
    have := hbelow a ha sa hsa
    omega
  · intro e he slab hslab
    rcases List.mem_append.mp he with he | he
    · have := hbelow e he slab hslab
      omega
    · obtain rfl := List.mem_singleton.mp he
      obtain rfl := List.mem_singleton.mp hslab
      dsimp only
      omega

theorem SlabsApart.create {config : MemoryPoolConfig} {h h' : Heap} {m : NeuralMemoryManager}
    (hc : NeuralMemoryManager.create config h = .ok (h', m)) : SlabsApart (slabLayout m) :=
  (@foldlM_addPool_induction config SlabsBelow (fun _ _ _ hacc ha => hacc.addPool ha) _ _ _
    (by exact ⟨List.Pairwise.nil, by simp [slabLayout]⟩) hc).1

/-! ## No call changes the layout -/

theorem TableInv.slabLayout_call {config : MemoryPoolConfig}
    {s s' : Heap × NeuralMemoryManager} (ht : TableInv config s.2) (hc : Call s s') :
    slabLayout s'.2 = slabLayout s.2 := by
  have hsizes : s'.2.memoryPools.map (·.config.blockSize) =
      s.2.memoryPools.map (·.config.blockSize) := by
    simpa only [List.map_map] using congrArg (List.map (·.blockSize)) (ht.call hc).configs
  calc slabLayout s'.2
      = (slabTable s'.2).zip (s'.2.memoryPools.map (·.config.blockSize)) :=
        (List.zip_map' _ _ _).symm
    _ = (slabTable s.2).zip (s.2.memoryPools.map (·.config.blockSize)) := by
        rw [ht.slabTable_call hc, hsizes]
    _ = slabLayout s.2 := List.zip_map' _ _ _

theorem ManagerReachable.slabsApart {config : MemoryPoolConfig}
    {s : Heap × NeuralMemoryManager} (hs : ManagerReachable config s) :
    SlabsApart (slabLayout s.2) := by
  induction hs with
  | init hc => exact SlabsApart.create hc
  | call hs' hcall ih => rwa [hs'.tableInv.slabLayout_call hcall]

/-! ## Blocks of different slabs are apart -/

theorem TableInv.chunk_toNat {config : MemoryPoolConfig} {m : NeuralMemoryManager}
    (ht : TableInv config m) {pool : MemoryPool} (hpool : pool ∈ m.memoryPools) :
    (pool.config.blockSize + poolBlockSize).toNat = pool.config.blockSize.toNat + 16 := by
  have hmem : pool.config ∈ commonSizes.map fun size => { config with blockSize := size } :=
    ht.configs ▸ List.mem_map_of_mem _ hpool
  obtain ⟨size, hsize, hcfg⟩ := List.mem_map.mp hmem
  have hle : pool.config.blockSize.toNat ≤ 8192 := by
    rw [← hcfg]
    exact (show ∀ x ∈ commonSizes, x.toNat ≤ 8192 by decide) size hsize
  have h : (pool.config.blockSize + poolBlockSize).toNat =
      (pool.config.blockSize.toNat + 16) % 2 ^ 64 := rfl
  rw [h, Nat.mod_eq_of_lt (by omega)]

theorem ManagerReachable.blocks_apart {config : MemoryPoolConfig} {h : Heap}
    {m : NeuralMemoryManager} (hr : ManagerReachable config (h, m)) {i j : Nat}
    (hi : i < m.memoryPools.length) (hj : j < m.memoryPools.length) {sp sq : Nat}
    (hsp : sp ∈ m.memoryPools[i].allocatedBlocks) (hsq : sq ∈ m.memoryPools[j].allocatedBlocks)
    (hne : sp ≠ sq) :
    sp + dataOffset + m.memoryPools[i].config.blockSize.toNat ≤ sq + dataOffset ∨
      sq + dataOffset + m.memoryPools[j].config.blockSize.toNat ≤ sp + dataOffset := by
  have hapart : SlabsApart (slabLayout m) := hr.slabsApart
  have hlen : (slabLayout m).length = m.memoryPools.length := List.length_map _ _
  have hsize := hr.tableInv.chunk_toNat (List.getElem_mem hi)
  have hsize' := hr.tableInv.chunk_toNat (List.getElem_mem hj)
  simp only [dataOffset]
  rcases lt_trichotomy i j with hij | rfl | hij
  · have := List.pairwise_iff_getElem.mp hapart i j (hlen ▸ hi) (hlen ▸ hj) hij
    simp only [slabLayout, List.getElem_map] at this
    have := this sp hsp sq hsq
    omega
  · obtain ⟨slab, hslab⟩ := hr.slabInv.single _ (mem_slabTable (List.getElem_mem hi))
    rw [hslab, List.mem_singleton] at hsp hsq
    exact absurd (hsp.trans hsq.symm) hne
  · have := List.pairwise_iff_getElem.mp hapart j i (hlen ▸ hj) (hlen ▸ hi) hij
    simp only [slabLayout, List.getElem_map] at this
    have := this sq hsq sp hsp
    omega

/--
With leak detection on, in every reachable session the blocks of two live allocations
never overlap: the `block_size` bytes of its pool from one live pointer end at or below
the other live pointer.
-/
theorem live_blocks_disjoint {config : MemoryPoolConfig} {s : Session} {p q : Nat}
    {sp sq : UInt64} (hleak : config.enableLeakDetection = true) (hs : Reachable config s)
    (hp : s.live.lookup p = some sp) (hq : s.live.lookup q = some sq) (hne : p ≠ q) :
    ∃ poolP poolQ,
      s.manager.memoryPools[getPoolIndex s.manager.poolIndexMap sp]? = some poolP ∧
      s.manager.memoryPools[getPoolIndex s.manager.poolIndexMap sq]? = some poolQ ∧
      (p + poolP.config.blockSize.toNat ≤ q ∨ q + poolQ.config.blockSize.toNat ≤ p) := by
  have hsi := hs.sessionInv hleak
  have hr := hs.managerReachable
  have hi := hr.tableInv.getPoolIndex_lt sp
  have hj := hr.tableInv.getPoolIndex_lt sq
  have hpoolP := List.getElem?_eq_getElem hi
  have hpoolQ := List.getElem?_eq_getElem hj
  have hsp := (hsi.manager.slabOf_mem hp hpoolP).2
  have hsq := (hsi.manager.slabOf_mem hq hpoolQ).2
  -- a live pointer is the `data` member of its slab, which is never null
  have hdata : ∀ {r : Nat} {pool : MemoryPool}, slabOf r ∈ pool.allocatedBlocks →
      0 ∉ pool.allocatedBlocks → slabOf r + dataOffset = r := fun {r pool} hmem h0 => by
    have : slabOf r ≠ 0 := fun h => h0 (h ▸ hmem)
    simp only [slabOf, dataOffset] at this ⊢
    omega
  have hp' := hdata hsp ((hsi.manager.pool _ _ hpoolP).zero_not_mem)
  have hq' := hdata hsq ((hsi.manager.pool _ _ hpoolQ).zero_not_mem)
  refine ⟨_, _, hpoolP, hpoolQ, ?_⟩
  rw [← hp', ← hq']
  exact hr.blocks_apart hi hj hsp hsq fun h => hne (hp'.symm.trans (h ▸ hq'))

/-- The default session after `allocate(64)` and then `allocate(128)`, which returns `4216`. -/
def twoBlockSession : Session :=
  match allocatedSession.manager.allocate allocatedSession.heap 128 none 0 with
  | .ok (ptr, h, m) => ⟨h, m, allocatedSession.live.insert ptr 128⟩
  | .error _ => allocatedSession

theorem twoBlockSession_reachable : Reachable .default twoBlockSession :=
  .step allocatedSession_reachable (Step.allocate (show
    allocatedSession.manager.allocate allocatedSession.heap 128 none 0 =
      .ok (4216, twoBlockSession.heap, twoBlockSession.manager) from rfl))

theorem live_blocks_disjoint_default :
    MemoryPoolConfig.default.enableLeakDetection = true ∧ Reachable .default twoBlockSession ∧
    twoBlockSession.live.lookup 4120 = some 64 ∧ twoBlockSession.live.lookup 4216 = some 128 ∧
    (4120 : Nat) ≠ 4216 ∧
    ∃ poolP poolQ,
      twoBlockSession.manager.memoryPools[
          getPoolIndex twoBlockSession.manager.poolIndexMap 64]? = some poolP ∧
      twoBlockSession.manager.memoryPools[
          getPoolIndex twoBlockSession.manager.poolIndexMap 128]? = some poolQ ∧
      (4120 + poolP.config.blockSize.toNat ≤ 4216 ∨ 4216 + poolQ.config.blockSize.toNat ≤ 4120) :=
  ⟨rfl, twoBlockSession_reachable, by decide, by decide, by decide,
    live_blocks_disjoint rfl twoBlockSession_reachable
      (show twoBlockSession.live.lookup 4120 = some 64 by decide)
      (show twoBlockSession.live.lookup 4216 = some 128 by decide) (by decide)⟩

end NeuralMemory
