import NeuralMemory.Pool

/-!
# The free list and the pool invariant

`FreeChain next head blocks` says that following `PoolBlock::next` from `head` visits the
headers `blocks` in order and reaches `nullptr`.  A chain is finite by construction, and
`FreeChain.nodup` shows that it is then also free of repetitions: a header met twice
would make the walk from it a proper suffix of itself.

`PoolInv` is the invariant of one pool, given the payload pointers it has handed out and
not had back: the free headers and the headers of those pointers are the pool's slabs,
each once, and `allocated_count` counts the pointers.  `allocate`, `deallocate` and
`expand_pool` keep it, so every state a pool reaches by calls that return satisfies it
(`PoolReachable.poolInv`).
-/

namespace NeuralMemory

open MemoryPool

inductive FreeChain (next : Nat → Nat) : Nat → List Nat → Prop
  | null : FreeChain next 0 []
  | cons {block : Nat} {blocks : List Nat} :
      block ≠ 0 → FreeChain next (next block) blocks → FreeChain next block (block :: blocks)

namespace FreeChain

variable {next : Nat → Nat} {head : Nat} {blocks : List Nat}

theorem unique {blocks' : List Nat} (hc : FreeChain next head blocks)
    (hc' : FreeChain next head blocks') : blocks = blocks' := by
  induction hc generalizing blocks' with
  | null => cases hc' with
    | null => rfl
    | cons h _ => exact absurd rfl h
  | cons hb _ ih => cases hc' with
    | null => exact absurd rfl hb
    | cons _ hrest => rw [ih hrest]

theorem eq_zero_of_nil (hc : FreeChain next head []) : head = 0 := by
  cases hc; rfl

theorem ne_zero_of_mem {b : Nat} (hc : FreeChain next head blocks) (hb : b ∈ blocks) :
    b ≠ 0 := by
  induction hc with
  | null => cases hb
  | cons hne _ ih =>
      rcases List.mem_cons.mp hb with rfl | hb
      · exact hne
      · exact ih hb

theorem suffix_of_mem {b : Nat} (hc : FreeChain next head blocks) (hb : b ∈ blocks) :
    ∃ rest, FreeChain next b (b :: rest) ∧ rest.length < blocks.length := by
  induction hc with
  | null => cases hb
  | @cons block blocks hne hrest ih =>
      rcases List.mem_cons.mp hb with rfl | hb
      · exact ⟨blocks, .cons hne hrest, by simp⟩
      · obtain ⟨rest, hchain, hlen⟩ := ih hb
        exact ⟨rest, hchain, by simp; omega⟩

theorem nodup (hc : FreeChain next head blocks) : blocks.Nodup := by
  induction hc with
  | null => exact List.nodup_nil
  | @cons block blocks hne hrest ih =>
      refine List.nodup_cons.mpr ⟨fun hmem => ?_, ih⟩
      obtain ⟨rest, hchain, hlen⟩ := suffix_of_mem hrest hmem
      have := (FreeChain.cons hne hrest).unique hchain
      simp only [List.cons.injEq, true_and] at this
      subst this
      exact lt_irrefl _ hlen

theorem update {a v : Nat} (hc : FreeChain next head blocks) (ha : a ∉ blocks) :
    FreeChain (Function.update next a v) head blocks := by
  induction hc with
  | null => exact .null
  | @cons block blocks hne _ ih =>
      have hba : block ≠ a := fun h => ha (h ▸ List.mem_cons_self _ _)
      refine .cons hne ?_
      rw [Function.update_noteq hba]
      exact ih (fun h => ha (List.mem_cons_of_mem _ h))

theorem push {block : Nat} (hc : FreeChain next head blocks) (hb : block ∉ blocks)
    (hne : block ≠ 0) :
    FreeChain (Function.update next block head) block (block :: blocks) :=
  .cons hne (by simpa using hc.update hb)

theorem pop {block : Nat} (hc : FreeChain next head (block :: blocks)) :
    head = block ∧ FreeChain next (next block) blocks := by
  cases hc with
  | cons _ hrest => exact ⟨rfl, hrest⟩

end FreeChain

/-! ## The pool invariant -/

structure PoolInv (next : Nat → Nat) (p : MemoryPool) (live : List Nat) : Prop where
  chain : ∃ free, FreeChain next p.freeList free ∧
    (free ++ live.map slabOf).Perm p.allocatedBlocks
  nodup : p.allocatedBlocks.Nodup
  zero_not_mem : 0 ∉ p.allocatedBlocks
  count : p.allocatedCount = UInt64.ofNat live.length

namespace PoolInv

variable {next : Nat → Nat} {p : MemoryPool} {live : List Nat}

theorem perm {live' : List Nat} (hinv : PoolInv next p live) (hl : live.Perm live') :
    PoolInv next p live' := by
  obtain ⟨free, hchain, hperm⟩ := hinv.chain
  exact ⟨⟨free, hchain, ((hl.map _).append_left _).symm.trans hperm⟩, hinv.nodup,
    hinv.zero_not_mem, by rw [hinv.count, hl.length_eq]⟩

theorem free_live_nodup {free : List Nat} (hinv : PoolInv next p live)
    (hperm : (free ++ live.map slabOf).Perm p.allocatedBlocks) :
    (free ++ live.map slabOf).Nodup :=
  hperm.nodup_iff.mpr hinv.nodup

theorem slabOf_mem {ptr : Nat} (hinv : PoolInv next p live) (hptr : ptr ∈ live) :
    slabOf ptr ∈ p.allocatedBlocks := by
  obtain ⟨free, -, hperm⟩ := hinv.chain
  exact hperm.subset (List.mem_append_right _ (List.mem_map_of_mem _ hptr))

theorem freeList_mem (hinv : PoolInv next p live) (hne : p.freeList ≠ 0) :
    p.freeList ∈ p.allocatedBlocks := by
  obtain ⟨free, hchain, hperm⟩ := hinv.chain
  cases free with
  | nil => exact absurd hchain.eq_zero_of_nil hne
  | cons block rest =>
      rw [hchain.pop.1]
      exact hperm.subset (List.mem_append_left _ (List.mem_cons_self _ _))

theorem update {a v : Nat} (hinv : PoolInv next p live) (ha : a ∉ p.allocatedBlocks) :
    PoolInv (Function.update next a v) p live := by
  obtain ⟨free, hchain, hperm⟩ := hinv.chain
  refine ⟨⟨free, hchain.update fun h => ha ?_, hperm⟩, hinv.nodup, hinv.zero_not_mem,
    hinv.count⟩
  exact hperm.subset (List.mem_append_left _ h)

theorem empty (next : Nat → Nat) (cfg : MemoryPoolConfig) :
    PoolInv next ⟨0, [], cfg, 0, 0⟩ [] :=
  ⟨⟨[], .null, by simp⟩, List.nodup_nil, List.not_mem_nil _, rfl⟩

theorem allocate {h h' : Heap} {p' : MemoryPool} {ptr : Nat} (hinv : PoolInv h.next p live)
    (ha : p.allocate h = .ok (ptr, h', p')) :
    PoolInv h'.next p' (ptr :: live) ∧ ptr ∉ live := by
  obtain ⟨hne, rfl, rfl, rfl⟩ := MemoryPool.allocate_eq_ok ha
  obtain ⟨free, hchain, hperm⟩ := hinv.chain
  cases free with
  | nil => exact absurd hchain.eq_zero_of_nil hne
  | cons block rest =>
      obtain ⟨hhead, hrest⟩ := hchain.pop
      have hnodup := hinv.free_live_nodup hperm
      rw [hhead]
      refine ⟨⟨⟨rest, hrest, ?_⟩, hinv.nodup, hinv.zero_not_mem, ?_⟩, fun hmem => ?_⟩
      · simpa using List.perm_middle.trans hperm
      · simp [hinv.count, UInt64.ofNat_succ]
      · have : block ∈ live.map slabOf := by
          simpa using List.mem_map_of_mem slabOf hmem
        exact (List.nodup_cons.mp hnodup).1 (List.mem_append_right _ this)

theorem deallocate {h : Heap} {ptr : Nat} (hinv : PoolInv h.next p live) (hptr : ptr ∈ live) :
    PoolInv (p.deallocate ptr h).1.next (p.deallocate ptr h).2 (live.erase ptr) := by
  obtain ⟨free, hchain, hperm⟩ := hinv.chain
  have hslab := hinv.slabOf_mem hptr
  have hslab0 : slabOf ptr ≠ 0 := fun h0 => hinv.zero_not_mem (h0 ▸ hslab)
  have hptr0 : ptr ≠ 0 := by simp [slabOf] at hslab0; omega
  have hlive : (live.map slabOf).Perm (slabOf ptr :: (live.erase ptr).map slabOf) := by
    simpa using (List.perm_cons_erase hptr).map slabOf
  have hnotfree : slabOf ptr ∉ free := by
    have hnodup := hinv.free_live_nodup hperm
    rw [List.nodup_append] at hnodup
    exact fun hf => hnodup.2.2 hf (List.mem_map_of_mem _ hptr)
  rw [MemoryPool.deallocate_of_ne_zero hptr0]
  refine ⟨⟨slabOf ptr :: free, hchain.push hnotfree hslab0, ?_⟩, hinv.nodup,
    hinv.zero_not_mem, ?_⟩
  · exact (List.perm_middle.symm.trans ((hlive.append_left free).symm)).trans hperm
  · have hlen := List.length_erase_of_mem hptr
    have hpos := List.length_pos_of_mem hptr
    simp [hinv.count, hlen, UInt64.ofNat_pred hpos]

theorem expandPool {held : List Mutex} {h h' : Heap} {p' : MemoryPool}
    (hinv : PoolInv h.next p live) (hbrk : ∀ s ∈ p.allocatedBlocks, s ≤ h.brk)
    (he : p.expandPool held h = .ok (h', p')) :
    PoolInv h'.next p' live ∧ ∀ s ∈ p'.allocatedBlocks, s ≤ h'.brk := by
  obtain ⟨newBlock, h₁, hm, rfl, rfl⟩ := MemoryPool.expandPool_eq_ok he
  obtain ⟨-, -, hnext, -⟩ := Heap.malloc_eq_some hm
  obtain ⟨hlt, hle⟩ := Heap.malloc_fresh hm
  obtain ⟨free, hchain, hperm⟩ := hinv.chain
  have hfresh : newBlock ∉ p.allocatedBlocks := fun hmem => by
    have := hbrk _ hmem; omega
  have hne : newBlock ≠ 0 := by omega
  refine ⟨⟨⟨newBlock :: free, ?_, ?_⟩, ?_, ?_, hinv.count⟩, ?_⟩
  · simpa [hnext] using
      hchain.push (fun hf => hfresh (hperm.subset (List.mem_append_left _ hf))) hne
  · exact (hperm.cons newBlock).trans (List.perm_append_singleton _ _).symm
  · exact List.nodup_append.mpr ⟨hinv.nodup, List.nodup_singleton _,
      fun a ha hb => hfresh (List.mem_singleton.mp hb ▸ ha)⟩
  · simpa [hne.symm] using hinv.zero_not_mem
  · intro s hs
    rcases List.mem_append.mp hs with hs | hs
    · exact (hbrk s hs).trans (hlt.le.trans hle)
    · simp only [List.mem_singleton] at hs
      simpa [hs] using hle

theorem create {cfg : MemoryPoolConfig} {h h' : Heap} {p : MemoryPool}
    (hc : MemoryPool.create cfg h = .ok (h', p)) :
    PoolInv h'.next p [] ∧ ∀ s ∈ p.allocatedBlocks, s ≤ h'.brk :=
  (empty h.next cfg).expandPool (by simp) hc

end PoolInv

/-! ## Runs of one pool -/

/-- The states one pool reaches by calls that return, with the pointers it has out. -/
inductive PoolReachable : Heap → MemoryPool → List Nat → Prop
  | create {cfg : MemoryPoolConfig} {h h' : Heap} {p : MemoryPool} :
      MemoryPool.create cfg h = .ok (h', p) → PoolReachable h' p []
  | allocate {h h' : Heap} {p p' : MemoryPool} {live : List Nat} {ptr : Nat} :
      PoolReachable h p live → p.allocate h = .ok (ptr, h', p') →
        PoolReachable h' p' (ptr :: live)
  | deallocate {h : Heap} {p : MemoryPool} {live : List Nat} {ptr : Nat} :
      PoolReachable h p live → ptr ∈ live →
      PoolReachable (p.deallocate ptr h).1 (p.deallocate ptr h).2 (live.erase ptr)

theorem PoolReachable.poolInv {h : Heap} {p : MemoryPool} {live : List Nat}
    (hr : PoolReachable h p live) : PoolInv h.next p live := by
  induction hr with
  | create hc => exact (PoolInv.create hc).1
  | allocate _ ha ih => exact (ih.allocate ha).1
  | deallocate _ hptr ih => exact ih.deallocate hptr

end NeuralMemory
