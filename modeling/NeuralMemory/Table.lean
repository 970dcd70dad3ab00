import NeuralMemory.Reachable

/-!
# The size-class table

`pool_index_map` and `memory_pools` make up the table that sends a requested size to its
pool.  The constructor fills it with the common sizes, one pool each.
`get_or_create_pool` adds a class only when `get_pool_index` names no pool, and
`get_pool_index` returns an index of the map or `0`, so after the constructor no call adds,
removes or reorders a class: the table stays as the constructor left it.

`Frame` collects what a call leaves alone: the configuration, the corruption detector's
switch, the map and each pool's configuration.  `TableInv` says that these are the
constructor's, and it holds over `ManagerReachable`, whose calls may pass any pointer,
freed or never handed out.
-/

namespace NeuralMemory

open NeuralMemoryManager

/-! ## What a call leaves alone -/

/-- What `m'` keeps of `m`: all but the pools' blocks, the tracker and the metrics. -/
structure Frame (m m' : NeuralMemoryManager) : Prop where
  defaultConfig : m'.defaultConfig = m.defaultConfig
  corruptionDetection : m'.corruptionDetection = m.corruptionDetection
  poolIndexMap : m'.poolIndexMap = m.poolIndexMap
  configs : m'.memoryPools.map (·.config) = m.memoryPools.map (·.config)

namespace Frame

variable {m m' m'' : NeuralMemoryManager}

theorem refl (m : NeuralMemoryManager) : Frame m m := ⟨rfl, rfl, rfl, rfl⟩

theorem trans (h₁ : Frame m m') (h₂ : Frame m' m'') : Frame m m'' :=
  ⟨h₂.defaultConfig.trans h₁.defaultConfig,
    h₂.corruptionDetection.trans h₁.corruptionDetection,
    h₂.poolIndexMap.trans h₁.poolIndexMap, h₂.configs.trans h₁.configs⟩

theorem setPool {idx : Nat} {pool : MemoryPool} (hidx : idx < m.memoryPools.length)
    (hcfg : pool.config = m.memoryPools[idx].config) : Frame m (m.setPool idx pool) where
  defaultConfig := rfl
  corruptionDetection := rfl
  poolIndexMap := rfl
  configs := List.ext_getElem (by simp) fun j _ _ => by
    simp only [setPool_memoryPools, List.getElem_map, List.getElem_set]
    split_ifs with hj
    · subst hj; exact hcfg
    · rfl

theorem recordAllocation (ptr : Nat) (size : UInt64) (file : Option String) (line : Int) :
    Frame m (m.recordAllocation ptr size file line) :=
  ⟨by simp, by simp, by simp, by simp⟩

theorem recordDeallocation (ptr : Nat) : Frame m (m.recordDeallocation ptr) :=
  ⟨by simp, by simp, by simp, by simp⟩

theorem allocate {h h' : Heap} {size : UInt64} {file : Option String} {line : Int} {ptr : Nat}
    (hlt : getPoolIndex m.poolIndexMap size < m.memoryPools.length)
    (ha : m.allocate h size file line = .ok (ptr, h', m')) : Frame m m' := by
  obtain ⟨pool', hpa, rfl⟩ := NeuralMemoryManager.allocate_eq_ok hlt ha
  obtain ⟨-, -, -, rfl⟩ := MemoryPool.allocate_eq_ok hpa
  exact Frame.trans (setPool hlt (by rfl)) (recordAllocation ..)

theorem deallocate (h : Heap) (m : NeuralMemoryManager) (ptr : Nat) :
    Frame m (m.deallocate h ptr).2 := by
  unfold NeuralMemoryManager.deallocate
  split_ifs
  · exact refl m
  · split
    · next idx _ =>
      exact (setPool idx.2 (MemoryPool.deallocate_config ..)).trans (recordDeallocation ptr)
    · exact recordDeallocation ptr

theorem reallocate {h h' : Heap} {ptr : Nat} {newSize : UInt64} {file : Option String}
    {line : Int} {result : Nat} (hlt : getPoolIndex m.poolIndexMap newSize < m.memoryPools.length)
    (hr : m.reallocate h ptr newSize file line = .ok (result, h', m')) : Frame m m' := by
  rcases reallocate_eq_ok hr with ⟨-, ha⟩ | ⟨-, -, -, hd⟩ | ⟨-, -, -, -, rfl⟩ |
    ⟨-, -, block, -, ⟨-, -, -, rfl⟩ | ⟨-, h₁, m₁, ha, hd⟩⟩
  · exact allocate hlt ha
  · obtain rfl : m' = _ := congrArg Prod.snd hd
    exact deallocate h m ptr
  · split_ifs
    · exact ⟨rfl, rfl, rfl, rfl⟩
    · exact refl _
  · exact refl _
  · split_ifs at hd
    · obtain rfl : m' = _ := congrArg Prod.snd hd
      exact (allocate hlt ha).trans (deallocate ..)
    · cases hd
      exact allocate hlt ha

end Frame

/-! ## The constructor's table -/

/--
What the constructor fixes for good: the configuration, the corruption switch, pool `i`
configured for the `i`-th common size, and the map sending each common size to its pool.
-/
structure TableInv (config : MemoryPoolConfig) (m : NeuralMemoryManager) : Prop where
  defaultConfig : m.defaultConfig = config
  corruptionDetection : m.corruptionDetection = config.enableCorruptionDetection
  configs : m.memoryPools.map (·.config) =
    commonSizes.map fun size => { config with blockSize := size }
  lookup_iff : ∀ c i, m.poolIndexMap.lookup c = some i ↔ commonSizes[i]? = some c

theorem foldlM_addPool_configs {config : MemoryPoolConfig} :
    ∀ (sizes : List UInt64) (acc r : Heap × NeuralMemoryManager),
      sizes.foldlM (addPool config) acc = .ok r →
        r.2.memoryPools.map (·.config) = acc.2.memoryPools.map (·.config) ++
          sizes.map fun size => { config with blockSize := size }
  | [], acc, r, hr => by cases hr; simp
  | size :: sizes, acc, r, hr => by
      simp only [List.foldlM_cons, Except.bind_eq_ok] at hr
      obtain ⟨acc', ha, hrest⟩ := hr
      obtain ⟨pool, hc, hacc'⟩ := addPool_eq_ok ha
      obtain ⟨_, -, -, -, rfl⟩ := MemoryPool.create_eq_ok hc
      rw [foldlM_addPool_configs sizes acc' r hrest, hacc']
      simp

/-- `map` sends each class to the last index at which `sizes` holds it. -/
def LastIndex (sizes : List UInt64) (map : PoolIndexMap) : Prop :=
  ∀ c i, map.lookup c = some i ↔ sizes[i]? = some c ∧ ∀ j, i < j → sizes[j]? ≠ some c

theorem LastIndex.insert {sizes : List UInt64} {map : PoolIndexMap} (hmap : LastIndex sizes map)
    (size : UInt64) : LastIndex (sizes ++ [size]) (map.insert size sizes.length) := by
  intro c i
  by_cases hc : c = size
  · subst hc
    rw [AList.lookup_insert, Option.some.injEq]
    constructor
    · rintro rfl
      refine ⟨by simp, fun j hj => ?_⟩
      have hlen : (sizes ++ [c]).length ≤ j := by simp; omega
      simp [List.getElem?_eq_none hlen]
    · rintro ⟨hi, hj⟩
      rcases getElem?_concat_eq_some hi with hi | ⟨rfl, -⟩
      · exact absurd (by simp) (hj _ (List.getElem?_eq_some_iff.mp hi).1)
      · rfl
  · simp only [AList.lookup_insert_ne hc, hmap c i, ne_eq, getElem?_concat_eq_some_iff_of_ne hc]

theorem LastIndex.lookup_iff {sizes : List UInt64} {map : PoolIndexMap}
    (hmap : LastIndex sizes map) (hnd : sizes.Nodup) (c : UInt64) (i : Nat) :
    map.lookup c = some i ↔ sizes[i]? = some c := by
  rw [hmap c i]
  refine and_iff_left_of_imp fun hi j hij hj => ?_
  have := List.getElem?_inj (List.getElem?_eq_some_iff.mp hi).1 hnd (hi.trans hj.symm)
  omega

theorem TableInv.create {config : MemoryPoolConfig} {h h' : Heap} {m : NeuralMemoryManager}
    (hc : NeuralMemoryManager.create config h = .ok (h', m)) : TableInv config m := by
  have hconfigs := foldlM_addPool_configs _ _ _ hc
  simp only [List.map_nil, List.nil_append] at hconfigs
  have hlast := @foldlM_addPool_induction config (fun acc =>
      acc.2.corruptionDetection = config.enableCorruptionDetection ∧
      LastIndex (acc.2.memoryPools.map (·.config.blockSize)) acc.2.poolIndexMap)
    (fun acc r size hacc ha => by
      obtain ⟨pool, hpc, hr⟩ := addPool_eq_ok ha
      obtain ⟨_, -, -, -, rfl⟩ := MemoryPool.create_eq_ok hpc
      rw [hr]
      simpa using And.intro hacc.1 (hacc.2.insert size))
    _ _ _ ⟨rfl, fun c i => by simp⟩ hc
  have hsizes : m.memoryPools.map (·.config.blockSize) = commonSizes := by
    simpa [List.map_map, Function.comp_def] using congrArg (List.map (·.blockSize)) hconfigs
  obtain ⟨hcorr, hmap⟩ := hlast
  rw [hsizes] at hmap
  exact ⟨(BuildInv.create hc).config_eq, hcorr, hconfigs, hmap.lookup_iff (by decide)⟩

namespace TableInv

variable {config : MemoryPoolConfig} {m m' : NeuralMemoryManager}

theorem frame (ht : TableInv config m) (hf : Frame m m') : TableInv config m' :=
  ⟨hf.defaultConfig.trans ht.defaultConfig, hf.corruptionDetection.trans ht.corruptionDetection,
    hf.configs.trans ht.configs, fun c i => hf.poolIndexMap ▸ ht.lookup_iff c i⟩

theorem length_eq (ht : TableInv config m) : m.memoryPools.length = commonSizes.length := by
  simpa using congrArg List.length ht.configs

theorem pool_of_lookup (ht : TableInv config m) {c : UInt64} {i : Nat}
    (hc : m.poolIndexMap.lookup c = some i) :
    ∃ pool, m.memoryPools[i]? = some pool ∧ pool.config = { config with blockSize := c } := by
  have hi := congrArg (·[i]?) ht.configs
  simp only [List.getElem?_map, (ht.lookup_iff c i).mp hc, Option.map_some'] at hi
  obtain ⟨pool, hpool, hcfg⟩ := Option.map_eq_some'.mp hi
  exact ⟨pool, hpool, hcfg⟩

theorem getPoolIndex_lt (ht : TableInv config m) (size : UInt64) :
    getPoolIndex m.poolIndexMap size < m.memoryPools.length :=
  NeuralMemory.getPoolIndex_lt (by rw [ht.length_eq]; decide)
    (fun c i hc => ht.length_eq ▸ (List.getElem?_eq_some_iff.mp ((ht.lookup_iff c i).mp hc)).1)
    size

theorem call {s s' : Heap × NeuralMemoryManager} (ht : TableInv config s.2) (hc : Call s s') :
    Frame s.2 s'.2 := by
  cases hc with
  | allocate ha => exact Frame.allocate (ht.getPoolIndex_lt _) ha
  | deallocate => exact Frame.deallocate ..
  | reallocate hr => exact Frame.reallocate (ht.getPoolIndex_lt _) hr

end TableInv

theorem ManagerReachable.tableInv {config : MemoryPoolConfig} {s : Heap × NeuralMemoryManager}
    (hs : ManagerReachable config s) : TableInv config s.2 := by
  induction hs with
  | init hc => exact TableInv.create hc
  | call _ hcall ih => exact ih.frame (ih.call hcall)

/-! ## The table in every reachable state -/

theorem sizeDiff_64_lt (n : UInt64) : sizeDiff n 64 < sizeMax := by
  have hn := UInt64.toNat_lt_size n
  have h64 : (64 : UInt64).toNat = 64 := rfl
  have hmax : sizeMax.toNat = 18446744073709551615 := rfl
  rw [UInt64.lt_iff_toNat_lt, sizeDiff_toNat, h64, hmax]
  simp only [UInt64.size] at hn
  omega

/--
In every state the constructor and any calls reach, `pool_index_map` sends each class to a
pool configured for it, distinct classes to distinct pools and some class to every pool;
a call removes no class and no pool; and `get_pool_index(n)` is the pool of a class nearest
to `n`, which is `n` itself when `n` is a class.
-/
theorem poolIndexMap_bijective_nearest {config : MemoryPoolConfig} {h : Heap}
    {m : NeuralMemoryManager} (hr : ManagerReachable config (h, m)) :
    (∀ c i, m.poolIndexMap.lookup c = some i →
      ∃ pool : MemoryPool, m.memoryPools[i]? = some pool ∧ pool.config.blockSize = c) ∧
    (∀ c c' i, m.poolIndexMap.lookup c = some i → m.poolIndexMap.lookup c' = some i →
      c = c') ∧
    (∀ i < m.memoryPools.length, ∃ c, m.poolIndexMap.lookup c = some i) ∧
    (∀ h' m', Call (h, m) (h', m') →
      (∀ c i, m.poolIndexMap.lookup c = some i → m'.poolIndexMap.lookup c = some i) ∧
      ∀ (i : Nat) (pool : MemoryPool), m.memoryPools[i]? = some pool →
        ∃ pool' : MemoryPool, m'.memoryPools[i]? = some pool' ∧ pool'.config = pool.config) ∧
    ∀ n, ∃ c, m.poolIndexMap.lookup c = some (getPoolIndex m.poolIndexMap n) ∧
      (∀ c' ∈ m.poolIndexMap, Int.natAbs ((n.toNat : Int) - c.toNat) ≤
        Int.natAbs ((n.toNat : Int) - c'.toNat)) ∧
      (n ∈ m.poolIndexMap → c = n) := by
  have ht : TableInv config m := hr.tableInv
  have h64 : (64 : UInt64) ∈ m.poolIndexMap :=
    AList.lookup_isSome.mp (by simp [(ht.lookup_iff 64 0).mpr rfl])
  refine ⟨fun c i hc => ?_, fun c c' i hc hc' => ?_, fun i hi => ?_, fun h' m' hcall => ?_,
    fun n => getPoolIndex_nearest h64 (sizeDiff_64_lt n)⟩
  · obtain ⟨pool, hpool, hcfg⟩ := ht.pool_of_lookup hc
    exact ⟨pool, hpool, by simp [hcfg]⟩
  · exact Option.some.inj (((ht.lookup_iff c i).mp hc).symm.trans ((ht.lookup_iff c' i).mp hc'))
  · have hi' : i < commonSizes.length := ht.length_eq ▸ hi
    exact ⟨commonSizes[i], (ht.lookup_iff _ i).mpr (List.getElem?_eq_getElem hi')⟩
  · have hf : Frame m m' := ht.call hcall
    refine ⟨fun c i hc => hf.poolIndexMap ▸ hc, fun i pool hpool => ?_⟩
    have hi := congrArg (·[i]?) hf.configs
    simp only [List.getElem?_map, hpool, Option.map_some'] at hi
    exact Option.map_eq_some'.mp hi

theorem poolIndexMap_bijective_nearest_default :
    ManagerReachable .default (defaultStart.1, defaultStart.2) ∧
    ((∀ c i, defaultStart.2.poolIndexMap.lookup c = some i →
      ∃ pool : MemoryPool, defaultStart.2.memoryPools[i]? = some pool ∧
        pool.config.blockSize = c) ∧
    (∀ c c' i, defaultStart.2.poolIndexMap.lookup c = some i →
      defaultStart.2.poolIndexMap.lookup c' = some i → c = c') ∧
    (∀ i < defaultStart.2.memoryPools.length,
      ∃ c, defaultStart.2.poolIndexMap.lookup c = some i) ∧
    (∀ h' m', Call (defaultStart.1, defaultStart.2) (h', m') →
      (∀ c i, defaultStart.2.poolIndexMap.lookup c = some i →
        m'.poolIndexMap.lookup c = some i) ∧
      ∀ (i : Nat) (pool : MemoryPool), defaultStart.2.memoryPools[i]? = some pool →
        ∃ pool' : MemoryPool, m'.memoryPools[i]? = some pool' ∧ pool'.config = pool.config) ∧
    ∀ n, ∃ c, defaultStart.2.poolIndexMap.lookup c =
        some (getPoolIndex defaultStart.2.poolIndexMap n) ∧
      (∀ c' ∈ defaultStart.2.poolIndexMap, Int.natAbs ((n.toNat : Int) - c.toNat) ≤
        Int.natAbs ((n.toNat : Int) - c'.toNat)) ∧
      (n ∈ defaultStart.2.poolIndexMap → c = n)) :=
  ⟨defaultSession_reachable.managerReachable,
    poolIndexMap_bijective_nearest defaultSession_reachable.managerReachable⟩

end NeuralMemory
