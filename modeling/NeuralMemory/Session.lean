import NeuralMemory.Manager
import Mathlib.Tactic.Abel

/-!
# A program using the manager

A `Session` is the process memory, one manager, and the allocations the program holds:
each pointer it got back and has not given back, with the size it asked for.  That last
component is the abstract allocator of the spec, kept alongside the code's state; `Step`
runs one call of the code that returns and updates it by the spec's meaning of the call,
under the spec's precondition that `deallocate` and `reallocate` only get null or live
pointers.

`liveIn` splits the live pointers by size class: `allocate(n)` takes its block from the
pool at `get_pool_index(n)`, so these are the pointers each pool has out.
-/

namespace NeuralMemory

/-- The allocations a program holds: pointer ↦ the size it asked for. -/
abbrev Live := AList (fun _ : Nat => UInt64)

/-- The sizes of all live allocations, added as `uint64_t`. -/
def liveBytes (live : Live) : UInt64 := (live.entries.map (·.2)).sum

/--
What `reallocate(ptr, newSize)` returning `result` means for the live allocations: null
allocates, zero frees, a size that still fits keeps the block, and a larger one
allocates `result` and frees `ptr`.
-/
def reallocLive (live : Live) (ptr : Nat) (newSize : UInt64) (result : Nat) : Live :=
  if ptr = 0 then live.insert result newSize
  else if newSize = 0 then live.erase ptr
  else
    match live.lookup ptr with
    | some size => if newSize ≤ size then live else (live.insert result newSize).erase ptr
    | none => live

structure Session where
  heap : Heap
  manager : NeuralMemoryManager
  live : Live

/-- One call of the program that returns. -/
inductive Step : Session → Session → Prop
  | allocate {s : Session} {size : UInt64} {file : Option String} {line : Int} {ptr : Nat}
      {h : Heap} {m : NeuralMemoryManager} :
      s.manager.allocate s.heap size file line = .ok (ptr, h, m) →
      Step s ⟨h, m, s.live.insert ptr size⟩
  | deallocate {s : Session} {ptr : Nat} :
      ptr = 0 ∨ ptr ∈ s.live →
      Step s ⟨(s.manager.deallocate s.heap ptr).1, (s.manager.deallocate s.heap ptr).2,
        s.live.erase ptr⟩
  | reallocate {s : Session} {ptr : Nat} {newSize : UInt64} {file : Option String} {line : Int}
      {result : Nat} {h : Heap} {m : NeuralMemoryManager} :
      ptr = 0 ∨ ptr ∈ s.live →
      s.manager.reallocate s.heap ptr newSize file line = .ok (result, h, m) →
      Step s ⟨h, m, reallocLive s.live ptr newSize result⟩

/-- The sessions of a manager built with `config`, on any arena. -/
inductive Reachable (config : MemoryPoolConfig) : Session → Prop
  | init {h h' : Heap} {m : NeuralMemoryManager} :
      NeuralMemoryManager.create config h = .ok (h', m) → Reachable config ⟨h', m, ∅⟩
  | step {s s' : Session} : Reachable config s → Step s s' → Reachable config s'

/-- One call of the manager with any arguments, misuse included, that returns. -/
inductive Call : Heap × NeuralMemoryManager → Heap × NeuralMemoryManager → Prop
  | allocate {h h' : Heap} {m m' : NeuralMemoryManager} {size : UInt64} {file : Option String}
      {line : Int} {ptr : Nat} :
      m.allocate h size file line = .ok (ptr, h', m') → Call (h, m) (h', m')
  | deallocate {h : Heap} {m : NeuralMemoryManager} {ptr : Nat} :
      Call (h, m) (m.deallocate h ptr)
  | reallocate {h h' : Heap} {m m' : NeuralMemoryManager} {ptr : Nat} {newSize : UInt64}
      {file : Option String} {line : Int} {result : Nat} :
      m.reallocate h ptr newSize file line = .ok (result, h', m') → Call (h, m) (h', m')

/-- The states of a manager built with `config` and then called any number of times. -/
inductive ManagerReachable (config : MemoryPoolConfig) : Heap × NeuralMemoryManager → Prop
  | init {h h' : Heap} {m : NeuralMemoryManager} :
      NeuralMemoryManager.create config h = .ok (h', m) → ManagerReachable config (h', m)
  | call {s s' : Heap × NeuralMemoryManager} :
      ManagerReachable config s → Call s s' → ManagerReachable config s'

theorem Step.call {s s' : Session} (hstep : Step s s') :
    Call (s.heap, s.manager) (s'.heap, s'.manager) := by
  cases hstep with
  | allocate ha => exact .allocate ha
  | deallocate _ => exact .deallocate
  | reallocate _ hr => exact .reallocate hr

theorem Reachable.managerReachable {config : MemoryPoolConfig} {s : Session}
    (hs : Reachable config s) : ManagerReachable config (s.heap, s.manager) := by
  induction hs with
  | init hc => exact .init hc
  | step _ hstep ih => exact ih.call hstep.call

/-! ## Live pointers by size class -/

/-- The live pointers of size class `idx`. -/
def liveIn (poolIndexMap : PoolIndexMap) (live : Live) (idx : Nat) : List Nat :=
  (live.entries.filter fun e => getPoolIndex poolIndexMap e.2 = idx).map (·.1)

section LiveIn

variable {poolIndexMap : PoolIndexMap} {live : Live} {idx ptr : Nat}

theorem mem_liveIn :
    ptr ∈ liveIn poolIndexMap live idx ↔
      ∃ size, live.lookup ptr = some size ∧ getPoolIndex poolIndexMap size = idx := by
  simp only [liveIn, List.mem_map, List.mem_filter, decide_eq_true_eq]
  constructor
  · rintro ⟨⟨k, size⟩, ⟨hmem, hidx⟩, rfl⟩
    exact ⟨size, AList.mem_lookup_iff.mpr hmem, hidx⟩
  · rintro ⟨size, hsize, hidx⟩
    exact ⟨⟨ptr, size⟩, ⟨AList.mem_lookup_iff.mp hsize, hidx⟩, rfl⟩

theorem liveIn_nodup : (liveIn poolIndexMap live idx).Nodup :=
  ((List.filter_sublist _).map _).nodup live.nodupKeys

theorem mem_liveIn_insert {size : UInt64} (hptr : ptr ∉ live) (q : Nat) :
    q ∈ liveIn poolIndexMap (live.insert ptr size) idx ↔
      (q = ptr ∧ getPoolIndex poolIndexMap size = idx) ∨
        q ∈ liveIn poolIndexMap live idx := by
  simp only [mem_liveIn]
  by_cases hq : q = ptr
  · subst hq
    simp [AList.lookup_insert, AList.lookup_eq_none.mpr hptr]
  · simp [AList.lookup_insert_ne hq, hq]

theorem mem_liveIn_erase (q : Nat) :
    q ∈ liveIn poolIndexMap (live.erase ptr) idx ↔
      q ≠ ptr ∧ q ∈ liveIn poolIndexMap live idx := by
  simp only [mem_liveIn]
  by_cases hq : q = ptr
  · subst hq
    simp [AList.lookup_erase]
  · simp [AList.lookup_erase_ne hq, hq]

theorem liveIn_perm {live' : Live} {l : List Nat} (hl : l.Nodup)
    (hmem : ∀ ptr, ptr ∈ liveIn poolIndexMap live' idx ↔ ptr ∈ l) :
    (liveIn poolIndexMap live' idx).Perm l :=
  (List.perm_ext_iff_of_nodup liveIn_nodup hl).mpr hmem

end LiveIn

/-! ## Sums of live sizes -/

theorem liveBytes_insert {live : Live} {ptr : Nat} (hptr : ptr ∉ live) (size : UInt64) :
    liveBytes (live.insert ptr size) = size + liveBytes live := by
  simp only [liveBytes, AList.insert_entries_of_neg hptr, List.map_cons, List.sum_cons]

theorem liveBytes_erase {live : Live} {ptr : Nat} {size : UInt64}
    (hptr : live.lookup ptr = some size) : liveBytes live = size + liveBytes (live.erase ptr) := by
  obtain ⟨l₁, l₂, hl, herase⟩ := entries_split_of_lookup hptr
  simp only [liveBytes, herase, hl, List.map_append, List.map_cons, List.sum_append, List.sum_cons]
  abel

end NeuralMemory
