import NeuralMemory.Basic
import Mathlib.Logic.Relation

/-!
# Threads and the tracker's lock

`allocate`, `track_allocation`, `track_deallocation`, `detect_leaks`,
`get_allocation_history`, `validate_all_memory` and `clear_tracking` touch `allocated_blocks`
only under `tracking_mutex`, and `MemoryPool::allocate` and `MemoryPool::deallocate` touch a
pool's free list only under its `pool_mutex`.  `deallocate`, `reallocate` and
`get_memory_stats` also look `allocated_blocks` up with no lock.

A call is modelled by what other threads can tell of it: the locks it takes and releases and
the shared objects it reads and writes, in order (`Access`), one list for each branch of the
code.  Atomics (`allocated_count`, the metrics, the corruption switch) and what only the
constructor writes (`memory_pools`, `pool_index_map`: the branch of `get_or_create_pool`
that adds a pool never runs, `TableInv.getPoolIndex_lt`) are left out, since no two threads
race on them.  Threads run their lists interleaved in any order, and a thread waits at a
lock another thread holds (`Sched.exec`).

Every call holds a pool's lock whenever it touches the pool's free list, so no interleaving
of any calls races on a free list (`free_lists_never_race`).  Calls that take the lock of
every object they touch never race at all (`locked_calls_never_race`).  The others race on
`allocated_blocks` with a concurrent `allocate`, and only they do
(`races_allocate_iff_unlocked`).  Deadlocks are in `NeuralMemory.Deadlock`, and races reached
from every state, with the singleton's, in `NeuralMemory.Races`.
-/

namespace NeuralMemory

/-- A lock of the code: the `pool_mutex` of pool `idx`, `tracking_mutex`, or the static
`instance_mutex` around the singleton pointer. -/
inductive Lock where
  | pool (idx : Nat)
  | tracking
  | singleton
  deriving DecidableEq, Repr

/-- A shared object that is not an atomic and that calls write after the constructor. -/
inductive Shared where
  | allocatedBlocks
  /-- The `free_list` of pool `idx`, with the `next` words of its blocks. -/
  | freeList (idx : Nat)
  /-- The manager the static `instance` points to, which `shutdown` destroys. -/
  | manager
  deriving DecidableEq, Repr

/-- The lock the code takes around each object. -/
def Shared.guard : Shared → Lock
  | .allocatedBlocks => .tracking
  | .freeList idx => .pool idx
  | .manager => .singleton

/-- One step of a call, as far as other threads can tell. -/
inductive Access where
  | acquire (l : Lock)
  | release (l : Lock)
  | read (o : Shared)
  | write (o : Shared)
  deriving DecidableEq, Repr

namespace Access

def obj? : Access → Option Shared
  | .read o | .write o => some o
  | _ => none

def isWrite : Access → Bool
  | .write _ => true
  | _ => false

/-- Two accesses to `o`, at least one of them a write: a data race when two threads can make
them one right after the other. -/
def ConflictOn (o : Shared) (a b : Access) : Prop :=
  a.obj? = some o ∧ b.obj? = some o ∧ (a.isWrite = true ∨ b.isWrite = true)

def after (held : Lock → Bool) : Access → Lock → Bool
  | .acquire l => Function.update held l true
  | .release l => Function.update held l false
  | _ => held

/-- Whether thread `t` may make the access now: a lock is taken only when free, and released
only by the thread that holds it. -/
def enabled (holder : Lock → Option Nat) (t : Nat) : Access → Bool
  | .acquire l => holder l = none
  | .release l => holder l = some t
  | _ => true

def holderAfter (holder : Lock → Option Nat) (t : Nat) : Access → Lock → Option Nat
  | .acquire l => Function.update holder l (some t)
  | .release l => Function.update holder l none
  | _ => holder

theorem after_mono {held held' : Lock → Bool} (h : ∀ l, held l = true → held' l = true)
    (a : Access) : ∀ l, a.after held l = true → a.after held' l = true := by
  intro l
  cases a with
  | acquire l₀ | release l₀ =>
    simp only [after, Function.update_apply]
    split_ifs <;> simp_all
  | read | write => exact h l

end Access

/-! ## Interleaved threads -/

structure Thread where
  held : Lock → Bool
  rest : List Access

structure Sched where
  threads : Nat → Thread
  holder : Lock → Option Nat

namespace Sched

def init (progs : Nat → List Access) : Sched :=
  ⟨fun t => ⟨fun _ => false, progs t⟩, fun _ => none⟩

/-- Thread `t` makes its next access, if it has one and may make it. -/
def exec (σ : Sched) (t : Nat) : Option Sched :=
  match (σ.threads t).rest with
  | [] => none
  | a :: rest =>
    if a.enabled σ.holder t then
      some ⟨Function.update σ.threads t ⟨a.after (σ.threads t).held, rest⟩,
        a.holderAfter σ.holder t⟩
    else none

def Step (σ σ' : Sched) : Prop := ∃ t, σ.exec t = some σ'

def execAll (σ : Sched) : List Nat → Option Sched
  | [] => some σ
  | t :: ts => (σ.exec t).bind (execAll · ts)

/-- Two threads each about to access `o`, at least one of them writing it. -/
def RacyOn (σ : Sched) (o : Shared) : Prop :=
  ∃ t u a b, t ≠ u ∧ (σ.threads t).rest.head? = some a ∧ (σ.threads u).rest.head? = some b ∧
    a.ConflictOn o b

def Racy (σ : Sched) : Prop := ∃ o, σ.RacyOn o

theorem exec_eq_some {σ σ' : Sched} {t : Nat} (he : σ.exec t = some σ') :
    ∃ a rest, (σ.threads t).rest = a :: rest ∧ a.enabled σ.holder t = true ∧
      σ' = ⟨Function.update σ.threads t ⟨a.after (σ.threads t).held, rest⟩,
        a.holderAfter σ.holder t⟩ := by
  unfold exec at he
  split at he
  · cases he
  · next a rest hrest =>
    split_ifs at he with hen
    exact ⟨a, rest, hrest, hen, (Option.some.inj he).symm⟩

theorem ReflTransGen.execAll {σ σ' : Sched} :
    ∀ {ts : List Nat}, σ.execAll ts = some σ' → Relation.ReflTransGen Step σ σ'
  | [], he => by cases he; exact .refl
  | t :: ts, he => by
    obtain ⟨σ₁, h₁, hrest⟩ := Option.bind_eq_some.mp he
    exact .head ⟨t, h₁⟩ (ReflTransGen.execAll hrest)

/-! ## Each lock has one holder -/

/-- `holder` names, for each lock, the one thread that holds it. -/
def Agrees (σ : Sched) : Prop := ∀ l t, σ.holder l = some t ↔ (σ.threads t).held l = true

theorem agrees_init (progs : Nat → List Access) : (init progs).Agrees := by
  simp [Agrees, init]

theorem Agrees.exec {σ σ' : Sched} {t : Nat} (hσ : σ.Agrees) (he : σ.exec t = some σ') :
    σ'.Agrees := by
  obtain ⟨a, rest, -, hen, rfl⟩ := exec_eq_some he
  intro l u
  have hσu := hσ l u
  rcases eq_or_ne u t with rfl | hu
  · -- the thread that moved: its own view of the lock it took or gave back
    simp only [Function.update_same]
    cases a with
    | acquire l₀ | release l₀ =>
      by_cases hl : l = l₀
      · subst hl
        simp [Access.holderAfter, Access.after]
      · simpa [Access.holderAfter, Access.after, Function.update_noteq hl] using hσu
    | read | write => exact hσu
  · -- any other thread: the lock that changed hands was not, and is not, its own
    simp only [Function.update_noteq hu]
    cases a with
    | acquire l₀ =>
      simp only [Access.enabled, decide_eq_true_eq] at hen
      simp only [Access.holderAfter, Function.update_apply]
      split_ifs with hl
      · subst hl
        exact iff_of_false (fun h => hu (Option.some.inj h).symm)
          fun h => by rw [(hσ l u).mpr h] at hen; cases hen
      · exact hσu
    | release l₀ =>
      simp only [Access.enabled, decide_eq_true_eq] at hen
      simp only [Access.holderAfter, Function.update_apply]
      split_ifs with hl
      · subst hl
        exact iff_of_false (by simp)
          fun h => hu (Option.some.inj (((hσ l u).mpr h).symm.trans hen))
      · exact hσu
    | read | write => exact hσu

/-! ## Accesses under their object's lock -/

/-- Every read and write of an object of `objs` in the list, run from holding `held`, holds
the object's lock. -/
def GuardedFrom (objs : Shared → Prop) : (Lock → Bool) → List Access → Prop
  | _, [] => True
  | held, a :: p =>
    (∀ o, a.obj? = some o → objs o → held o.guard = true) ∧ GuardedFrom objs (a.after held) p

section Guarded

variable {objs : Shared → Prop}

theorem GuardedFrom.mono {held held' : Lock → Bool} (h : ∀ l, held l = true → held' l = true) :
    ∀ {p : List Access}, GuardedFrom objs held p → GuardedFrom objs held' p
  | [], _ => trivial
  | _ :: _, ⟨ha, hp⟩ =>
    ⟨fun o ho hobj => h _ (ha o ho hobj), GuardedFrom.mono (Access.after_mono h _) hp⟩

theorem GuardedFrom.append {held : Lock → Bool} {q : List Access}
    (hq : GuardedFrom objs (fun _ => false) q) :
    ∀ {p : List Access}, GuardedFrom objs held p → GuardedFrom objs held (p ++ q)
  | [], _ => hq.mono fun _ h => absurd h (by simp)
  | _ :: _, ⟨ha, hp⟩ => ⟨ha, GuardedFrom.append hq hp⟩

def Disciplined (objs : Shared → Prop) (σ : Sched) : Prop :=
  ∀ t, GuardedFrom objs (σ.threads t).held (σ.threads t).rest

theorem Disciplined.exec {σ σ' : Sched} {t : Nat} (hσ : σ.Disciplined objs)
    (he : σ.exec t = some σ') : σ'.Disciplined objs := by
  obtain ⟨a, rest, hrest, -, rfl⟩ := exec_eq_some he
  intro u
  rcases eq_or_ne u t with rfl | hu
  · have := hσ u
    rw [hrest] at this
    simpa using this.2
  · simpa [Function.update_noteq hu] using hσ u

theorem inv_of_run {progs : Nat → List Access}
    (hg : ∀ t, GuardedFrom objs (fun _ => false) (progs t)) {σ : Sched}
    (hrun : Relation.ReflTransGen Step (init progs) σ) : σ.Agrees ∧ σ.Disciplined objs := by
  induction hrun with
  | refl => exact ⟨agrees_init progs, hg⟩
  | tail _ hstep ih =>
    obtain ⟨t, he⟩ := hstep
    exact ⟨ih.1.exec he, ih.2.exec he⟩

theorem holder_of_head {σ : Sched} (hσ : σ.Agrees ∧ σ.Disciplined objs) {v : Nat} {c : Access}
    {o : Shared} (hc : (σ.threads v).rest.head? = some c) (hco : c.obj? = some o)
    (hobj : objs o) : σ.holder o.guard = some v := by
  have hv := hσ.2 v
  obtain ⟨rest, hrest⟩ := List.head?_eq_some_iff.mp hc
  rw [hrest] at hv
  exact (hσ.1 _ v).mpr (hv.1 o hco hobj)

theorem not_racy_of_guarded {progs : Nat → List Access}
    (hg : ∀ t, GuardedFrom objs (fun _ => false) (progs t)) {σ : Sched}
    (hrun : Relation.ReflTransGen Step (init progs) σ) {o : Shared} (hobj : objs o) :
    ¬ σ.RacyOn o := by
  rintro ⟨t, u, a, b, hne, ha, hb, hao, hbo, -⟩
  have hinv := inv_of_run hg hrun
  exact hne (Option.some.inj ((holder_of_head hinv ha hao hobj).symm.trans
    (holder_of_head hinv hb hbo hobj)))

end Guarded

end Sched

/-! ## The calls -/

/-- `std::lock_guard<std::mutex> lock(l)` around `body`. -/
def withLock (l : Lock) (body : List Access) : List Access :=
  .acquire l :: (body ++ [.release l])

/--
`MemoryPool::allocate()` on pool `idx`: it pops the head of the free list; when the list is
empty, `expand_pool` locks `pool_mutex` again and the thread waits for itself forever.
-/
def poolAllocateTrace (idx : Nat) (empty : Bool) : List Access :=
  if empty then [.acquire (.pool idx), .read (.freeList idx), .acquire (.pool idx)]
  else withLock (.pool idx) [.read (.freeList idx), .write (.freeList idx)]

/-- `MemoryPool::deallocate(ptr)` for a non-null pointer: it links the block in. -/
def poolDeallocateTrace (idx : Nat) : List Access :=
  withLock (.pool idx) [.read (.freeList idx), .write (.freeList idx)]

/-- `track_allocation`: it writes the record. -/
def trackAllocationTrace : List Access := withLock .tracking [.write .allocatedBlocks]

/-- `track_deallocation`: it looks the pointer up, and marks its record freed if it has one. -/
def trackDeallocationTrace (found : Bool) : List Access :=
  withLock .tracking (.read .allocatedBlocks :: if found then [.write .allocatedBlocks] else [])

/-- `allocate(size)`, whose class has pool `idx`; the metrics are atomics. -/
def allocateTrace (cfg : MemoryPoolConfig) (idx : Nat) (empty : Bool) : List Access :=
  poolAllocateTrace idx empty ++ if cfg.enableLeakDetection then trackAllocationTrace else []

/-- The search loop of `deallocate` over `pools` pools: a `find` with no lock each pass, until
one finds the record. -/
def searchTrace (found : Bool) : Nat → List Access
  | 0 => []
  | pools + 1 => .read .allocatedBlocks :: if found then [] else searchTrace found pools

/--
`deallocate(ptr)` for a non-null pointer, with `pools` pools: the search loop, the pool's
`deallocate` when the record names a pool, `track_deallocation`, and the metrics' `find`,
again with no lock.
-/
def deallocateTrace (cfg : MemoryPoolConfig) (pools : Nat) (pool : Option Nat) (found : Bool) :
    List Access :=
  searchTrace found pools ++ (pool.map poolDeallocateTrace).getD [] ++
    (if cfg.enableLeakDetection then trackDeallocationTrace found else []) ++
    if cfg.enablePerformanceMonitoring then [.read .allocatedBlocks] else []

/-- `get_memory_stats()`: `allocated_blocks.size()` with no lock. -/
def getMemoryStatsTrace : List Access := [.read .allocatedBlocks]

def detectLeaksTrace : List Access := withLock .tracking [.read .allocatedBlocks]

/-- `validate_all_memory()`: nothing while corruption detection is off. -/
def validateAllMemoryTrace (enabled : Bool) : List Access :=
  if enabled then withLock .tracking [.read .allocatedBlocks] else []

def getAllocationHistoryTrace : List Access := withLock .tracking [.read .allocatedBlocks]

def clearTrackingTrace : List Access := withLock .tracking [.write .allocatedBlocks]

/-- A public call of the manager, with the branch it takes.  `reallocate(nullptr, n)` is
`allocate(n)`, and `reallocate(ptr, 0)` is `deallocate(ptr)`. -/
inductive ThreadCall where
  /-- `allocate(size)`: the pool of its class, and whether its free list is empty. -/
  | allocate (idx : Nat) (empty : Bool)
  /-- `deallocate(ptr)`, `ptr` non-null: the number of pools, the pool the record of `ptr`
  names, and whether it has one. -/
  | deallocate (pools : Nat) (pool : Option Nat) (found : Bool)
  /-- `reallocate(ptr, new_size)`, both non-zero, with no record: `std::realloc`, then
  `track_allocation` when it returns a block. -/
  | reallocateUntracked (moved : Bool)
  /-- `reallocate(ptr, new_size)`, both non-zero, with a record of at least `new_size`. -/
  | reallocateFits
  /-- `reallocate(ptr, new_size)`, both non-zero, with a smaller record: `allocate`,
  `memcpy` and `deallocate(ptr)`. -/
  | reallocateGrows (idx : Nat) (empty : Bool) (pools : Nat) (pool : Option Nat) (found : Bool)
  | getMemoryStats
  | detectLeaks
  | validateAllMemory (enabled : Bool)
  | getAllocationHistory
  | clearTracking
  deriving DecidableEq, Repr

namespace ThreadCall

def trace (cfg : MemoryPoolConfig) : ThreadCall → List Access
  | .allocate idx empty => allocateTrace cfg idx empty
  | .deallocate pools pool found => deallocateTrace cfg pools pool found
  | .reallocateUntracked moved =>
    .read .allocatedBlocks :: if moved then trackAllocationTrace else []
  | .reallocateFits => [.read .allocatedBlocks]
  | .reallocateGrows idx empty pools pool found =>
    .read .allocatedBlocks :: allocateTrace cfg idx empty ++ deallocateTrace cfg pools pool found
  | .getMemoryStats => getMemoryStatsTrace
  | .detectLeaks => detectLeaksTrace
  | .validateAllMemory enabled => validateAllMemoryTrace enabled
  | .getAllocationHistory => getAllocationHistoryTrace
  | .clearTracking => clearTrackingTrace

/-- The calls that take `tracking_mutex` for every access to `allocated_blocks`. -/
def locksTracker : ThreadCall → Bool
  | .allocate .. | .detectLeaks | .validateAllMemory _ | .getAllocationHistory
  | .clearTracking => true
  | _ => false

/-- The search loop of a `deallocate` passes over at least one pool (the constructor makes
eight, and no call removes one). -/
def SearchesSomePool : ThreadCall → Prop
  | .deallocate pools _ _ => 0 < pools
  | _ => True

theorem head_of_not_locksTracker (cfg : MemoryPoolConfig) {c : ThreadCall}
    (hl : c.locksTracker = false) (hc : c.SearchesSomePool) :
    (c.trace cfg).head? = some (.read .allocatedBlocks) := by
  cases c <;> simp [locksTracker] at hl
  case deallocate pools pool found =>
    obtain ⟨pools, rfl⟩ := Nat.exists_eq_add_one.mpr (show 0 < pools from hc)
    simp [trace, deallocateTrace, searchTrace]
  all_goals simp [trace, getMemoryStatsTrace]

end ThreadCall

/-! ## Which accesses each call guards -/

section Guarded

variable {objs : Shared → Prop}

theorem guarded_withLock (l : Lock) {body : List Access}
    (hbody : ∀ a ∈ body, ∃ o, (a = .read o ∨ a = .write o) ∧ o.guard = l) :
    Sched.GuardedFrom objs (fun _ => false) (withLock l body) := by
  have hrun : ∀ {body : List Access}, (∀ a ∈ body, ∃ o, (a = .read o ∨ a = .write o) ∧
      o.guard = l) → ∀ {held : Lock → Bool}, held l = true →
        Sched.GuardedFrom objs held (body ++ [.release l]) := by
    intro body
    induction body with
    | nil => intro _ held _; simp [Sched.GuardedFrom, Access.obj?]
    | cons a body ih =>
      intro hbody held hl
      obtain ⟨o, ha, hg⟩ := hbody a (List.mem_cons_self _ _)
      have hrest := ih (fun a ha => hbody a (List.mem_cons_of_mem _ ha)) hl
      rcases ha with rfl | rfl <;>
        exact ⟨fun o' ho' _ => (by cases ho'; rw [hg]; exact hl), hrest⟩
  simp only [withLock, List.cons_append, Sched.GuardedFrom]
  exact ⟨fun o h _ => (by cases h), hrun hbody (by simp [Access.after])⟩

theorem guarded_poolAllocateTrace (idx : Nat) (empty : Bool) :
    Sched.GuardedFrom objs (fun _ => false) (poolAllocateTrace idx empty) := by
  unfold poolAllocateTrace
  split
  · simp [Sched.GuardedFrom, Access.obj?, Access.after, Shared.guard]
  · exact guarded_withLock _ (by simp [Shared.guard])

theorem guarded_allocateTrace (cfg : MemoryPoolConfig) (idx : Nat) (empty : Bool) :
    Sched.GuardedFrom objs (fun _ => false) (allocateTrace cfg idx empty) := by
  unfold allocateTrace
  refine .append ?_ (guarded_poolAllocateTrace idx empty)
  split
  · exact guarded_withLock _ (by simp [Shared.guard])
  · trivial

namespace ThreadCall

theorem guarded_of_locksTracker (cfg : MemoryPoolConfig) {c : ThreadCall}
    (hc : c.locksTracker = true) : Sched.GuardedFrom objs (fun _ => false) (c.trace cfg) := by
  cases c <;> simp [locksTracker] at hc <;> simp only [trace]
  case allocate idx empty => exact guarded_allocateTrace cfg idx empty
  case validateAllMemory enabled =>
    unfold validateAllMemoryTrace
    split
    · exact guarded_withLock _ (by simp [Shared.guard])
    · trivial
  all_goals exact guarded_withLock _ (by simp [Shared.guard])

end ThreadCall

theorem guarded_flatMap (cfg : MemoryPoolConfig) {cs : List ThreadCall}
    (hcs : ∀ c ∈ cs, Sched.GuardedFrom objs (fun _ => false) (c.trace cfg)) :
    Sched.GuardedFrom objs (fun _ => false) (cs.flatMap (ThreadCall.trace cfg)) := by
  induction cs with
  | nil => trivial
  | cons c cs ih =>
    rw [List.flatMap_cons]
    exact (ih fun c' hc' => hcs c' (List.mem_cons_of_mem _ hc')).append
      (hcs c (List.mem_cons_self _ _))

end Guarded

/-! ## Races -/

/--
Threads that call only `allocate`, `detect_leaks`, `validate_all_memory`,
`get_allocation_history` and `clear_tracking`, any number of them in any order, whatever
branches they take: in every interleaving, no two threads are ever about to make
conflicting accesses to `allocated_blocks` or to a pool's free list.
-/
theorem locked_calls_never_race (cfg : MemoryPoolConfig) (calls : Nat → List ThreadCall)
    (hcalls : ∀ t, ∀ c ∈ calls t, c.locksTracker = true) {σ : Sched}
    (hrun : Relation.ReflTransGen Sched.Step
      (Sched.init fun t => (calls t).flatMap (ThreadCall.trace cfg)) σ) : ¬ σ.Racy := by
  have hg : ∀ t, Sched.GuardedFrom (fun _ => True) (fun _ => false)
      ((calls t).flatMap (ThreadCall.trace cfg)) := fun t =>
    guarded_flatMap cfg fun c hc => ThreadCall.guarded_of_locksTracker cfg (hcalls t c hc)
  rintro ⟨o, ho⟩
  exact Sched.not_racy_of_guarded hg hrun trivial ho

/-- Thread 0 allocates, then clears the tracker; thread 1 asks for the leak report. -/
def trackerCalls (t : Nat) : List ThreadCall :=
  if t = 0 then [.allocate 0 false, .clearTracking] else if t = 1 then [.detectLeaks] else []

/-- Thread 1 holds `tracking_mutex`; thread 0 has popped its block under its pool's lock and
waits for `tracking_mutex` to record it. -/
def trackerSched : Sched :=
  ((Sched.init fun t => (trackerCalls t).flatMap (ThreadCall.trace .default)).execAll
    [1, 0, 0, 0, 0]).getD
    (Sched.init fun t => (trackerCalls t).flatMap (ThreadCall.trace .default))

theorem trackerSched_run :
    Relation.ReflTransGen Sched.Step
      (Sched.init fun t => (trackerCalls t).flatMap (ThreadCall.trace .default)) trackerSched :=
  @Sched.ReflTransGen.execAll _ _ [1, 0, 0, 0, 0] rfl

theorem locked_calls_never_race_contended :
    (∀ t, ∀ c ∈ trackerCalls t, c.locksTracker = true) ∧
    Relation.ReflTransGen Sched.Step
      (Sched.init fun t => (trackerCalls t).flatMap (ThreadCall.trace .default)) trackerSched ∧
    (trackerSched.threads 0).rest.head? = some (.acquire .tracking) ∧
    (trackerSched.threads 1).rest.head? = some (.read .allocatedBlocks) ∧
    ¬ trackerSched.Racy := by
  have hcalls : ∀ t, ∀ c ∈ trackerCalls t, c.locksTracker = true := fun t => by
    unfold trackerCalls
    split_ifs <;> decide
  exact ⟨hcalls, trackerSched_run, rfl, rfl,
    locked_calls_never_race .default trackerCalls hcalls trackerSched_run⟩

theorem races_allocate_of_head {cfg : MemoryPoolConfig} (hleak : cfg.enableLeakDetection = true)
    {p : List Access} (hp : p.head? = some (.read .allocatedBlocks)) (idx : Nat) :
    ∃ σ, Relation.ReflTransGen Sched.Step (Sched.init fun t =>
      if t = 0 then p else if t = 1 then allocateTrace cfg idx false else []) σ ∧
      σ.RacyOn .allocatedBlocks := by
  have hrun : ∃ σ ∈ (Sched.init fun t =>
      if t = 0 then p else if t = 1 then allocateTrace cfg idx false else []).execAll
        [1, 1, 1, 1, 1],
      (σ.threads 0).rest.head? = some (.read .allocatedBlocks) ∧
      (σ.threads 1).rest.head? = some (.write .allocatedBlocks) := by
    simp [Sched.execAll, Sched.exec, Sched.init, allocateTrace, poolAllocateTrace,
      trackAllocationTrace, withLock, hleak, Access.enabled, Access.after, Access.holderAfter,
      Function.update_apply, hp]
  obtain ⟨σ, hσ, h0, h1⟩ := hrun
  exact ⟨σ, Sched.ReflTransGen.execAll hσ, 0, 1, _, _, by decide, h0, h1, rfl, rfl, .inr rfl⟩

/--
With leak detection on, a call races with a concurrent `allocate` on `allocated_blocks`, in
some interleaving, exactly when it is not one that takes `tracking_mutex` for every access:
`deallocate`, `reallocate` and `get_memory_stats` look the map up with no lock.
-/
theorem races_allocate_iff_unlocked {cfg : MemoryPoolConfig}
    (hleak : cfg.enableLeakDetection = true) {c : ThreadCall} (hc : c.SearchesSomePool)
    (idx : Nat) :
    (∃ σ, Relation.ReflTransGen Sched.Step (Sched.init fun t =>
      if t = 0 then c.trace cfg else if t = 1 then allocateTrace cfg idx false else []) σ ∧
      σ.RacyOn .allocatedBlocks) ↔ c.locksTracker = false := by
  refine ⟨fun ⟨σ, hrun, hrace⟩ => ?_, fun hl =>
    races_allocate_of_head hleak (ThreadCall.head_of_not_locksTracker cfg hl hc) idx⟩
  cases hl : c.locksTracker
  · rfl
  · -- beside `allocate`, a call that locks the tracker keeps every access under its lock
    have hg : ∀ t, Sched.GuardedFrom (fun _ => True) (fun _ => false)
        (if t = 0 then c.trace cfg else if t = 1 then allocateTrace cfg idx false else []) :=
      fun t => by
        split_ifs
        · exact ThreadCall.guarded_of_locksTracker cfg hl
        · exact guarded_allocateTrace cfg idx false
        · trivial
    exact absurd hrace (Sched.not_racy_of_guarded hg hrun trivial)

theorem races_allocate_iff_unlocked_default :
    MemoryPoolConfig.default.enableLeakDetection = true ∧
    ThreadCall.SearchesSomePool .getMemoryStats ∧
    ((∃ σ, Relation.ReflTransGen Sched.Step (Sched.init fun t =>
      if t = 0 then ThreadCall.getMemoryStats.trace .default
      else if t = 1 then allocateTrace .default 0 false else []) σ ∧
      σ.RacyOn .allocatedBlocks) ↔ ThreadCall.getMemoryStats.locksTracker = false) :=
  ⟨rfl, trivial, @races_allocate_iff_unlocked .default rfl .getMemoryStats trivial 0⟩

end NeuralMemory
