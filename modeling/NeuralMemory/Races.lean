import NeuralMemory.Deadlock

/-!
# Races reached from every state

`NeuralMemory.Locking` has a call race with `allocate` when both start together.  Here a race
is reached from every state of any number of threads.  A thread that holds no lock and is about
to look `allocated_blocks` up with no lock races with a thread about to begin `allocate`
(`lookup_races_allocate`).  A thread about to use the manager through the reference
`get_instance` returned races with a thread about to begin `shutdown`
(`shutdown_races_instance_calls`).

The other threads can hold the second thread back only at a lock.  The thread that holds that
lock is inside a `lock_guard`, whose body is reads and writes (`Sched.ReleasesAfter`): it runs
to the release while no other thread moves (`Sched.release_run`), and the waiting thread then
takes the lock (`Sched.acquire_run`).  A thread is inside a guard whenever it holds its lock,
because every `acquire` of its list opens one (`Sched.Brackets`), or because it holds one lock
at a time (`Sched.OneLock`).
-/

namespace NeuralMemory

namespace Sched

/-- Reads and writes, then `release l`: the rest of a `lock_guard` on `l`. -/
def ReleasesAfter (l : Lock) : List Access → Prop
  | [] => False
  | .acquire _ :: _ => False
  | .release l' :: _ => l' = l
  | .read _ :: p | .write _ :: p => ReleasesAfter l p

/-- What is left of the list after its first release. -/
def afterRelease : List Access → List Access
  | [] => []
  | .release _ :: p => p
  | _ :: p => afterRelease p

/-- Every `acquire l` of the list opens a `lock_guard` on `l`. -/
def Brackets (l : Lock) : List Access → Prop
  | [] => True
  | a :: p => (a = .acquire l → ReleasesAfter l p) ∧ Brackets l p

/-- Every thread that holds `l` is inside a `lock_guard` on it. -/
def HoldersRelease (l : Lock) (σ : Sched) : Prop :=
  ∀ w, (σ.threads w).held l = true → ReleasesAfter l (σ.threads w).rest

theorem ReleasesAfter.append {l : Lock} {q p : List Access} (h : ReleasesAfter l p) :
    ReleasesAfter l (p ++ q) := by
  induction p with
  | nil => exact (h : False).elim
  | cons a p ih =>
    cases a with
    | acquire => exact (h : False).elim
    | release => exact h
    | read | write => exact ih h

theorem Brackets.append {l : Lock} {p q : List Access} (hp : Brackets l p) (hq : Brackets l q) :
    Brackets l (p ++ q) := by
  induction p with
  | nil => exact hq
  | cons a p ih =>
    obtain ⟨hopen, hp⟩ := hp
    exact And.intro (fun ha => (hopen ha).append) (ih hp)

theorem OneLock.releasesAfter {l : Lock} {p : List Access} (h : OneLock (some l) p) :
    ReleasesAfter l p := by
  induction p with
  | nil => exact h
  | cons a p ih =>
    cases a with
    | acquire => exact h
    | release => exact h.1
    | read | write => exact ih h

theorem OneLock.brackets {l : Lock} {p : List Access} :
    ∀ {cur : Option Lock}, OneLock cur p → Brackets l p := by
  induction p with
  | nil => exact fun _ => trivial
  | cons a p ih =>
    intro cur h
    refine And.intro (fun ha => ?_) ?_
    · subst ha
      cases cur with
      | none => exact @OneLock.releasesAfter l p h
      | some _ => exact (h : False).elim
    · cases cur <;> cases a <;> simp only [OneLock] at h
      all_goals first | exact ih h | exact ih h.2

theorem OneLockInv.holdersRelease {σ : Sched} (hO : σ.OneLockInv) (l : Lock) :
    σ.HoldersRelease l := by
  intro w hw
  obtain ⟨cur, hheld, hone⟩ := hO w
  obtain rfl := (hheld l).mp hw
  exact hone.releasesAfter

/-- The thread keeps to the guards of `l`: each `acquire l` it has left opens one, and while it
holds `l` it is inside one. -/
def BracketInv (l : Lock) (th : Thread) : Prop :=
  Brackets l th.rest ∧ (th.held l = true → ReleasesAfter l th.rest)

theorem BracketInv.exec {l : Lock} {σ σ' : Sched} {t : Nat}
    (hσ : ∀ w, BracketInv l (σ.threads w)) (he : σ.exec t = some σ') :
    ∀ w, BracketInv l (σ'.threads w) := by
  obtain ⟨a, rest, hrest, -, rfl⟩ := exec_eq_some he
  intro w
  rcases eq_or_ne w t with rfl | hw
  · obtain ⟨hbr, hin⟩ := hσ w
    rw [hrest] at hbr hin
    obtain ⟨hopen, hbr⟩ := hbr
    simp only [Function.update_same]
    refine And.intro hbr fun hl => ?_
    cases a with
    | acquire l' =>
      rcases eq_or_ne l' l with rfl | hl'
      · exact hopen rfl
      · exact (hin (by simpa [Access.after, Function.update_noteq hl'.symm] using hl) : False).elim
    | release l' =>
      rcases eq_or_ne l' l with rfl | hl'
      · simp [Access.after] at hl
      · exact absurd (hin (by simpa [Access.after, Function.update_noteq hl'.symm] using hl)) hl'
    | read | write => exact hin hl
  · simpa only [Function.update_noteq hw] using hσ w

theorem bracketInv_of_run {l : Lock} {progs : Nat → List Access}
    (hg : ∀ t, Brackets l (progs t)) {σ : Sched}
    (hrun : Relation.ReflTransGen Step (init progs) σ) : σ.Agrees ∧ σ.HoldersRelease l := by
  have hinv : σ.Agrees ∧ ∀ w, BracketInv l (σ.threads w) := by
    induction hrun with
    | refl => exact ⟨agrees_init progs, fun w => ⟨hg w, fun h => by simp [init] at h⟩⟩
    | tail _ hstep ih =>
      obtain ⟨t, he⟩ := hstep
      exact ⟨ih.1.exec he, BracketInv.exec ih.2 he⟩
  exact ⟨hinv.1, fun w => (hinv.2 w).2⟩

/-! ## Driving a thread through a lock -/

theorem release_run {l : Lock} {v : Nat} {p : List Access} (hp : ReleasesAfter l p) :
    ∀ σ : Sched, σ.holder l = some v → (σ.threads v).rest = p →
      ∃ σ', Relation.ReflTransGen Step σ σ' ∧ σ'.holder l = none ∧
        (σ'.threads v).rest = afterRelease p ∧ ∀ w, w ≠ v → σ'.threads w = σ.threads w := by
  induction p with
  | nil => exact (hp : False).elim
  | cons a p ih =>
    intro σ hv hrest
    cases a with
    | acquire => exact (hp : False).elim
    | release l' =>
      obtain rfl : l' = l := hp
      exact ⟨_, .single ⟨v, exec_of_enabled hrest (by simp [Access.enabled, hv])⟩,
        by simp [Access.holderAfter], by simp [afterRelease],
        fun w hw => Function.update_noteq hw _ _⟩
    | read | write =>
      obtain ⟨σ', hrun, hfree, hv', hw⟩ :=
        ih hp ⟨Function.update σ.threads v ⟨(σ.threads v).held, p⟩, σ.holder⟩ hv (by simp)
      exact ⟨σ', .head ⟨v, exec_of_enabled hrest rfl⟩ hrun, hfree, hv',
        fun w hwv => (hw w hwv).trans (Function.update_noteq hwv _ _)⟩

theorem acquire_run {l : Lock} {σ : Sched} (hA : σ.Agrees) (hR : σ.HoldersRelease l) {u : Nat}
    {p : List Access} (hu : (σ.threads u).rest = .acquire l :: p) :
    ∃ σ', Relation.ReflTransGen Step σ σ' ∧ (σ'.threads u).rest = p ∧ σ'.holder l = some u ∧
      ∀ w, w ≠ u → (σ.threads w).held l = false → σ'.threads w = σ.threads w := by
  obtain ⟨σ₁, hrun₁, hfree, hw₁⟩ : ∃ σ₁, Relation.ReflTransGen Step σ σ₁ ∧ σ₁.holder l = none ∧
      ∀ w, (σ.threads w).held l = false → σ₁.threads w = σ.threads w := by
    cases hv : σ.holder l with
    | none => exact ⟨σ, .refl, hv, fun _ _ => rfl⟩
    | some v =>
      have hvl := (hA l v).mp hv
      obtain ⟨σ₁, hrun, hfree, -, hw⟩ := release_run (hR v hvl) σ hv rfl
      exact ⟨σ₁, hrun, hfree, fun w hwl => hw w fun hwv => by rw [hwv, hvl] at hwl; cases hwl⟩
  -- holding `l`, the thread's next access would be inside the guard, not an `acquire`
  have hul : (σ.threads u).held l = false := by
    cases h : (σ.threads u).held l
    · rfl
    · have := hR u h
      rw [hu] at this
      exact (this : False).elim
  have hu₁ : σ₁.threads u = σ.threads u := hw₁ u hul
  refine ⟨_, hrun₁.tail ⟨u, exec_of_enabled (by rw [hu₁, hu]) (by simp [Access.enabled, hfree])⟩,
    by simp, by simp [Access.holderAfter], fun w hwu hwl => ?_⟩
  simp [Function.update_noteq hwu, hw₁ w hwl]

end Sched

theorem brackets_flatMap {l : Lock} {α : Type} (f : α → List Access) {cs : List α}
    (h : ∀ c ∈ cs, Sched.Brackets l (f c)) : Sched.Brackets l (cs.flatMap f) := by
  induction cs with
  | nil => trivial
  | cons c cs ih =>
    rw [List.flatMap_cons]
    exact (h c (List.mem_cons_self _ _)).append (ih fun c' hc' => h c' (List.mem_cons_of_mem _ hc'))

theorem ThreadCall.brackets (cfg : MemoryPoolConfig) {l : Lock} (hl : ∀ idx, l ≠ .pool idx)
    (c : ThreadCall) : Sched.Brackets l (c.trace cfg) := by
  cases hc : c.findsFreeBlock
  · have hempty : ∀ idx, Sched.Brackets l (allocateTrace cfg idx true) := fun idx => by
      unfold allocateTrace
      refine .append ?_ ?_
      · simp [Sched.Brackets, poolAllocateTrace, Ne.symm (hl idx)]
      · split
        · exact (oneLock_withLock _ (by simp)).brackets
        · trivial
    cases c <;> simp [ThreadCall.findsFreeBlock] at hc <;> subst hc <;> simp only [ThreadCall.trace]
    · exact hempty _
    · exact And.intro (fun h => by cases h)
        ((hempty _).append (oneLock_deallocateTrace cfg _ _ _).brackets)
  · exact (ThreadCall.oneLock cfg hc).brackets

/-! ## A lookup with no lock -/

/--
With leak detection on, take threads whose `allocate` calls all find a free block, in any
state they reach.  A thread that holds no lock and is about to look `allocated_blocks` up (the
search loop of `deallocate`, `reallocate`, `get_memory_stats`) and another thread about to begin
`allocate` then reach a state where the second is about to write its record under
`tracking_mutex` while the first is still about to read the map.
-/
theorem lookup_races_allocate {cfg : MemoryPoolConfig} (hleak : cfg.enableLeakDetection = true)
    (calls : Nat → List ThreadCall) (hcalls : ∀ t, ∀ c ∈ calls t, c.findsFreeBlock = true)
    {σ : Sched} (hrun : Relation.ReflTransGen Sched.Step
      (Sched.init fun t => (calls t).flatMap (ThreadCall.trace cfg)) σ)
    {t u : Nat} (htu : t ≠ u) (ht : (σ.threads t).rest.head? = some (.read .allocatedBlocks))
    (hfree : ∀ l, (σ.threads t).held l = false) {idx : Nat} {r : List Access}
    (hu : (σ.threads u).rest = allocateTrace cfg idx false ++ r) :
    ∃ σ', Relation.ReflTransGen Sched.Step σ σ' ∧ σ'.RacyOn .allocatedBlocks := by
  have hone := fun t => oneLock_flatMap cfg (hcalls t)
  have hu₀ : (σ.threads u).rest = .acquire (.pool idx) :: .read (.freeList idx) ::
      .write (.freeList idx) :: .release (.pool idx) :: (trackAllocationTrace ++ r) := by
    rw [hu]
    simp [allocateTrace, poolAllocateTrace, withLock, hleak]
  -- `u` takes its pool's lock, pops the block and gives the lock back
  obtain ⟨hA, hO⟩ := Sched.oneLock_of_run hone hrun
  obtain ⟨σ₁, hrun₁, hu₁, hpool, ht₁⟩ := Sched.acquire_run hA (hO.holdersRelease _) hu₀
  obtain ⟨σ₂, hrun₂, -, hu₂, ht₂⟩ := Sched.release_run (show Sched.ReleasesAfter (.pool idx)
    (.read (.freeList idx) :: .write (.freeList idx) :: .release (.pool idx) ::
      (trackAllocationTrace ++ r)) from rfl) σ₁ hpool hu₁
  -- then it takes `tracking_mutex`, and is about to write its record
  obtain ⟨hA₂, hO₂⟩ := Sched.oneLock_of_run hone (hrun.trans (hrun₁.trans hrun₂))
  obtain ⟨σ₃, hrun₃, hu₃, -, ht₃⟩ := Sched.acquire_run hA₂ (hO₂.holdersRelease _)
    (show (σ₂.threads u).rest =
      .acquire .tracking :: .write .allocatedBlocks :: .release .tracking :: r by rw [hu₂]; rfl)
  have hσ₂ : σ₂.threads t = σ.threads t := (ht₂ t htu).trans (ht₁ t htu (hfree _))
  have hσ₃ : σ₃.threads t = σ.threads t := (ht₃ t htu (by rw [hσ₂]; exact hfree _)).trans hσ₂
  exact ⟨σ₃, hrun₁.trans (hrun₂.trans hrun₃), t, u, .read .allocatedBlocks,
    .write .allocatedBlocks, htu, by rw [hσ₃]; exact ht, by rw [hu₃]; rfl, rfl, rfl, .inr rfl⟩

/-- Thread 0 frees a block of pool 0 and thread 1 allocates from it; thread 2 clears the
tracker and thread 3 frees another block of pool 0. -/
def lookupCalls (t : Nat) : List ThreadCall :=
  if t = 0 then [.deallocate 8 (some 0) true] else if t = 1 then [.allocate 0 false]
  else if t = 2 then [.clearTracking] else if t = 3 then [.deallocate 8 (some 0) true] else []

/-- Thread 2 holds `tracking_mutex` and thread 3 holds `pool_mutex` of pool 0. -/
def lookupSched : Sched :=
  ((Sched.init fun t => (lookupCalls t).flatMap (ThreadCall.trace .default)).execAll
    [2, 3, 3]).getD (Sched.init fun t => (lookupCalls t).flatMap (ThreadCall.trace .default))

theorem lookupSched_run :
    Relation.ReflTransGen Sched.Step
      (Sched.init fun t => (lookupCalls t).flatMap (ThreadCall.trace .default)) lookupSched :=
  @Sched.ReflTransGen.execAll _ _ [2, 3, 3] rfl

theorem lookup_races_allocate_contended :
    MemoryPoolConfig.default.enableLeakDetection = true ∧
    (∀ t, ∀ c ∈ lookupCalls t, c.findsFreeBlock = true) ∧
    Relation.ReflTransGen Sched.Step
      (Sched.init fun t => (lookupCalls t).flatMap (ThreadCall.trace .default)) lookupSched ∧
    (0 : Nat) ≠ 1 ∧ (lookupSched.threads 0).rest.head? = some (.read .allocatedBlocks) ∧
    (∀ l, (lookupSched.threads 0).held l = false) ∧
    (lookupSched.threads 1).rest = allocateTrace .default 0 false ++ [] ∧
    ∃ σ', Relation.ReflTransGen Sched.Step lookupSched σ' ∧ σ'.RacyOn .allocatedBlocks := by
  have hcalls : ∀ t, ∀ c ∈ lookupCalls t, c.findsFreeBlock = true := fun t => by
    unfold lookupCalls
    split_ifs <;> decide
  exact ⟨rfl, hcalls, lookupSched_run, by decide, rfl, fun _ => rfl, rfl,
    @lookup_races_allocate .default rfl lookupCalls hcalls lookupSched lookupSched_run 0 1
      (by decide) rfl (fun _ => rfl) 0 [] rfl⟩

/-! ## The singleton -/

/-- `get_instance()`: under `instance_mutex` it reads `instance`, creating the manager when
there is none, and returns a reference to it. -/
def getInstanceTrace (present : Bool) : List Access :=
  withLock .singleton [if present then .read .manager else .write .manager]

/-- `shutdown()`: under `instance_mutex` it destroys the manager. -/
def shutdownTrace : List Access := withLock .singleton [.write .manager]

/-- `NEURAL_ALLOC`, `NEURAL_FREE`, `thread_safe_allocate`, `thread_safe_deallocate`:
`get_instance()`, then the call on the manager it returned, reached through the reference
with `instance_mutex` let go. -/
def throughInstanceTrace (cfg : MemoryPoolConfig) (present : Bool) (c : ThreadCall) :
    List Access :=
  getInstanceTrace present ++ .read .manager :: c.trace cfg

/-- A call of a thread of the process on the singleton. -/
inductive InstanceCall where
  | through (present : Bool) (c : ThreadCall)
  /-- `initialize(config)`: the steps of `get_instance()`, with the configuration given. -/
  | initInstance (present : Bool)
  | shutdown
  deriving DecidableEq, Repr

def InstanceCall.trace (cfg : MemoryPoolConfig) : InstanceCall → List Access
  | .through present c => throughInstanceTrace cfg present c
  | .initInstance present => getInstanceTrace present
  | .shutdown => shutdownTrace

theorem InstanceCall.brackets_singleton (cfg : MemoryPoolConfig) (c : InstanceCall) :
    Sched.Brackets .singleton (c.trace cfg) := by
  have hget : ∀ present, Sched.Brackets .singleton (getInstanceTrace present) := fun present =>
    (oneLock_withLock _ (by cases present <;> simp)).brackets
  cases c with
  | through present c =>
    exact (hget present).append
      (And.intro (fun h => by cases h) (ThreadCall.brackets cfg (fun _ => by simp) c))
  | initInstance present => exact hget present
  | shutdown => exact (oneLock_withLock _ (by simp)).brackets

/--
Whatever the threads call on the singleton, in any state they reach: a thread that holds no
`instance_mutex` and is about to use the manager through its reference, and another thread
about to begin `shutdown()`, reach a state where the second is about to destroy the manager
the first is about to use.
-/
theorem shutdown_races_instance_calls (cfg : MemoryPoolConfig)
    (calls : Nat → List InstanceCall) {σ : Sched}
    (hrun : Relation.ReflTransGen Sched.Step
      (Sched.init fun t => (calls t).flatMap (InstanceCall.trace cfg)) σ)
    {t u : Nat} (htu : t ≠ u) (ht : (σ.threads t).rest.head? = some (.read .manager))
    (hfree : (σ.threads t).held .singleton = false) {r : List Access}
    (hu : (σ.threads u).rest = shutdownTrace ++ r) :
    ∃ σ', Relation.ReflTransGen Sched.Step σ σ' ∧ σ'.RacyOn .manager := by
  obtain ⟨hA, hR⟩ := Sched.bracketInv_of_run
    (fun t => brackets_flatMap _ fun c _ => c.brackets_singleton cfg) hrun
  obtain ⟨σ', hrun', hu', -, hw⟩ := Sched.acquire_run hA hR hu
  exact ⟨σ', hrun', t, u, .read .manager, .write .manager, htu, by rw [hw t htu hfree]; exact ht,
    by rw [hu']; rfl, rfl, rfl, .inr rfl⟩

/-- Thread 0 allocates through `get_instance()`, thread 1 shuts down, and thread 2 asks for the
statistics through `get_instance()`. -/
def instanceCalls (t : Nat) : List InstanceCall :=
  if t = 0 then [.through true (.allocate 0 false)] else if t = 1 then [.shutdown]
  else if t = 2 then [.through true .getMemoryStats] else []

/-- Thread 0 has its reference, and thread 2 holds `instance_mutex` inside `get_instance()`. -/
def instanceSched : Sched :=
  ((Sched.init fun t => (instanceCalls t).flatMap (InstanceCall.trace .default)).execAll
    [0, 0, 0, 2]).getD
    (Sched.init fun t => (instanceCalls t).flatMap (InstanceCall.trace .default))

theorem instanceSched_run :
    Relation.ReflTransGen Sched.Step
      (Sched.init fun t => (instanceCalls t).flatMap (InstanceCall.trace .default))
      instanceSched :=
  @Sched.ReflTransGen.execAll _ _ [0, 0, 0, 2] rfl

theorem shutdown_races_instance_calls_contended :
    Relation.ReflTransGen Sched.Step
      (Sched.init fun t => (instanceCalls t).flatMap (InstanceCall.trace .default))
      instanceSched ∧
    (0 : Nat) ≠ 1 ∧ (instanceSched.threads 0).rest.head? = some (.read .manager) ∧
    (instanceSched.threads 0).held .singleton = false ∧
    (instanceSched.threads 1).rest = shutdownTrace ++ [] ∧
    ∃ σ', Relation.ReflTransGen Sched.Step instanceSched σ' ∧ σ'.RacyOn .manager :=
  ⟨instanceSched_run, by decide, rfl, rfl, rfl,
    @shutdown_races_instance_calls .default instanceCalls instanceSched instanceSched_run 0 1
      (by decide) rfl rfl [] rfl⟩

end NeuralMemory
