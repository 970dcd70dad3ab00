import NeuralMemory.Table

/-!
# The process-wide instance

`get_instance()`, `initialize(config)` and `shutdown()` keep one manager behind the static
`instance`, under `instance_mutex`, which none of them holds while it calls another.
`get_instance()` builds the instance with `MemoryPoolConfig()` when there is none, so
`initialize(config)` takes effect only before the first `NEURAL_ALLOC`, `NEURAL_FREE` or
handle destructor, and again after `shutdown()`.

Over every run of these functions the instance, when there is one, is a manager its
constructor built with its own configuration and then called (`GlobalInv`): all that
`ManagerReachable` gives holds of it, whatever the order of the calls.
-/

namespace NeuralMemory

/-- The process memory and `instance`: null, or the manager it owns. -/
structure Global where
  heap : Heap
  manager : Option NeuralMemoryManager

namespace NeuralMemoryManager

/-- `get_instance()`. -/
def getInstance (g : Global) : Except Fault (Heap × NeuralMemoryManager) := do
  let _ ← lockGuard [] .instanceMutex
  match g.manager with
  | some m => pure (g.heap, m)
  | none => create .default g.heap

/-- `initialize(config)`; the name is a keyword here. -/
def initializeInstance (config : MemoryPoolConfig) (g : Global) : Except Fault Global := do
  let _ ← lockGuard [] .instanceMutex
  match g.manager with
  | some _ => pure g
  | none =>
    let (h, m) ← create config g.heap
    pure ⟨h, some m⟩

/-- `shutdown()`: `instance.reset()` runs `~NeuralMemoryManager()` on the instance. -/
def shutdown (g : Global) : Option LeakReport × Option Global :=
  match g.manager with
  | some m => ((m.destroy g.heap).1, (m.destroy g.heap).2.map fun h => ⟨h, none⟩)
  | none => (none, some g)

/-- `thread_safe_allocate(size, file, line)`, and `NEURAL_ALLOC(size)`. -/
def threadSafeAllocate (g : Global) (size : UInt64) (file : Option String) (line : Int) :
    Except Fault (Nat × Global) := do
  let (h, m) ← getInstance g
  let (ptr, h, m) ← m.allocate h size file line
  pure (ptr, ⟨h, some m⟩)

/-- `thread_safe_deallocate(ptr)`, and `NEURAL_FREE(ptr)`. -/
def threadSafeDeallocate (g : Global) (ptr : Nat) : Except Fault Global := do
  let (h, m) ← getInstance g
  let (h, m) := m.deallocate h ptr
  pure ⟨h, some m⟩

end NeuralMemoryManager

open NeuralMemoryManager

/-- One call of the singleton's functions, or of a method on `get_instance()`, that returns. -/
inductive GlobalStep : Global → Global → Prop
  | getInstance {g : Global} {h : Heap} {m : NeuralMemoryManager} :
      getInstance g = .ok (h, m) → GlobalStep g ⟨h, some m⟩
  | initializeInstance {g g' : Global} {config : MemoryPoolConfig} :
      initializeInstance config g = .ok g' → GlobalStep g g'
  | shutdown {g g' : Global} : (shutdown g).2 = some g' → GlobalStep g g'
  | allocate {g g' : Global} {size : UInt64} {file : Option String} {line : Int} {ptr : Nat} :
      threadSafeAllocate g size file line = .ok (ptr, g') → GlobalStep g g'
  | deallocate {g g' : Global} {ptr : Nat} : threadSafeDeallocate g ptr = .ok g' → GlobalStep g g'
  | reallocate {g : Global} {h h' : Heap} {m m' : NeuralMemoryManager} {ptr : Nat}
      {newSize : UInt64} {file : Option String} {line : Int} {result : Nat} :
      getInstance g = .ok (h, m) → m.reallocate h ptr newSize file line = .ok (result, h', m') →
      GlobalStep g ⟨h', some m'⟩

/-- The states of a process that starts with no instance, on any arena. -/
inductive GlobalReachable : Global → Prop
  | init (h : Heap) : GlobalReachable ⟨h, none⟩
  | step {g g' : Global} : GlobalReachable g → GlobalStep g g' → GlobalReachable g'

/-- The instance, if any, was built by its constructor with its own configuration. -/
def GlobalInv (g : Global) : Prop :=
  ∀ m, g.manager = some m → ManagerReachable m.defaultConfig (g.heap, m)

section Steps

variable {g g' : Global} {h h' : Heap} {m m' : NeuralMemoryManager}

theorem getInstance_eq_ok (hi : getInstance g = .ok (h, m)) :
    (g.manager = some m ∧ h = g.heap) ∨
      (g.manager = none ∧ create .default g.heap = .ok (h, m)) := by
  simp only [getInstance, lockGuard_of_not_mem (List.not_mem_nil _)] at hi
  split at hi
  · next m₀ hm => cases hi; exact .inl ⟨hm, rfl⟩
  · next hm => exact .inr ⟨hm, hi⟩

theorem getInstance_of_some (hm : g.manager = some m) : getInstance g = .ok (g.heap, m) := by
  simp [getInstance, hm]

theorem getInstance_of_none (hm : g.manager = none) : getInstance g = create .default g.heap := by
  simp [getInstance, hm]
  rfl

theorem threadSafeAllocate_of_some {size : UInt64} {file : Option String} {line : Int}
    (hm : g.manager = some m) : threadSafeAllocate g size file line =
      (m.allocate g.heap size file line).map fun r => (r.1, ⟨r.2.1, some r.2.2⟩) := by
  rw [threadSafeAllocate, getInstance_of_some hm]
  show (m.allocate g.heap size file line >>= fun r =>
    pure (r.1, (⟨r.2.1, some r.2.2⟩ : Global))) = _
  cases m.allocate g.heap size file line <;> rfl

theorem ManagerReachable.of_create {config : MemoryPoolConfig}
    (hc : create config h = .ok (h', m)) : ManagerReachable m.defaultConfig (h', m) :=
  (TableInv.create hc).defaultConfig ▸ .init hc

theorem ManagerReachable.call_config {config : MemoryPoolConfig}
    (hr : ManagerReachable config (h, m)) (hc : Call (h, m) (h', m')) :
    ManagerReachable config (h', m') ∧ m'.defaultConfig = m.defaultConfig :=
  ⟨hr.call hc, (hr.tableInv.call hc).defaultConfig⟩

theorem GlobalInv.reachable_of_getInstance (hg : GlobalInv g)
    (hi : getInstance g = .ok (h, m)) :
    ManagerReachable m.defaultConfig (h, m) := by
  rcases getInstance_eq_ok hi with ⟨hm, rfl⟩ | ⟨-, hc⟩
  · exact hg m hm
  · exact .of_create hc

theorem GlobalInv.call (hg : GlobalInv g) (hi : getInstance g = .ok (h, m))
    (hc : Call (h, m) (h', m')) : GlobalInv ⟨h', some m'⟩ := by
  rintro _ ⟨⟩
  obtain ⟨hr, hcfg⟩ := (hg.reachable_of_getInstance hi).call_config hc
  exact hcfg ▸ hr

theorem threadSafeAllocate_eq_ok {size : UInt64} {file : Option String} {line : Int} {ptr : Nat}
    (ha : threadSafeAllocate g size file line = .ok (ptr, g')) :
    ∃ h m h' m', getInstance g = .ok (h, m) ∧ Call (h, m) (h', m') ∧
      g' = ⟨h', some m'⟩ := by
  simp only [threadSafeAllocate, Except.bind_eq_ok] at ha
  obtain ⟨⟨h, m⟩, hi, ⟨ptr', h', m'⟩, ha, hres⟩ := ha
  cases hres
  exact ⟨h, m, h', m', hi, .allocate ha, rfl⟩

theorem threadSafeDeallocate_eq_ok {ptr : Nat} (hd : threadSafeDeallocate g ptr = .ok g') :
    ∃ h m, getInstance g = .ok (h, m) ∧
      g' = ⟨(m.deallocate h ptr).1, some (m.deallocate h ptr).2⟩ := by
  simp only [threadSafeDeallocate, Except.bind_eq_ok] at hd
  obtain ⟨⟨h, m⟩, hi, hres⟩ := hd
  cases hres
  exact ⟨h, m, hi, rfl⟩

theorem initializeInstance_eq_ok {config : MemoryPoolConfig}
    (hi : initializeInstance config g = .ok g') :
    (∃ m₀, g.manager = some m₀ ∧ g' = g) ∨
      ∃ h m, g.manager = none ∧ create config g.heap = .ok (h, m) ∧ g' = ⟨h, some m⟩ := by
  simp only [initializeInstance, lockGuard_of_not_mem (List.not_mem_nil _), Except.bind_eq_ok,
    Except.ok.injEq, exists_eq_left'] at hi
  split at hi
  · next m₀ hm => cases hi; exact .inl ⟨m₀, hm, rfl⟩
  · next hm =>
    simp only [Except.bind_eq_ok] at hi
    obtain ⟨⟨h, m⟩, hc, hres⟩ := hi
    cases hres
    exact .inr ⟨h, m, hm, hc, rfl⟩

theorem shutdown_manager (hs : (shutdown g).2 = some g') : g'.manager = none ∨ g' = g := by
  unfold shutdown at hs
  split at hs
  · obtain ⟨h, -, rfl⟩ := Option.map_eq_some'.mp hs
    exact .inl rfl
  · cases hs
    exact .inr rfl

theorem GlobalStep.inversion (hs : GlobalStep g g') :
    g'.manager = none ∨ g' = g ∨
    (∃ config h m, g.manager = none ∧ create config g.heap = .ok (h, m) ∧
      g' = ⟨h, some m⟩) ∨
    ∃ h m h' m', NeuralMemoryManager.getInstance g = .ok (h, m) ∧ Call (h, m) (h', m') ∧
      g' = ⟨h', some m'⟩ := by
  cases hs with
  | getInstance hi =>
    rcases getInstance_eq_ok hi with ⟨hm, rfl⟩ | ⟨hm, hc⟩
    · exact .inr (.inl (by cases g; cases hm; rfl))
    · exact .inr (.inr (.inl ⟨_, _, _, hm, hc, rfl⟩))
  | initializeInstance hi =>
    rcases initializeInstance_eq_ok hi with ⟨-, -, rfl⟩ | ⟨h, m, hm, hc, rfl⟩
    · exact .inr (.inl rfl)
    · exact .inr (.inr (.inl ⟨_, h, m, hm, hc, rfl⟩))
  | shutdown hs => exact (shutdown_manager hs).imp_right .inl
  | allocate ha =>
    obtain ⟨h, m, h', m', hi, hc, rfl⟩ := threadSafeAllocate_eq_ok ha
    exact .inr (.inr (.inr ⟨h, m, h', m', hi, hc, rfl⟩))
  | deallocate hd =>
    obtain ⟨h, m, hi, rfl⟩ := threadSafeDeallocate_eq_ok hd
    exact .inr (.inr (.inr ⟨h, m, _, _, hi, .deallocate, rfl⟩))
  | reallocate hi hr => exact .inr (.inr (.inr ⟨_, _, _, _, hi, .reallocate hr, rfl⟩))

theorem GlobalInv.step (hg : GlobalInv g) (hs : GlobalStep g g') : GlobalInv g' := by
  rcases hs.inversion with hnone | rfl | ⟨_, h, m, -, hc, rfl⟩ | ⟨h, m, h', m', hi, hc, rfl⟩
  · exact fun _ hm => by cases hm.symm.trans hnone
  · exact hg
  · rintro _ ⟨⟩
    exact .of_create hc
  · exact hg.call hi hc

end Steps

theorem GlobalReachable.globalInv {g : Global} (hg : GlobalReachable g) : GlobalInv g := by
  induction hg with
  | init h => exact fun _ hm => by cases hm
  | step _ hs ih => exact ih.step hs

/--
In every state the singleton's functions reach, the instance, if there is one, is a manager
its constructor built with its own configuration and then called any number of times; and
no step but `shutdown()` changes the configuration of an existing instance, so an
`initialize(config)` after the instance exists is ignored.
-/
theorem instance_keeps_its_config {g : Global} {m : NeuralMemoryManager}
    (hg : GlobalReachable g) (hm : g.manager = some m) :
    ManagerReachable m.defaultConfig (g.heap, m) ∧
    ∀ g' m', GlobalStep g g' → g'.manager = some m' → m'.defaultConfig = m.defaultConfig := by
  have hinv := hg.globalInv
  refine ⟨hinv m hm, fun g' m' hs hm' => ?_⟩
  rcases hs.inversion with hnone | rfl | ⟨-, -, -, h0, -⟩ | ⟨h, m₀, h', m'', hi, hc, rfl⟩
  · cases hm'.symm.trans hnone
  · cases hm.symm.trans hm'
    rfl
  · cases hm.symm.trans h0
  · rw [getInstance_of_some hm] at hi
    cases hi
    cases hm'
    exact ((hinv m hm).call_config hc).2

/-- The process after `NEURAL_ALLOC(64)` with no instance yet, on the default arena. -/
def singletonDemo : Global := ⟨allocatedSession.heap, some allocatedSession.manager⟩

theorem singletonDemo_reachable : GlobalReachable singletonDemo :=
  .step (.step (.init _) (.getInstance ((getInstance_of_none rfl).trans
      (show create .default (Heap.init 4096 4294967296) = .ok (defaultStart.1, defaultStart.2)
        from rfl))))
    (.allocate ((threadSafeAllocate_of_some rfl).trans (congrArg (Except.map _)
      (show defaultSession.manager.allocate defaultSession.heap 64 none 0 =
        .ok (4120, allocatedSession.heap, allocatedSession.manager) from rfl))))

theorem instance_keeps_its_config_default :
    GlobalReachable singletonDemo ∧ singletonDemo.manager = some allocatedSession.manager ∧
    (ManagerReachable allocatedSession.manager.defaultConfig
        (singletonDemo.heap, allocatedSession.manager) ∧
      ∀ g' m', GlobalStep singletonDemo g' → g'.manager = some m' →
        m'.defaultConfig = allocatedSession.manager.defaultConfig) :=
  ⟨singletonDemo_reachable, rfl, instance_keeps_its_config singletonDemo_reachable rfl⟩

end NeuralMemory
