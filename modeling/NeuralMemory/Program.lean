import NeuralMemory.Reachable
import NeuralMemory.UniquePtr

/-!
# Handles over the manager

The header's intended use: blocks from `NEURAL_ALLOC`, each kept in a `NeuralUniquePtr`
whose destructor, `reset` and move assignment give it back through
`NeuralMemoryManager::deallocate`.  A `ProgramOp` is one statement of such a program; its
handles are those of `World`, and what an operation gives back goes to `deallocate` at once.

With leak detection on, such a program passes `deallocate` only live pointers, each once,
so its run is a run of the manager under the spec's precondition
(`runProgram_frees_only_live`): all that reachable sessions satisfy holds after it, and
every pointer a handle holds is a live allocation held by no other handle.  A pointer a
handle lets go of without giving it back (`release`, or a `reset` of a moved-from handle)
stays live: it leaks.
-/

namespace NeuralMemory

open NeuralMemoryManager World

/-- `deallocate` of each pointer in turn. -/
def deallocateAll (h : Heap) (m : NeuralMemoryManager) : List Nat → Heap × NeuralMemoryManager
  | [] => (h, m)
  | ptr :: ptrs => deallocateAll (m.deallocate h ptr).1 (m.deallocate h ptr).2 ptrs

/-- A handle operation, then `deallocate` of what it gave back. -/
def handleStep (h : Heap) (m : NeuralMemoryManager) (handles : Handles) (o : HandleOp) :
    Option (Heap × NeuralMemoryManager × Handles) :=
  (World.step ⟨handles, []⟩ o).map fun w =>
    ((deallocateAll h m w.deallocated).1, (deallocateAll h m w.deallocated).2, w.handles)

/-- One statement of a program that keeps each block it allocates in a handle. -/
inductive ProgramOp where
  /-- `NeuralUniquePtr self(NEURAL_ALLOC(size))`; the macro passes `__FILE__`, `__LINE__`. -/
  | make (self : Nat) (size : UInt64) (file : String) (line : Int)
  /-- `self.reset(NEURAL_ALLOC(size))`. -/
  | resetAlloc (self : Nat) (size : UInt64) (file : String) (line : Int)
  /-- A move, `reset()`, `release()` or the end of a handle's scope: no new pointer. -/
  | handle (o : HandleOp)
  deriving DecidableEq, Repr

/-- One statement; `none` when it does not return, or takes a pointer from elsewhere. -/
def ProgramOp.run (h : Heap) (m : NeuralMemoryManager) (handles : Handles) :
    ProgramOp → Option (Heap × NeuralMemoryManager × Handles)
  | .make self size file line =>
      match m.allocate h size (some file) line with
      | .ok (ptr, h, m) => handleStep h m handles (.construct self ptr)
      | .error _ => none
  | .resetAlloc self size file line =>
      match m.allocate h size (some file) line with
      | .ok (ptr, h, m) => handleStep h m handles (.reset self ptr)
      | .error _ => none
  | .handle o => if o.acquired = 0 then handleStep h m handles o else none

def runProgram : Heap × NeuralMemoryManager × Handles → List ProgramOp →
    Option (Heap × NeuralMemoryManager × Handles)
  | st, [] => some st
  | (h, m, handles), op :: ops => (op.run h m handles).bind (runProgram · ops)

/-! ## Giving back live pointers -/

theorem mem_foldl_erase {live : Live} {q : Nat} :
    ∀ {ptrs : List Nat},
      q ∈ ptrs.foldl (fun live p => live.erase p) live ↔ q ∈ live ∧ q ∉ ptrs
  | [] => by simp
  | p :: ptrs => by
    rw [List.foldl_cons, mem_foldl_erase, AList.mem_erase]
    simp only [List.mem_cons, not_or]
    tauto

theorem Reachable.deallocateAll {config : MemoryPoolConfig} :
    ∀ {s : Session} {ptrs : List Nat}, Reachable config s →
      (∀ p ∈ ptrs, p = 0 ∨ p ∈ s.live) → ptrs.Nodup →
      Reachable config ⟨(deallocateAll s.heap s.manager ptrs).1,
        (deallocateAll s.heap s.manager ptrs).2, ptrs.foldl (fun live p => live.erase p) s.live⟩
  | _, [], hs, _, _ => hs
  | s, p :: ptrs, hs, hptrs, hnd => by
    obtain ⟨hp, hnd⟩ := List.nodup_cons.mp hnd
    have hs₁ : Reachable config ⟨(s.manager.deallocate s.heap p).1,
        (s.manager.deallocate s.heap p).2, s.live.erase p⟩ :=
      hs.step (.deallocate (hptrs p (List.mem_cons_self _ _)))
    have hrest := Reachable.deallocateAll hs₁ (fun q hq =>
      (hptrs q (List.mem_cons_of_mem _ hq)).imp_right fun hq' =>
        AList.mem_erase.mpr ⟨ne_of_mem_of_not_mem hq hp, hq'⟩) hnd
    exact hrest

/-! ## The program invariant -/

/-- Every pointer a handle holds is live, and no two handles hold the same one. -/
structure Owns (live : Live) (handles : Handles) : Prop where
  live : ∀ p ∈ heldPtrs handles, p ∈ live
  nodup : (heldPtrs handles).Nodup

/-- A program state is a reachable session whose live allocations the handles own. -/
def ProgramInv (config : MemoryPoolConfig) (st : Heap × NeuralMemoryManager × Handles) : Prop :=
  ∃ live : Live, Reachable config ⟨st.1, st.2.1, live⟩ ∧ Owns live st.2.2

theorem Owns.handleStep {config : MemoryPoolConfig} {s : Session} {handles : Handles}
    {o : HandleOp} {r : Heap × NeuralMemoryManager × Handles} (hs : Reachable config s)
    (hown : Owns s.live handles)
    (hacq : o.acquired = 0 ∨ o.acquired ∈ s.live ∧ o.acquired ∉ heldPtrs handles)
    (hr : NeuralMemory.handleStep s.heap s.manager handles o = some r) : ProgramInv config r := by
  obtain ⟨w', hw', rfl⟩ := Option.map_eq_some'.mp hr
  have hinv : (heldPtrs w'.handles ++ w'.deallocated).Nodup :=
    Inv.step (by simpa [World.Inv] using hown.nodup)
      (allowed_of_acquired (hacq.imp_right fun h => ⟨h.2, List.not_mem_nil _⟩)) hw'
  have hold : ∀ p ∈ heldPtrs w'.handles ++ w'.deallocated, p = 0 ∨ p ∈ s.live := by
    intro p hp
    rcases step_mem hw' hp with hp | rfl
    · exact .inr (hown.live p (by simpa using hp))
    · exact hacq.imp_right And.left
  refine ⟨_, hs.deallocateAll (fun p hp => hold p (List.mem_append_right _ hp))
    (List.nodup_append.mp hinv).2.1, fun p hp => ?_, (List.nodup_append.mp hinv).1⟩
  refine mem_foldl_erase.mpr ⟨?_, List.disjoint_of_nodup_append hinv hp⟩
  exact (hold p (List.mem_append_left _ hp)).resolve_left (ne_zero_of_mem_heldPtrs hp)

theorem ProgramInv.allocate {config : MemoryPoolConfig} {h h' : Heap}
    {m m' : NeuralMemoryManager} {handles : Handles} {size : UInt64} {file : String} {line : Int}
    {ptr : Nat} {o : HandleOp} {r : Heap × NeuralMemoryManager × Handles}
    (hleak : config.enableLeakDetection = true) (hinv : ProgramInv config (h, m, handles))
    (ha : m.allocate h size (some file) line = .ok (ptr, h', m')) (ho : o.acquired = ptr)
    (hr : handleStep h' m' handles o = some r) : ProgramInv config r := by
  obtain ⟨live, hs, hown⟩ := hinv
  have hfresh : ptr ∉ live := ((hs.sessionInv hleak).allocate hleak ha).2
  refine Owns.handleStep (hs.step (.allocate ha))
    ⟨fun p hp => (AList.mem_insert _).mpr (.inr (hown.live p hp)), hown.nodup⟩
    (.inr ⟨ho ▸ (AList.mem_insert _).mpr (.inl rfl),
      ho ▸ fun hp => hfresh (hown.live _ hp)⟩) hr

theorem ProgramInv.run {config : MemoryPoolConfig} {h : Heap} {m : NeuralMemoryManager}
    {handles : Handles} {op : ProgramOp} {r : Heap × NeuralMemoryManager × Handles}
    (hleak : config.enableLeakDetection = true) (hinv : ProgramInv config (h, m, handles))
    (hr : op.run h m handles = some r) : ProgramInv config r := by
  cases op <;> simp only [ProgramOp.run] at hr
  case handle o =>
    split_ifs at hr with ho
    obtain ⟨live, hs, hown⟩ := hinv
    exact Owns.handleStep hs hown (.inl ho) hr
  -- `make` and `resetAlloc`: a new allocation, then `construct` or `reset` around it
  all_goals
    split at hr
    · next ptr h' m' ha => exact hinv.allocate hleak ha (by rfl) hr
    · cases hr

theorem ProgramInv.runProgram {config : MemoryPoolConfig}
    (hleak : config.enableLeakDetection = true) :
    ∀ {st r : Heap × NeuralMemoryManager × Handles} {ops : List ProgramOp},
      ProgramInv config st → NeuralMemory.runProgram st ops = some r → ProgramInv config r
  | _, _, [], hinv, hrun => by cases hrun; exact hinv
  | (h, m, handles), r, op :: ops, hinv, hrun => by
    obtain ⟨st', hop, hrest⟩ := Option.bind_eq_some.mp hrun
    exact ProgramInv.runProgram hleak (hinv.run hleak hop) hrest

/--
With leak detection on, a program that keeps every block it allocates in a
`NeuralUniquePtr` runs the manager under the spec's precondition: after any run that
returns, the state is a reachable session whose live allocations include every pointer a
handle holds, and no two handles hold the same pointer.
-/
theorem runProgram_frees_only_live {config : MemoryPoolConfig} {h₀ h : Heap}
    {m : NeuralMemoryManager} {ops : List ProgramOp} {r : Heap × NeuralMemoryManager × Handles}
    (hleak : config.enableLeakDetection = true)
    (hc : NeuralMemoryManager.create config h₀ = .ok (h, m))
    (hrun : runProgram (h, m, ∅) ops = some r) :
    ∃ live : Live, Reachable config ⟨r.1, r.2.1, live⟩ ∧
      (∀ p ∈ heldPtrs r.2.2, p ∈ live) ∧ (heldPtrs r.2.2).Nodup := by
  obtain ⟨live, hs, hown⟩ := ProgramInv.runProgram hleak
    ⟨∅, .init hc, ⟨by simp [heldPtrs], by simp [heldPtrs]⟩⟩ hrun
  exact ⟨live, hs, hown.live, hown.nodup⟩

/--
A handle around `NEURAL_ALLOC(100)`, moved into a second handle that goes out of scope,
then a third handle around `NEURAL_ALLOC(64)`.
-/
def handleDemoOps : List ProgramOp :=
  [.make 1 100 "main.cpp" 10, .handle (.moveConstruct 2 1), .handle (.destroy 2),
    .make 3 64 "main.cpp" 13]

/-- The state after `handleDemoOps` on the default manager. -/
def handleDemo : Heap × NeuralMemoryManager × Handles :=
  match runProgram (defaultStart.1, defaultStart.2, ∅) handleDemoOps with
  | some r => r
  | none => (defaultStart.1, defaultStart.2, ∅)

theorem runProgram_frees_only_live_default :
    MemoryPoolConfig.default.enableLeakDetection = true ∧
    NeuralMemoryManager.create .default (Heap.init 4096 4294967296) =
      .ok (defaultStart.1, defaultStart.2) ∧
    runProgram (defaultStart.1, defaultStart.2, ∅) handleDemoOps = some handleDemo ∧
    ∃ live : Live, Reachable .default ⟨handleDemo.1, handleDemo.2.1, live⟩ ∧
      (∀ p ∈ heldPtrs handleDemo.2.2, p ∈ live) ∧ (heldPtrs handleDemo.2.2).Nodup :=
  ⟨rfl, rfl, rfl, runProgram_frees_only_live rfl
    (show NeuralMemoryManager.create .default (Heap.init 4096 4294967296) =
      .ok (defaultStart.1, defaultStart.2) from rfl)
    (show runProgram (defaultStart.1, defaultStart.2, ∅) handleDemoOps = some handleDemo
      from rfl)⟩

end NeuralMemory
