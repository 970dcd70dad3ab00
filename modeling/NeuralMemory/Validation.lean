import NeuralMemory.Table

/-!
# Corruption checks

`validate_memory_integrity(ptr, size)` accepts a non-null pointer with a positive size,
and `validate_all_memory()` applies it to every unfreed record of the tracker.  With leak
detection on, the unfreed records are the live allocations, each under its own pointer
with the size it was asked for, and pools never hand out null.  So the check fails
exactly when a live allocation asked for `0` bytes, which `allocate` accepts and tracks.
-/

namespace NeuralMemory

open NeuralMemoryManager

theorem validateAllMemory_iff {m : NeuralMemoryManager} (hon : m.corruptionDetection = true) :
    m.validateAllMemory = true ↔ ∀ ptr block, m.allocatedBlocks.lookup ptr = some block →
      block.isFreed = false → block.ptr ≠ 0 ∧ 0 < block.size := by
  simp only [validateAllMemory, validateMemoryIntegrity, hon, Bool.not_true, Bool.false_eq_true,
    if_false, List.all_eq_true, Bool.or_eq_true, Bool.and_eq_true, bne_iff_ne, ne_eq,
    decide_eq_true_eq]
  exact ⟨fun hall ptr block hb hfree =>
      (hall ⟨ptr, block⟩ (AList.mem_lookup_iff.mp hb)).resolve_left (by simp [hfree]),
    fun hall pair hpair => or_iff_not_imp_left.mpr fun hfree =>
      hall pair.1 pair.2 (AList.mem_lookup_iff.mpr hpair) (by simpa using hfree)⟩

theorem ManagerInv.validateAllMemory_iff {next : Nat → Nat} {m : NeuralMemoryManager}
    {live : Live} (hinv : ManagerInv next m live) (hon : m.corruptionDetection = true) :
    m.validateAllMemory = true ↔ ∀ ptr size, live.lookup ptr = some size → 0 < size := by
  rw [NeuralMemory.validateAllMemory_iff hon]
  constructor
  · intro hall ptr size hsize
    obtain ⟨block, hb, hfree, rfl⟩ := (hinv.tracked ptr size).mp hsize
    exact (hall ptr block hb hfree).2
  · intro hpos ptr block hb hfree
    have hlive := (hinv.tracked ptr block.size).mpr ⟨block, hb, hfree, rfl⟩
    refine ⟨hinv.record_ptr ptr block hb ▸ hinv.ne_zero_of_mem ?_, hpos ptr _ hlive⟩
    exact AList.lookup_isSome.mp (by simp [hlive])

/--
With leak and corruption detection on, `validate_all_memory()` holds after a run of the
program exactly when every live allocation asked for a positive size.
-/
theorem validateAllMemory_iff_sizes_pos {config : MemoryPoolConfig} {s : Session}
    (hleak : config.enableLeakDetection = true) (hcorr : config.enableCorruptionDetection = true)
    (hs : Reachable config s) :
    s.manager.validateAllMemory = true ↔
      ∀ ptr size, s.live.lookup ptr = some size → 0 < size :=
  (hs.sessionInv hleak).manager.validateAllMemory_iff
    (hs.managerReachable.tableInv.corruptionDetection.trans hcorr)

theorem validateAllMemory_iff_sizes_pos_default :
    MemoryPoolConfig.default.enableLeakDetection = true ∧
    MemoryPoolConfig.default.enableCorruptionDetection = true ∧
    Reachable .default allocatedSession ∧
    (allocatedSession.manager.validateAllMemory = true ↔
      ∀ ptr size, allocatedSession.live.lookup ptr = some size → 0 < size) :=
  ⟨rfl, rfl, allocatedSession_reachable,
    validateAllMemory_iff_sizes_pos rfl rfl allocatedSession_reachable⟩

/-- The default session after `allocate(0)`, served from the 64-byte class at `4120`. -/
def zeroSession : Session :=
  match defaultSession.manager.allocate defaultSession.heap 0 none 0 with
  | .ok (ptr, h, m) => ⟨h, m, defaultSession.live.insert ptr 0⟩
  | .error _ => defaultSession

/-- After `allocate(0)` on the default manager, with both checks on, validation fails. -/
theorem validateAllMemory_false_after_allocate_zero :
    MemoryPoolConfig.default.enableLeakDetection = true ∧
    MemoryPoolConfig.default.enableCorruptionDetection = true ∧
    Reachable .default zeroSession ∧ zeroSession.manager.validateAllMemory = false :=
  ⟨rfl, rfl, .step defaultSession_reachable (Step.allocate (show
    defaultSession.manager.allocate defaultSession.heap 0 none 0 =
      .ok (4120, zeroSession.heap, zeroSession.manager) from rfl)), by decide⟩

end NeuralMemory
