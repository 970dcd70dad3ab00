import NeuralMemory.Metrics

/-!
# `update_performance_metrics` under interleaving

Each call of `update_performance_metrics` is a thread of atomic steps on the six counters:
the `fetch_add`s (or, on the deallocation side, the `fetch_add`s and the `fetch_sub` on
`current_memory_usage`), then, on the allocation side, the loads of `current` and `peak`
and the loop

    while (current > peak) {
        peak_memory_usage.compare_exchange_weak(peak, current);
        current = current_memory_usage.load();
    }

A successful exchange leaves the local `peak` at its old value; a failed one, spurious or
not, loads the counter into it.  `Sys` holds the counters and every call made so far; a
schedule picks, at each step, a new call or a step of one call and whether its weak
exchange fails spuriously.

The loop raises the peak to every value of `current` that some call has yet to load or
is about to publish (`Phase.Covers`), so the peak is at least `current` whenever no call
is between its `fetch_add` on `current` and the exit of its loop, provided no `fetch_sub`
takes `current` below zero (`peak_never_below_current`).  A call run alone computes
`PerformanceMetrics.updatePerformanceMetrics` (`run_solo_call`).
-/

namespace NeuralMemory

namespace PeakUpdate

/-- Where one call stands, with the locals it has loaded. -/
inductive Phase where
  | incAllocations
  | addBytesAllocated
  | addCurrent
  /-- About to load `current_memory_usage` into `current`. -/
  | loadCurrent
  /-- About to load `peak_memory_usage` into `peak`. -/
  | loadPeak (current : UInt64)
  /-- About to run `compare_exchange_weak(peak, current)`. -/
  | exchange (current peak : UInt64)
  /-- About to reload `current` at the end of the loop body. -/
  | reload (peak : UInt64)
  | incDeallocations
  | addBytesDeallocated
  | subCurrent
  | done
  deriving DecidableEq, Repr

/-- The test of `while (current > peak)`. -/
def loopTest (current peak : UInt64) : Phase :=
  if current > peak then .exchange current peak else .done

/-- Where a call of `update_performance_metrics(bytes, isAllocation)` starts. -/
def start (isAllocation : Bool) : Phase :=
  if isAllocation then .incAllocations else .incDeallocations

/-- One atomic step of a call with argument `bytes`; `spurious` makes a weak exchange fail. -/
def atomicStep (bytes : UInt64) (spurious : Bool) (m : PerformanceMetrics) :
    Phase → PerformanceMetrics × Phase
  | .incAllocations => ({ m with totalAllocations := m.totalAllocations + 1 }, .addBytesAllocated)
  | .addBytesAllocated =>
      ({ m with totalBytesAllocated := m.totalBytesAllocated + bytes }, .addCurrent)
  | .addCurrent => ({ m with currentMemoryUsage := m.currentMemoryUsage + bytes }, .loadCurrent)
  | .loadCurrent => (m, .loadPeak m.currentMemoryUsage)
  | .loadPeak current => (m, loopTest current m.peakMemoryUsage)
  | .exchange current peak =>
      if m.peakMemoryUsage = peak ∧ spurious = false then
        ({ m with peakMemoryUsage := current }, .reload peak)
      else (m, .reload m.peakMemoryUsage)
  | .reload peak => (m, loopTest m.currentMemoryUsage peak)
  | .incDeallocations =>
      ({ m with totalDeallocations := m.totalDeallocations + 1 }, .addBytesDeallocated)
  | .addBytesDeallocated =>
      ({ m with totalBytesDeallocated := m.totalBytesDeallocated + bytes }, .subCurrent)
  | .subCurrent => ({ m with currentMemoryUsage := m.currentMemoryUsage - bytes }, .done)
  | .done => (m, .done)

/-- Between the `fetch_add` on `current` and the exit of the loop. -/
def Phase.inPeakUpdate : Phase → Bool
  | .loadCurrent | .loadPeak _ | .exchange _ _ | .reload _ => true
  | _ => false

structure Call where
  bytes : UInt64
  phase : Phase
  deriving DecidableEq, Repr

/-- The counters and every call made so far, by thread. -/
structure Sys where
  metrics : PerformanceMetrics
  calls : List Call
  deriving DecidableEq, Repr

/-- A scheduler's choice: a new call, or one step of call `t`. -/
inductive Sched where
  | call (bytes : UInt64) (isAllocation : Bool)
  | run (t : Nat) (spurious : Bool)
  deriving DecidableEq, Repr

def Sys.step (s : Sys) : Sched → Sys
  | .call bytes isAllocation => { s with calls := s.calls ++ [⟨bytes, start isAllocation⟩] }
  | .run t spurious =>
      match s.calls[t]? with
      | some c =>
          let (m, phase) := atomicStep c.bytes spurious s.metrics c.phase
          ⟨m, s.calls.set t { c with phase := phase }⟩
      | none => s

/-- No `fetch_sub` takes `current_memory_usage` below zero. -/
def Sys.Admissible (s : Sys) : Sched → Prop
  | .run t _ => ∀ c, s.calls[t]? = some c → c.phase = .subCurrent →
      c.bytes ≤ s.metrics.currentMemoryUsage
  | .call _ _ => True

/-- The states a schedule reaches from counters with `current ≤ peak`. -/
inductive Sys.Reachable : Sys → Prop
  | init {m : PerformanceMetrics} :
      m.currentMemoryUsage ≤ m.peakMemoryUsage → Reachable ⟨m, []⟩
  | step {s : Sys} {o : Sched} : Reachable s → s.Admissible o → Reachable (s.step o)

/-- Each choice of the schedule is admissible where it is made. -/
def Sys.AdmissibleRun : Sys → List Sched → Prop
  | _, [] => True
  | s, o :: os => s.Admissible o ∧ AdmissibleRun (s.step o) os

theorem Sys.Reachable.foldl {s : Sys} (hs : s.Reachable) :
    ∀ {os : List Sched}, s.AdmissibleRun os → (os.foldl Sys.step s).Reachable
  | [], _ => hs
  | _ :: _, ⟨ho, hos⟩ => (hs.step ho).foldl hos

theorem Sys.step_run {s : Sys} {t : Nat} {c : Call} (ht : s.calls[t]? = some c)
    (spurious : Bool) :
    s.step (.run t spurious) =
      ⟨(atomicStep c.bytes spurious s.metrics c.phase).1,
        s.calls.set t { c with phase := (atomicStep c.bytes spurious s.metrics c.phase).2 }⟩ := by
  simp [Sys.step, ht]

/-! ## The peak covers `current` -/

/-- A call that will raise the peak to at least `cur` before it leaves the loop. -/
def Phase.Covers (cur : UInt64) : Phase → Prop
  | .loadCurrent | .reload _ => True
  | .loadPeak current | .exchange current _ => cur ≤ current
  | _ => False

/-- The local `peak` of a call inside the loop body. -/
def Phase.localPeak : Phase → Option UInt64
  | .exchange _ peak | .reload peak => some peak
  | _ => none

theorem Phase.Covers.mono {cur cur' : UInt64} {phase : Phase} (h : phase.Covers cur)
    (hle : cur' ≤ cur) : phase.Covers cur' := by
  cases phase <;> simp only [Phase.Covers] at h ⊢ <;> exact UInt64.le_trans hle h

theorem Phase.covers_of_inPeakUpdate_false {cur : UInt64} {phase : Phase}
    (h : phase.inPeakUpdate = false) : ¬phase.Covers cur := by
  cases phase <;> simp_all [Phase.Covers, Phase.inPeakUpdate]

structure PeakInv (s : Sys) : Prop where
  covered : s.metrics.currentMemoryUsage ≤ s.metrics.peakMemoryUsage ∨
    ∃ (t : Nat) (c : Call), s.calls[t]? = some c ∧ c.phase.Covers s.metrics.currentMemoryUsage
  local_le : ∀ (t : Nat) (c : Call) (p : UInt64), s.calls[t]? = some c →
    c.phase.localPeak = some p → p ≤ s.metrics.peakMemoryUsage
  exchange_lt : ∀ (t : Nat) (c : Call) (cur p : UInt64), s.calls[t]? = some c →
    c.phase = .exchange cur p → p < cur

namespace PeakInv

variable {m m' : PerformanceMetrics} {calls : List Call} {t : Nat} {c : Call}

theorem init (h : m.currentMemoryUsage ≤ m.peakMemoryUsage) : PeakInv ⟨m, []⟩ :=
  ⟨.inl h, by simp, by simp⟩

theorem covered_other (hinv : PeakInv ⟨m, calls⟩) (ht : calls[t]? = some c)
    (hnc : ¬c.phase.Covers m.currentMemoryUsage) :
    m.currentMemoryUsage ≤ m.peakMemoryUsage ∨
      ∃ i c', i ≠ t ∧ calls[i]? = some c' ∧ c'.phase.Covers m.currentMemoryUsage := by
  rcases hinv.covered with h | ⟨i, c', hi, hcv⟩
  · exact .inl h
  · refine .inr ⟨i, c', fun hit => hnc ?_, hi, hcv⟩
    subst hit
    cases ht.symm.trans hi
    exact hcv

theorem set {phase : Phase} (hinv : PeakInv ⟨m, calls⟩) (ht : calls[t]? = some c)
    (hP : m.peakMemoryUsage ≤ m'.peakMemoryUsage)
    (hloc : ∀ p, phase.localPeak = some p → p ≤ m'.peakMemoryUsage)
    (hex : ∀ cur p, phase = .exchange cur p → p < cur)
    (hcov : m'.currentMemoryUsage ≤ m'.peakMemoryUsage ∨ phase.Covers m'.currentMemoryUsage ∨
      ∃ i c', i ≠ t ∧ calls[i]? = some c' ∧ c'.phase.Covers m'.currentMemoryUsage) :
    PeakInv ⟨m', calls.set t { c with phase := phase }⟩ := by
  have htlt : t < calls.length := (List.getElem?_eq_some_iff.mp ht).1
  refine ⟨?_, fun i c' p hi hp => ?_, fun i c' cur p hi hc => ?_⟩
  · rcases hcov with h | h | ⟨i, c', hit, hi, hcv⟩
    · exact .inl h
    · exact .inr ⟨t, _, List.getElem?_set_self htlt, h⟩
    · exact .inr ⟨i, c', by rw [List.getElem?_set_ne (Ne.symm hit)]; exact hi, hcv⟩
  · rcases getElem?_set_eq_some hi with ⟨-, rfl⟩ | ⟨-, hi⟩
    · exact hloc p hp
    · exact UInt64.le_trans (hinv.local_le i c' p hi hp) hP
  · rcases getElem?_set_eq_some hi with ⟨-, rfl⟩ | ⟨-, hi⟩
    · exact hex cur p hc
    · exact hinv.exchange_lt i c' cur p hi hc

theorem call (hinv : PeakInv ⟨m, calls⟩) (bytes : UInt64) (isAllocation : Bool) :
    PeakInv ⟨m, calls ++ [⟨bytes, start isAllocation⟩]⟩ := by
  have hstart : (start isAllocation).localPeak = none ∧
      ∀ cur p, start isAllocation ≠ .exchange cur p := by
    cases isAllocation <;> simp [start, Phase.localPeak]
  refine ⟨?_, fun i c' p hi hp => ?_, fun i c' cur p hi hc => ?_⟩
  · rcases hinv.covered with h | ⟨i, c', hi, hcv⟩
    · exact .inl h
    · refine .inr ⟨i, c', ?_, hcv⟩
      rw [List.getElem?_append_left (List.getElem?_eq_some_iff.mp hi).1]
      exact hi
  · rcases getElem?_concat_eq_some hi with hi | ⟨-, rfl⟩
    · exact hinv.local_le i c' p hi hp
    · simp [hstart.1] at hp
  · rcases getElem?_concat_eq_some hi with hi | ⟨-, rfl⟩
    · exact hinv.exchange_lt i c' cur p hi hc
    · exact absurd hc (hstart.2 cur p)

theorem passive {phase : Phase} (hinv : PeakInv ⟨m, calls⟩) (ht : calls[t]? = some c)
    (hnc : ¬c.phase.Covers m.currentMemoryUsage)
    (hC : m'.currentMemoryUsage ≤ m.currentMemoryUsage)
    (hP : m'.peakMemoryUsage = m.peakMemoryUsage) (hloc : phase.localPeak = none)
    (hex : ∀ cur p, phase ≠ .exchange cur p) :
    PeakInv ⟨m', calls.set t { c with phase := phase }⟩ := by
  refine hinv.set ht (hP ▸ UInt64.le_refl _) (by simp [hloc])
    (fun cur p h => absurd h (hex cur p)) ?_
  rcases hinv.covered_other ht hnc with h | ⟨i, c', hit, hi, hcv⟩
  · exact .inl (hP ▸ UInt64.le_trans hC h)
  · exact .inr (.inr ⟨i, c', hit, hi, hcv.mono hC⟩)

theorem run (hinv : PeakInv ⟨m, calls⟩) (ht : calls[t]? = some c) (spurious : Bool)
    (hadm : c.phase = .subCurrent → c.bytes ≤ m.currentMemoryUsage) :
    PeakInv ⟨(atomicStep c.bytes spurious m c.phase).1,
      calls.set t { c with phase := (atomicStep c.bytes spurious m c.phase).2 }⟩ := by
  have hloc := hinv.local_le t c
  have hex := hinv.exchange_lt t c
  cases hph : c.phase with
  | incAllocations | addBytesAllocated | incDeallocations | addBytesDeallocated | done =>
    exact hinv.passive ht (by simp [hph, Phase.Covers]) (UInt64.le_refl _) rfl rfl
      (by simp [atomicStep])
  | subCurrent =>
    refine hinv.passive ht (by simp [hph, Phase.Covers]) ?_ rfl rfl (by simp [atomicStep])
    have hle := hadm hph
    show m.currentMemoryUsage - c.bytes ≤ m.currentMemoryUsage
    rw [UInt64.le_iff_toNat_le, UInt64.toNat_sub_of_le _ _ hle]
    omega
  | addCurrent =>
    exact hinv.set ht (UInt64.le_refl _) (by simp [atomicStep, Phase.localPeak])
      (by simp [atomicStep]) (.inr (.inl trivial))
  | loadCurrent =>
    exact hinv.set ht (UInt64.le_refl _) (by simp [atomicStep, Phase.localPeak])
      (by simp [atomicStep]) (.inr (.inl (UInt64.le_refl _)))
  | loadPeak current =>
    have hcov : m.currentMemoryUsage ≤ current ∨ m.currentMemoryUsage ≤ m.peakMemoryUsage ∨
        ∃ i c', i ≠ t ∧ calls[i]? = some c' ∧ c'.phase.Covers m.currentMemoryUsage := by
      by_cases hcv : m.currentMemoryUsage ≤ current
      · exact .inl hcv
      · exact .inr (hinv.covered_other ht (by simpa [hph, Phase.Covers] using hcv))
    simp only [atomicStep, loopTest]
    split_ifs with hgt
    · exact hinv.set ht (UInt64.le_refl _) (by simp [Phase.localPeak]) (by simp [hgt])
        (or_left_comm.mp hcov)
    · exact hinv.set ht (UInt64.le_refl _) (by simp [Phase.localPeak]) (by simp)
        (hcov.elim (fun h => .inl (UInt64.le_trans h (UInt64.not_lt.mp hgt)))
          (·.elim .inl (.inr ∘ .inr)))
  | exchange current peak =>
    have hlt := hex current peak ht hph
    simp only [atomicStep]
    split_ifs with hok
    · refine hinv.set ht (show m.peakMemoryUsage ≤ current from hok.1 ▸ UInt64.le_of_lt hlt) ?_
        (by simp) (.inr (.inl trivial))
      simpa [Phase.localPeak] using UInt64.le_of_lt hlt
    · exact hinv.set ht (UInt64.le_refl _) (by simp [Phase.localPeak]) (by simp)
        (.inr (.inl trivial))
  | reload peak =>
    have hpeak := hloc peak ht (by simp [hph, Phase.localPeak])
    simp only [atomicStep, loopTest]
    split_ifs with hgt
    · exact hinv.set ht (UInt64.le_refl _) (by simpa [Phase.localPeak] using hpeak) (by simp [hgt])
        (.inr (.inl (UInt64.le_refl _)))
    · exact hinv.set ht (UInt64.le_refl _) (by simp [Phase.localPeak]) (by simp)
        (.inl (UInt64.le_trans (UInt64.not_lt.mp hgt) hpeak))

theorem step {s : Sys} {o : Sched} (hinv : PeakInv s) (hadm : s.Admissible o) :
    PeakInv (s.step o) := by
  obtain ⟨m, calls⟩ := s
  cases o with
  | call bytes isAllocation => exact hinv.call bytes isAllocation
  | run t spurious =>
    cases ht : calls[t]? with
    | none => simpa [Sys.step, ht] using hinv
    | some c =>
      rw [Sys.step_run ht]
      exact hinv.run ht spurious (hadm c ht)

end PeakInv

theorem Sys.Reachable.peakInv {s : Sys} (hs : s.Reachable) : PeakInv s := by
  induction hs with
  | init h => exact .init h
  | step _ hadm ih => exact ih.step hadm

theorem atomicStep_peak_le {bytes : UInt64} {spurious : Bool} {m : PerformanceMetrics}
    {phase : Phase} (hex : ∀ cur p, phase = .exchange cur p → p < cur) :
    m.peakMemoryUsage ≤ (atomicStep bytes spurious m phase).1.peakMemoryUsage := by
  cases phase with
  | exchange current peak =>
    simp only [atomicStep]
    split_ifs with hok
    · exact show m.peakMemoryUsage ≤ current from
        hok.1 ▸ UInt64.le_of_lt (hex current peak rfl)
    · exact UInt64.le_refl _
  | _ => exact UInt64.le_refl _

theorem PeakInv.peak_le_step {s : Sys} (hinv : PeakInv s) (o : Sched) :
    s.metrics.peakMemoryUsage ≤ (s.step o).metrics.peakMemoryUsage := by
  cases o with
  | call => exact UInt64.le_refl _
  | run t spurious =>
    cases ht : s.calls[t]? with
    | none => simp [Sys.step, ht]
    | some c =>
      rw [Sys.step_run ht]
      exact atomicStep_peak_le fun cur p => hinv.exchange_lt t c cur p ht

/--
Under any interleaving of calls, with spurious failures of the weak exchange, the peak
never decreases; and while no allocation is between its `fetch_add` on `current` and the
exit of its loop, the peak is at least `current`, if no `fetch_sub` takes `current` below
zero.
-/
theorem peak_never_below_current {s : Sys} (hs : s.Reachable) :
    (∀ o, s.metrics.peakMemoryUsage ≤ (s.step o).metrics.peakMemoryUsage) ∧
    ((∀ c ∈ s.calls, c.phase.inPeakUpdate = false) →
      s.metrics.currentMemoryUsage ≤ s.metrics.peakMemoryUsage) := by
  have hinv := hs.peakInv
  refine ⟨hinv.peak_le_step, fun hq => hinv.covered.resolve_right ?_⟩
  rintro ⟨t, c, ht, hcv⟩
  exact Phase.covers_of_inPeakUpdate_false (hq c (List.getElem?_mem ht)) hcv

/-- An allocation of 64 bytes stops after its `fetch_add`, a deallocation of 32 bytes runs to
its end, and then the allocation finishes: it publishes the peak 32, never having seen 64. -/
def interleavedSys : Sys :=
  [.call 64 true, .run 0 false, .run 0 false, .run 0 false, .call 32 false, .run 1 false,
    .run 1 false, .run 1 false, .run 0 false, .run 0 false, .run 0 false, .run 0 false,
    .run 0 false, .run 0 false].foldl Sys.step ⟨.zero, []⟩

theorem interleavedSys_reachable : interleavedSys.Reachable :=
  Sys.Reachable.foldl (.init (UInt64.le_refl _)) (by
    simp [Sys.AdmissibleRun, Sys.Admissible, Sys.step, start, atomicStep, loopTest,
      PerformanceMetrics.zero])

theorem peak_never_below_current_interleaved :
    interleavedSys.Reachable ∧
    (∀ c ∈ interleavedSys.calls, c.phase.inPeakUpdate = false) ∧
    ((∀ o, interleavedSys.metrics.peakMemoryUsage ≤
        (interleavedSys.step o).metrics.peakMemoryUsage) ∧
      ((∀ c ∈ interleavedSys.calls, c.phase.inPeakUpdate = false) →
        interleavedSys.metrics.currentMemoryUsage ≤ interleavedSys.metrics.peakMemoryUsage)) :=
  ⟨interleavedSys_reachable, by decide, peak_never_below_current interleavedSys_reachable⟩

/-! ## A call alone -/

/--
A call that runs alone, with no spurious failure, is done within nine steps and leaves
the counters as the sequential `updatePerformanceMetrics` does.  The nine steps are taken
when the exchange succeeds: the loop runs once more on the stale local `peak`, whose
exchange then fails and loads the new peak.
-/
theorem run_solo_call (m : PerformanceMetrics) (bytes : UInt64) (isAllocation : Bool) :
    (List.replicate 9 (Sched.run 0 false)).foldl Sys.step
        ((⟨m, []⟩ : Sys).step (.call bytes isAllocation)) =
      ⟨m.updatePerformanceMetrics bytes isAllocation, [⟨bytes, .done⟩]⟩ := by
  cases isAllocation with
  | false =>
    simp [Sys.step, start, atomicStep, PerformanceMetrics.updatePerformanceMetrics]
  | true =>
    by_cases hgt : m.currentMemoryUsage + bytes > m.peakMemoryUsage
    · simp [Sys.step, start, atomicStep, loopTest, hgt, (UInt64.ne_of_lt hgt).symm,
        PerformanceMetrics.updatePerformanceMetrics]
    · simp [Sys.step, start, atomicStep, loopTest, hgt,
        PerformanceMetrics.updatePerformanceMetrics]

end PeakUpdate

end NeuralMemory
