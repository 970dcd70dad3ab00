import NeuralMemory.Basic

/-!
# Performance counters

`PerformanceMetrics` is six `std::atomic<uint64_t>`.  `update_performance_metrics` adds to
them, or subtracts from `current_memory_usage`, with wrap-around; on the allocation side it
then raises `peak_memory_usage` to `current_memory_usage` with a compare-exchange loop.
`updatePerformanceMetrics` is that function run by one thread with nothing interleaved:
the loop then leaves the larger of the two.  `NeuralMemory.PeakUpdate` models the loop
step by step under interleaving and shows that a solo run computes this function.
-/

namespace NeuralMemory

structure PerformanceMetrics where
  totalAllocations : UInt64
  totalDeallocations : UInt64
  totalBytesAllocated : UInt64
  totalBytesDeallocated : UInt64
  peakMemoryUsage : UInt64
  currentMemoryUsage : UInt64
  deriving DecidableEq, Repr

namespace PerformanceMetrics

/-- All six counters at `{0}`. -/
def zero : PerformanceMetrics := ⟨0, 0, 0, 0, 0, 0⟩

def updatePerformanceMetrics (metrics : PerformanceMetrics) (bytes : UInt64)
    (isAllocation : Bool) : PerformanceMetrics :=
  if isAllocation then
    let current := metrics.currentMemoryUsage + bytes
    { metrics with
      totalAllocations := metrics.totalAllocations + 1
      totalBytesAllocated := metrics.totalBytesAllocated + bytes
      currentMemoryUsage := current
      peakMemoryUsage :=
        if current > metrics.peakMemoryUsage then current else metrics.peakMemoryUsage }
  else
    { metrics with
      totalDeallocations := metrics.totalDeallocations + 1
      totalBytesDeallocated := metrics.totalBytesDeallocated + bytes
      currentMemoryUsage := metrics.currentMemoryUsage - bytes }

@[simp] theorem update_alloc_current (metrics : PerformanceMetrics) (bytes : UInt64) :
    (metrics.updatePerformanceMetrics bytes true).currentMemoryUsage =
      metrics.currentMemoryUsage + bytes := rfl

@[simp] theorem update_alloc_totalBytesAllocated (metrics : PerformanceMetrics) (bytes : UInt64) :
    (metrics.updatePerformanceMetrics bytes true).totalBytesAllocated =
      metrics.totalBytesAllocated + bytes := rfl

@[simp] theorem update_alloc_totalBytesDeallocated (metrics : PerformanceMetrics) (bytes : UInt64) :
    (metrics.updatePerformanceMetrics bytes true).totalBytesDeallocated =
      metrics.totalBytesDeallocated := rfl

@[simp] theorem update_free_current (metrics : PerformanceMetrics) (bytes : UInt64) :
    (metrics.updatePerformanceMetrics bytes false).currentMemoryUsage =
      metrics.currentMemoryUsage - bytes := rfl

@[simp] theorem update_free_totalBytesAllocated (metrics : PerformanceMetrics) (bytes : UInt64) :
    (metrics.updatePerformanceMetrics bytes false).totalBytesAllocated =
      metrics.totalBytesAllocated := rfl

@[simp] theorem update_free_totalBytesDeallocated (metrics : PerformanceMetrics) (bytes : UInt64) :
    (metrics.updatePerformanceMetrics bytes false).totalBytesDeallocated =
      metrics.totalBytesDeallocated + bytes := rfl

end PerformanceMetrics

end NeuralMemory
