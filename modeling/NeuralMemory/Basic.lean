import Mathlib.Data.List.AList
import Mathlib.Data.UInt

/-!
# Machine vocabulary of the neural memory manager

`vectoros_v2/kernel/neural_memory_manager.{h,cpp}` is built for LP64 targets.  A pointer
is an address (`Nat`, with `0` for `nullptr`).  Every `size_t` and `uint64_t` that the
code adds up or compares (block sizes, requested sizes, the atomic counters) is a
`UInt64`, so that its wrap-around is the code's.  Indices into `memory_pools` and counts
of container elements are `Nat`.

The three mutexes of the file are `std::mutex`, which is not recursive: a thread that
locks one it already holds has undefined behaviour, and glibc's default mutex
deadlocks.  `lockGuard` makes that a `Fault`, so that a call that would never return is
an error of the model rather than a silent success.
-/

namespace NeuralMemory

/-- `SIZE_MAX`. -/
def sizeMax : UInt64 := 18446744073709551615

/-- The mutexes of the allocator: each pool's own, the tracker's and the singleton's. -/
inductive Mutex where
  | poolMutex
  | trackingMutex
  | instanceMutex
  deriving DecidableEq, Repr

/-- How a call fails to return normally. -/
inductive Fault where
  /-- `expand_pool` throws `std::bad_alloc` when `malloc` fails. -/
  | badAlloc
  /-- The call locks a mutex that it already holds. -/
  | selfDeadlock (m : Mutex)
  /-- `std::realloc` on an address that `malloc` never returned. -/
  | invalidRealloc (ptr : Nat)
  deriving DecidableEq, Repr

/--
`std::lock_guard<std::mutex> lock(m)` in a call that already holds `held`.  The lock is
released when the call returns, so `held` lives only as long as one call.
-/
def lockGuard (held : List Mutex) (m : Mutex) : Except Fault (List Mutex) :=
  if m ∈ held then .error (.selfDeadlock m) else .ok (m :: held)

@[simp] theorem lockGuard_of_mem {held : List Mutex} {m : Mutex} (h : m ∈ held) :
    lockGuard held m = .error (.selfDeadlock m) := if_pos h

@[simp] theorem lockGuard_of_not_mem {held : List Mutex} {m : Mutex} (h : m ∉ held) :
    lockGuard held m = .ok (m :: held) := if_neg h

/--
`MemoryPoolConfig`.  `initial_capacity` and `max_capacity` are read only by
`MemoryPool::get_pool_size`, which nothing in the allocator calls, and are left out.
-/
structure MemoryPoolConfig where
  blockSize : UInt64
  enableLeakDetection : Bool
  enableCorruptionDetection : Bool
  enablePerformanceMonitoring : Bool
  deriving DecidableEq, Repr

/-- The defaults of `MemoryPoolConfig()`: 4096-byte blocks and every check on. -/
def MemoryPoolConfig.default : MemoryPoolConfig := ⟨4096, true, true, true⟩

/--
`MemoryBlock`, the tracker's record of one allocation.  The allocation time and the stack
trace are wall-clock and backtrace data that no decision of the allocator reads.
-/
structure MemoryBlock where
  ptr : Nat
  size : UInt64
  file : String
  line : Int
  isFreed : Bool
  deriving DecidableEq, Repr

theorem Except.bind_eq_ok {ε α β : Type} {x : Except ε α} {f : α → Except ε β} {v : β} :
    x >>= f = .ok v ↔ ∃ a, x = .ok a ∧ f a = .ok v := by
  cases x <;> simp [bind, Except.bind]

/-! ## Lists by index -/

theorem getElem?_set_eq_some {α : Type} {l : List α} {idx j : Nat} {a b : α}
    (hb : (l.set idx a)[j]? = some b) : (j = idx ∧ b = a) ∨ (j ≠ idx ∧ l[j]? = some b) := by
  rw [List.getElem?_set] at hb
  split_ifs at hb with hij
  · cases hb; exact .inl ⟨hij.symm, rfl⟩
  · exact .inr ⟨Ne.symm hij, hb⟩

theorem set_getElem_self {α : Type} (l : List α) {i : Nat} (hi : i < l.length) :
    l.set i l[i] = l :=
  List.ext_getElem (by simp) fun j _ _ => by by_cases hj : i = j <;> simp [List.getElem_set, hj]

theorem getElem?_concat_eq_some {α : Type} {l : List α} {j : Nat} {a b : α}
    (hb : (l ++ [a])[j]? = some b) : l[j]? = some b ∨ (j = l.length ∧ b = a) := by
  rcases Nat.lt_or_ge j l.length with hj | hj
  · rw [List.getElem?_append_left hj] at hb
    exact .inl hb
  · rw [List.getElem?_append_right hj] at hb
    obtain ⟨hlt, heq⟩ := List.getElem?_eq_some_iff.mp hb
    simp only [List.length_singleton] at hlt
    exact .inr ⟨by omega, by simpa using heq.symm⟩

theorem getElem?_concat_eq_some_iff_of_ne {α : Type} {l : List α} {a b : α} (h : b ≠ a)
    (j : Nat) : (l ++ [a])[j]? = some b ↔ l[j]? = some b :=
  ⟨fun hb => (getElem?_concat_eq_some hb).resolve_right fun ⟨_, hba⟩ => h hba,
    fun hb => by rw [List.getElem?_append_left (List.getElem?_eq_some_iff.mp hb).1]; exact hb⟩

/-! ## Association lists -/

theorem erase_of_not_mem {α : Type} {β : α → Type} [DecidableEq α] {t : AList β} {a : α}
    (h : a ∉ t) : t.erase a = t :=
  AList.ext (List.kerase_of_not_mem_keys h)

theorem entries_split_of_lookup {α : Type} {β : α → Type} [DecidableEq α] {t : AList β}
    {a : α} {b : β a} (h : t.lookup a = some b) :
    ∃ l₁ l₂, t.entries = l₁ ++ ⟨a, b⟩ :: l₂ ∧
      (t.erase a).entries = l₁ ++ l₂ := by
  have hkey : a ∈ t.entries.keys := AList.mem_keys.mp (AList.lookup_isSome.mp (by simp [h]))
  obtain ⟨b', l₁, l₂, -, hl, hk⟩ := List.exists_of_kerase hkey
  have hb : b' = b := by
    have := AList.mem_lookup_iff.mpr (hl ▸ List.mem_append_right l₁ (List.mem_cons_self _ _))
    rw [h] at this
    exact (Option.some.inj this).symm
  exact ⟨l₁, l₂, hb ▸ hl, hk⟩

/-! ## Wrapping counters -/

theorem UInt64.ofNat_succ (n : Nat) : UInt64.ofNat (n + 1) = UInt64.ofNat n + 1 := by
  apply UInt64.eq_of_toBitVec_eq
  exact (BitVec.ofNat_add_ofNat ..).symm

theorem UInt64.ofNat_pred {n : Nat} (h : 0 < n) : UInt64.ofNat (n - 1) = UInt64.ofNat n - 1 := by
  obtain ⟨k, rfl⟩ := Nat.exists_eq_add_of_lt h
  simp [UInt64.ofNat_succ]

theorem UInt64.lt_iff_toNat_lt {a b : UInt64} : a < b ↔ a.toNat < b.toNat := by
  rw [UInt64.lt_def, BitVec.lt_def]; rfl

theorem UInt64.le_iff_toNat_le {a b : UInt64} : a ≤ b ↔ a.toNat ≤ b.toNat := by
  rw [UInt64.le_def, BitVec.le_def]; rfl

theorem UInt64.le_of_lt {a b : UInt64} (h : a < b) : a ≤ b := by
  rw [UInt64.lt_iff_toNat_lt] at h
  rw [UInt64.le_iff_toNat_le]
  omega

end NeuralMemory
