import NeuralMemory.Basic

/-!
# The system allocator and process memory

`MemoryPool::expand_pool` takes its slabs from `std::malloc`, and the fallback branch of
`NeuralMemoryManager::reallocate` calls `std::realloc`.  `Heap` models the C library's
allocator on a fresh arena: every `malloc` cuts a chunk off the top, behind a 16-byte
chunk header, until `limit` is reached.  The same record holds the `next` word of every
`PoolBlock` header and the payload bytes that `memcpy` moves.

Only the allocator's own calls of the C library are modelled: the slabs and the blocks of
`std::realloc`.  The memory the standard containers take, and the buffer that
`capture_stack_trace` gets from `backtrace_symbols` and gives back with `free`, are not in
`chunks`, so what the development proves of `chunks` is about that slab heap.
-/

namespace NeuralMemory

structure Heap where
  brk : Nat
  limit : Nat
  chunks : List (Nat × UInt64)
  next : Nat → Nat
  bytes : Nat → UInt8

namespace Heap

/-- The arena at program start: nothing handed out between `base` and `limit`. -/
def init (base limit : Nat) : Heap := ⟨base, limit, [], fun _ => 0, fun _ => 0⟩

/-- The header glibc keeps in front of each chunk it returns. -/
def chunkHeader : Nat := 16

/-- `std::malloc(size)`; `none` is a null result. -/
def malloc (h : Heap) (size : UInt64) : Option (Nat × Heap) :=
  if h.brk + chunkHeader + size.toNat ≤ h.limit then
    some (h.brk + chunkHeader,
      { h with brk := h.brk + chunkHeader + size.toNat,
               chunks := (h.brk + chunkHeader, size) :: h.chunks })
  else none

/--
`std::memcpy(dest, src, n)` for ranges that do not overlap, where the destination reads
as the source did before the call.  Overlapping ranges are undefined in C++.
-/
def memcpy (h : Heap) (dest src n : Nat) : Heap :=
  { h with
    bytes := fun a =>
      if dest ≤ a ∧ a < dest + n then h.bytes (src + (a - dest)) else h.bytes a }

/--
`std::realloc(ptr, size)` for `size > 0`: a new chunk holding the old contents, or `0`
when `malloc` fails.  An address that is not a live chunk is undefined behaviour.
-/
def realloc (h : Heap) (ptr : Nat) (size : UInt64) : Except Fault (Nat × Heap) :=
  match h.chunks.lookup ptr with
  | none => .error (.invalidRealloc ptr)
  | some old =>
      match h.malloc size with
      | none => .ok (0, h)
      | some (q, h') =>
          .ok (q, { h'.memcpy q ptr (min old size).toNat with
                    chunks := h'.chunks.filter (·.1 != ptr) })

/-- Writing the `next` word of the header at `block`. -/
def setNext (h : Heap) (block link : Nat) : Heap :=
  { h with next := Function.update h.next block link }

/--
`std::free(ptr)`: a no-op on `nullptr`, and otherwise the end of a live chunk.  Freeing an
address that is not a live chunk, a second free included, is undefined behaviour (`none`).
-/
def free (h : Heap) (ptr : Nat) : Option Heap :=
  if ptr = 0 then some h
  else if ptr ∈ h.chunks.map Prod.fst then some { h with chunks := h.chunks.filter (·.1 != ptr) }
  else none

@[simp] theorem memcpy_next (h : Heap) (dest src n : Nat) :
    (h.memcpy dest src n).next = h.next := rfl

@[simp] theorem memcpy_brk (h : Heap) (dest src n : Nat) : (h.memcpy dest src n).brk = h.brk := rfl

@[simp] theorem setNext_next (h : Heap) (block link : Nat) :
    (h.setNext block link).next = Function.update h.next block link := rfl

@[simp] theorem setNext_brk (h : Heap) (block link : Nat) :
    (h.setNext block link).brk = h.brk := rfl

@[simp] theorem setNext_bytes (h : Heap) (block link : Nat) :
    (h.setNext block link).bytes = h.bytes := rfl

@[simp] theorem setNext_chunks (h : Heap) (block link : Nat) :
    (h.setNext block link).chunks = h.chunks := rfl

@[simp] theorem memcpy_chunks (h : Heap) (dest src n : Nat) :
    (h.memcpy dest src n).chunks = h.chunks := rfl

theorem malloc_eq_some {h h' : Heap} {size : UInt64} {q : Nat}
    (hm : h.malloc size = some (q, h')) :
    q = h.brk + chunkHeader ∧ h'.brk = q + size.toNat ∧ h'.next = h.next ∧
      h'.bytes = h.bytes := by
  unfold malloc at hm
  split at hm
  · cases hm
    exact ⟨rfl, rfl, rfl, rfl⟩
  · cases hm

theorem realloc_of_not_mem {h : Heap} {ptr : Nat} (hptr : ptr ∉ h.chunks.map Prod.fst)
    (size : UInt64) : h.realloc ptr size = .error (.invalidRealloc ptr) := by
  have hnone : h.chunks.lookup ptr = none := List.lookup_eq_none_iff.mpr fun c hc =>
    bne_iff_ne.mpr fun he => hptr (he ▸ List.mem_map_of_mem _ hc)
  simp [realloc, hnone]

theorem malloc_chunks {h h' : Heap} {size : UInt64} {q : Nat}
    (hm : h.malloc size = some (q, h')) : h'.chunks = (q, size) :: h.chunks := by
  unfold malloc at hm
  split at hm
  · cases hm; rfl
  · cases hm

theorem foldlM_free {h : Heap} {l : List Nat} (hnd : l.Nodup) (h0 : 0 ∉ l)
    (hl : ∀ q ∈ l, q ∈ h.chunks.map Prod.fst) :
    l.foldlM free h = some { h with chunks := h.chunks.filter fun c => c.1 ∉ l } := by
  induction l generalizing h with
  | nil => simp
  | cons a l ih =>
    obtain ⟨ha, hnd⟩ := List.nodup_cons.mp hnd
    have ha0 : a ≠ 0 := fun h => h0 (h ▸ List.mem_cons_self _ _)
    have hfree : free h a = some { h with chunks := h.chunks.filter (·.1 != a) } := by
      simp [free, ha0, hl a (List.mem_cons_self _ _)]
    rw [List.foldlM_cons, hfree, Option.bind_eq_bind, Option.some_bind,
      ih hnd (fun h => h0 (List.mem_cons_of_mem _ h)) fun q hq => ?_]
    · rw [List.filter_filter]
      congr 2
      refine List.filter_congr fun c _ => ?_
      by_cases hc : c.1 = a <;> simp [hc]
    · obtain ⟨c, hc, rfl⟩ := List.mem_map.mp (hl q (List.mem_cons_of_mem _ hq))
      exact List.mem_map_of_mem _
        (List.mem_filter.mpr ⟨hc, by simpa using ne_of_mem_of_not_mem hq ha⟩)

theorem malloc_fresh {h h' : Heap} {size : UInt64} {q : Nat}
    (hm : h.malloc size = some (q, h')) : h.brk < q ∧ q ≤ h'.brk := by
  obtain ⟨rfl, hbrk, -⟩ := malloc_eq_some hm
  simp only [chunkHeader] at hbrk ⊢
  omega

end Heap

end NeuralMemory
