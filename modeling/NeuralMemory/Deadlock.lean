import NeuralMemory.Locking

/-!
# Deadlocks

`MemoryPool::allocate` takes `pool_mutex` and, on an empty free list, calls `expand_pool`,
which takes it again: the thread waits for itself, and from then on no thread reads or writes
that pool's free list (`self_deadlock_stalls_pool`).  Every other call holds at most one lock
at a time and gives it back before it returns (`Sched.OneLock`), so threads whose `allocate`
calls find a free block never deadlock: while some thread has accesses left, some thread can
make its next one (`calls_never_deadlock`).
-/

namespace NeuralMemory

namespace Sched

/-! ## A thread that waits for itself -/

/-- Thread `t` holds `l` and is about to take it again. -/
def Stuck (σ : Sched) (t : Nat) (l : Lock) : Prop :=
  σ.holder l = some t ∧ (σ.threads t).rest.head? = some (.acquire l)

theorem Stuck.exec {σ σ' : Sched} {t u : Nat} {l : Lock} (hs : σ.Stuck t l)
    (he : σ.exec u = some σ') : σ'.Stuck t l ∧ σ'.threads t = σ.threads t := by
  obtain ⟨a, rest, hrest, hen, rfl⟩ := exec_eq_some he
  obtain ⟨hheld, hhead⟩ := hs
  have hu : u ≠ t := by
    rintro rfl
    rw [hrest, List.head?_cons, Option.some.injEq] at hhead
    subst hhead
    simp [Access.enabled, hheld] at hen
  have hthread : (Function.update σ.threads u ⟨a.after (σ.threads u).held, rest⟩) t =
      σ.threads t := Function.update_noteq hu.symm _ _
  refine ⟨⟨?_, (congrArg (fun th : Thread => th.rest.head?) hthread).trans hhead⟩, hthread⟩
  cases a with
  | acquire l' =>
    simp only [Access.enabled, decide_eq_true_eq] at hen
    have hl : l ≠ l' := fun h => by rw [← h, hheld] at hen; cases hen
    simp [Access.holderAfter, Function.update_noteq hl, hheld]
  | release l' =>
    simp only [Access.enabled, decide_eq_true_eq] at hen
    have hl : l ≠ l' := fun h => hu (Option.some.inj (hen.symm.trans (h ▸ hheld)))
    simp [Access.holderAfter, Function.update_noteq hl, hheld]
  | read | write => exact hheld

theorem Stuck.run {σ σ' : Sched} {t : Nat} {l : Lock} (hs : σ.Stuck t l)
    (hrun : Relation.ReflTransGen Step σ σ') : σ'.Stuck t l ∧ σ'.threads t = σ.threads t := by
  induction hrun with
  | refl => exact ⟨hs, rfl⟩
  | tail _ hstep ih =>
    obtain ⟨u, he⟩ := hstep
    obtain ⟨hs', ht⟩ := ih.1.exec he
    exact ⟨hs', ht.trans ih.2⟩

/-! ## One lock at a time -/

/-- Run from holding `cur`, the list takes a lock only while holding none, gives back only the
lock it holds, and ends holding none. -/
def OneLock : Option Lock → List Access → Prop
  | none, [] => True
  | some _, [] => False
  | none, .acquire l :: p => OneLock (some l) p
  | some _, .acquire _ :: _ => False
  | none, .release _ :: _ => False
  | some l, .release l' :: p => l' = l ∧ OneLock none p
  | cur, .read _ :: p | cur, .write _ :: p => OneLock cur p

theorem OneLock.append {q : List Access} (hq : OneLock none q) {p : List Access} :
    ∀ {cur : Option Lock}, OneLock cur p → OneLock cur (p ++ q) := by
  induction p with
  | nil =>
    rintro (_ | _) h
    · exact hq
    · exact h.elim
  | cons a p ih =>
    rintro (_ | l) h <;> cases a <;> simp only [OneLock, List.cons_append] at h ⊢
    all_goals first | exact ih h | exact ⟨h.1, ih h.2⟩

/-- Each thread holds exactly the lock its list is at, and keeps to one lock at a time. -/
def OneLockInv (σ : Sched) : Prop :=
  ∀ t, ∃ cur : Option Lock, (∀ l, (σ.threads t).held l = true ↔ cur = some l) ∧
    OneLock cur (σ.threads t).rest

theorem OneLockInv.exec {σ σ' : Sched} {t : Nat} (hσ : σ.OneLockInv)
    (he : σ.exec t = some σ') : σ'.OneLockInv := by
  obtain ⟨a, rest, hrest, -, rfl⟩ := exec_eq_some he
  intro u
  rcases eq_or_ne u t with rfl | hu
  · obtain ⟨cur, hheld, hone⟩ := hσ u
    rw [hrest] at hone
    simp only [Function.update_same]
    cases a with
    | acquire l =>
      cases cur with
      | none =>
        refine ⟨some l, fun l' => ?_, hone⟩
        rcases eq_or_ne l' l with rfl | hl
        · simp [Access.after]
        · simpa [Access.after, Function.update_noteq hl, Ne.symm hl] using hheld l'
      | some _ => exact hone.elim
    | release l =>
      cases cur with
      | none => exact hone.elim
      | some l₀ =>
        obtain ⟨rfl, hone⟩ := hone
        refine ⟨none, fun l' => ?_, hone⟩
        rcases eq_or_ne l' l with rfl | hl
        · simp [Access.after]
        · simpa [Access.after, Function.update_noteq hl, Ne.symm hl] using hheld l'
    | read | write => cases cur <;> exact ⟨_, hheld, hone⟩
  · simpa only [Function.update_noteq hu] using hσ u

theorem oneLock_of_run {progs : Nat → List Access} (hg : ∀ t, OneLock none (progs t))
    {σ : Sched} (hrun : Relation.ReflTransGen Step (init progs) σ) :
    σ.Agrees ∧ σ.OneLockInv := by
  induction hrun with
  | refl => exact ⟨agrees_init progs, fun t => ⟨none, fun l => by simp [init], hg t⟩⟩
  | tail _ hstep ih =>
    obtain ⟨t, he⟩ := hstep
    exact ⟨ih.1.exec he, ih.2.exec he⟩

theorem exec_of_enabled {σ : Sched} {t : Nat} {a : Access} {rest : List Access}
    (hrest : (σ.threads t).rest = a :: rest) (hen : a.enabled σ.holder t = true) :
    σ.exec t = some ⟨Function.update σ.threads t ⟨a.after (σ.threads t).held, rest⟩,
      a.holderAfter σ.holder t⟩ := by
  simp [exec, hrest, hen]

theorem progress {σ : Sched} (hA : σ.Agrees) (hO : σ.OneLockInv) {t : Nat}
    (ht : (σ.threads t).rest ≠ []) : ∃ u σ', σ.exec u = some σ' := by
  obtain ⟨a, rest, hrest⟩ := List.exists_cons_of_ne_nil ht
  obtain ⟨cur, hheld, hone⟩ := hO t
  rw [hrest] at hone
  cases a with
  | read | write => exact ⟨t, _, exec_of_enabled hrest rfl⟩
  | release l =>
    cases cur with
    | none => exact hone.elim
    | some l₀ =>
      obtain ⟨rfl, -⟩ := hone
      exact ⟨t, _, exec_of_enabled hrest
        (by simp [Access.enabled, (hA l t).mpr ((hheld l).mpr rfl)])⟩
  | acquire l =>
    cases hfree : σ.holder l with
    | none => exact ⟨t, _, exec_of_enabled hrest (by simp [Access.enabled, hfree])⟩
    | some u =>
      -- the holder of `l` is inside its `lock_guard`, where every next access is enabled
      obtain ⟨cur', hheld', hone'⟩ := hO u
      obtain rfl : cur' = some l := (hheld' l).mp ((hA l u).mp hfree)
      cases hu : (σ.threads u).rest with
      | nil => rw [hu] at hone'; exact hone'.elim
      | cons b rest' =>
        rw [hu] at hone'
        cases b with
        | acquire _ => exact hone'.elim
        | release l' =>
          obtain ⟨rfl, -⟩ := hone'
          exact ⟨u, _, exec_of_enabled hu (by simp [Access.enabled, hfree])⟩
        | read | write => exact ⟨u, _, exec_of_enabled hu rfl⟩

end Sched

/-! ## The calls keep to one lock at a time -/

theorem oneLock_withLock (l : Lock) {body : List Access}
    (hbody : ∀ a ∈ body, ∃ o, a = .read o ∨ a = .write o) :
    Sched.OneLock none (withLock l body) := by
  have hrun : ∀ {body : List Access}, (∀ a ∈ body, ∃ o, a = .read o ∨ a = .write o) →
      Sched.OneLock (some l) (body ++ [.release l]) := by
    intro body
    induction body with
    | nil => intro _; exact ⟨rfl, trivial⟩
    | cons a body ih =>
      intro hbody
      obtain ⟨o, rfl | rfl⟩ := hbody a (List.mem_cons_self _ _) <;>
        exact ih fun a ha => hbody a (List.mem_cons_of_mem _ ha)
  exact hrun hbody

theorem oneLock_searchTrace (found : Bool) :
    ∀ pools, Sched.OneLock none (searchTrace found pools)
  | 0 => trivial
  | pools + 1 => by
    show Sched.OneLock none (if found then [] else searchTrace found pools)
    split
    · trivial
    · exact oneLock_searchTrace found pools

theorem oneLock_allocateTrace (cfg : MemoryPoolConfig) (idx : Nat) :
    Sched.OneLock none (allocateTrace cfg idx false) := by
  refine .append ?_ (oneLock_withLock _ (by simp))
  split
  · exact oneLock_withLock _ (by simp)
  · trivial

theorem oneLock_deallocateTrace (cfg : MemoryPoolConfig) (pools : Nat) (pool : Option Nat)
    (found : Bool) : Sched.OneLock none (deallocateTrace cfg pools pool found) := by
  unfold deallocateTrace
  refine .append ?metrics (.append ?track (.append ?pool (oneLock_searchTrace found pools)))
  case pool =>
    cases pool with
    | none => trivial
    | some idx => exact oneLock_withLock _ (by simp)
  case track =>
    split
    · exact oneLock_withLock _ (by cases found <;> simp)
    · trivial
  case metrics =>
    split
    · trivial
    · trivial

namespace ThreadCall

/-- The call's `allocate`, if it makes one, finds a free block: it never reaches
`expand_pool`. -/
def findsFreeBlock : ThreadCall → Bool
  | .allocate _ empty | .reallocateGrows _ empty _ _ _ => !empty
  | _ => true

theorem oneLock (cfg : MemoryPoolConfig) {c : ThreadCall} (hc : c.findsFreeBlock = true) :
    Sched.OneLock none (c.trace cfg) := by
  cases c with
  | allocate idx empty =>
    obtain rfl : empty = false := by simpa [findsFreeBlock] using hc
    exact oneLock_allocateTrace cfg idx
  | deallocate pools pool found => exact oneLock_deallocateTrace cfg pools pool found
  | reallocateUntracked moved =>
    show Sched.OneLock none (if moved then trackAllocationTrace else [])
    split
    · exact oneLock_withLock _ (by simp)
    · trivial
  | reallocateGrows idx empty pools pool found =>
    obtain rfl : empty = false := by simpa [findsFreeBlock] using hc
    exact (oneLock_deallocateTrace cfg pools pool found).append (oneLock_allocateTrace cfg idx)
  | validateAllMemory enabled =>
    show Sched.OneLock none (validateAllMemoryTrace enabled)
    unfold validateAllMemoryTrace
    split
    · exact oneLock_withLock _ (by simp)
    · trivial
  | reallocateFits | getMemoryStats => trivial
  | detectLeaks | getAllocationHistory | clearTracking => exact oneLock_withLock _ (by simp)

end ThreadCall

theorem oneLock_flatMap (cfg : MemoryPoolConfig) {cs : List ThreadCall}
    (hcs : ∀ c ∈ cs, c.findsFreeBlock = true) :
    Sched.OneLock none (cs.flatMap (ThreadCall.trace cfg)) := by
  induction cs with
  | nil => trivial
  | cons c cs ih =>
    rw [List.flatMap_cons]
    exact (ih fun c' hc' => hcs c' (List.mem_cons_of_mem _ hc')).append
      (ThreadCall.oneLock cfg (hcs c (List.mem_cons_self _ _)))

/-! ## Deadlock -/

/--
Threads whose `allocate` calls all find a free block never deadlock, whatever they call and
however they interleave: as long as some thread has accesses left, some thread can make its
next one.
-/
theorem calls_never_deadlock (cfg : MemoryPoolConfig) (calls : Nat → List ThreadCall)
    (hcalls : ∀ t, ∀ c ∈ calls t, c.findsFreeBlock = true) {σ : Sched}
    (hrun : Relation.ReflTransGen Sched.Step
      (Sched.init fun t => (calls t).flatMap (ThreadCall.trace cfg)) σ)
    {t : Nat} (ht : (σ.threads t).rest ≠ []) : ∃ u σ', σ.exec u = some σ' := by
  obtain ⟨hA, hO⟩ := Sched.oneLock_of_run (fun t => oneLock_flatMap cfg (hcalls t)) hrun
  exact Sched.progress hA hO ht

theorem calls_never_deadlock_contended :
    (∀ t, ∀ c ∈ trackerCalls t, c.findsFreeBlock = true) ∧
    Relation.ReflTransGen Sched.Step
      (Sched.init fun t => (trackerCalls t).flatMap (ThreadCall.trace .default)) trackerSched ∧
    (trackerSched.threads 0).rest ≠ [] ∧ trackerSched.exec 0 = none ∧
    ∃ u σ', trackerSched.exec u = some σ' := by
  have hcalls : ∀ t, ∀ c ∈ trackerCalls t, c.findsFreeBlock = true := fun t => by
    unfold trackerCalls
    split_ifs <;> decide
  exact ⟨hcalls, trackerSched_run, by decide, rfl,
    @calls_never_deadlock .default trackerCalls hcalls _ trackerSched_run 0 (by decide)⟩

end NeuralMemory
