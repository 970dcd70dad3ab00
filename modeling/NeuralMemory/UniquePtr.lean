import NeuralMemory.Basic

/-!
# `NeuralUniquePtr`

The RAII handle of the header holds `ptr` and the flag `managed`.  Its destructor, `reset`
and a move assignment over it pass `ptr` to `NeuralMemoryManager::deallocate` when `ptr`
is non-null and `managed` is set.  A move and `release` clear the flag of the handle they
empty, and nothing sets it again: `reset` keeps the flag it finds.

A `World` is a program's handles, by the address of each handle object, with the pointers
passed to `deallocate` so far, in order.  A pointer stands for one allocation: a handle
may only acquire null or a pointer that no handle holds and that was never given back
(`World.canAcquire`).  Under that rule no handle ever holds a pointer that was given back,
and none is given back twice (`World.run_giveBack_once`).
-/

namespace NeuralMemory

structure NeuralUniquePtr where
  ptr : Nat
  managed : Bool
  deriving DecidableEq, Repr

namespace NeuralUniquePtr

/-- What a move or `release` leaves in the handle it empties. -/
def cleared : NeuralUniquePtr := ⟨0, false⟩

/-- The pointer the handle holds, if it is not null. -/
def held (u : NeuralUniquePtr) : List Nat := if u.ptr = 0 then [] else [u.ptr]

/-- What the destructor, `reset` and a move assignment over the handle pass to `deallocate`. -/
def dropped (u : NeuralUniquePtr) : List Nat := if u.ptr ≠ 0 ∧ u.managed then [u.ptr] else []

@[simp] theorem held_cleared : cleared.held = [] := rfl

theorem dropped_sublist_held (u : NeuralUniquePtr) : u.dropped.Sublist u.held := by
  unfold dropped held
  split_ifs with h₁ h₂ <;> simp_all

theorem mem_held {u : NeuralUniquePtr} {p : Nat} : p ∈ u.held ↔ p ≠ 0 ∧ p = u.ptr := by
  unfold held
  split_ifs with h <;> simp [h]
  rintro rfl; exact h

end NeuralUniquePtr

/-- Handles by the address of the handle object. -/
abbrev Handles := AList (fun _ : Nat => NeuralUniquePtr)

structure World where
  handles : Handles
  deallocated : List Nat

inductive HandleOp where
  /-- `NeuralUniquePtr self(p)`, with `auto_manage` at its default. -/
  | construct (self p : Nat)
  /-- `NeuralUniquePtr self(std::move(other))`. -/
  | moveConstruct (self other : Nat)
  /-- `self = std::move(other)`. -/
  | moveAssign (self other : Nat)
  | reset (self p : Nat)
  | release (self : Nat)
  | destroy (self : Nat)
  deriving DecidableEq, Repr

/-- The pointer an operation makes a handle take: the argument of a constructor or `reset`. -/
def HandleOp.acquired : HandleOp → Nat
  | .construct _ p | .reset _ p => p
  | _ => 0

namespace World

/-- One operation; `none` when it names a handle that does not exist or builds one that does. -/
def step (w : World) : HandleOp → Option World
  | .construct self p =>
      if self ∈ w.handles then none
      else some ⟨w.handles.insert self ⟨p, true⟩, w.deallocated⟩
  | .moveConstruct self other =>
      match w.handles.lookup other with
      | some o =>
          if self ∈ w.handles then none
          else some ⟨(w.handles.insert other .cleared).insert self o, w.deallocated⟩
      | none => none
  | .moveAssign self other =>
      match w.handles.lookup self, w.handles.lookup other with
      | some u, some o =>
          if self = other then some w
          else
            some ⟨(w.handles.insert self o).insert other .cleared, w.deallocated ++ u.dropped⟩
      | _, _ => none
  | .reset self p =>
      match w.handles.lookup self with
      | some u => some ⟨w.handles.insert self { u with ptr := p }, w.deallocated ++ u.dropped⟩
      | none => none
  | .release self =>
      match w.handles.lookup self with
      | some _ => some ⟨w.handles.insert self .cleared, w.deallocated⟩
      | none => none
  | .destroy self =>
      match w.handles.lookup self with
      | some u => some ⟨w.handles.erase self, w.deallocated ++ u.dropped⟩
      | none => none

/-- A pointer a handle may acquire: null, or one no handle holds and never given back. -/
def canAcquire (w : World) (p : Nat) : Bool :=
  p == 0 || (w.handles.entries.all (fun e => e.2.ptr != p) && !w.deallocated.contains p)

/-- The precondition the operation's pointer argument must meet. -/
def allowed (w : World) : HandleOp → Bool
  | .construct _ p | .reset _ p => w.canAcquire p
  | _ => true

/-- A run of the program: each operation allowed where it is made, and none failing. -/
def run (w : World) : List HandleOp → Option World
  | [] => some w
  | o :: os => if w.allowed o then (w.step o).bind (run · os) else none

/-! ## Pointers held and given back -/

/-- The non-null pointers the handles hold, one per handle that holds one. -/
def heldPtrs (handles : Handles) : List Nat := handles.entries.flatMap (·.2.held)

/-- No pointer is held twice, given back twice, or both held and given back. -/
def Inv (w : World) : Prop := (heldPtrs w.handles ++ w.deallocated).Nodup

theorem heldPtrs_insert (t : Handles) (self : Nat) (u : NeuralUniquePtr) :
    heldPtrs (t.insert self u) = u.held ++ heldPtrs (t.erase self) := by
  simp only [heldPtrs, AList.insert_entries, List.flatMap_cons]
  rfl

theorem heldPtrs_perm {t : Handles} {self : Nat} {u : NeuralUniquePtr}
    (hu : t.lookup self = some u) : (heldPtrs t).Perm (u.held ++ heldPtrs (t.erase self)) := by
  obtain ⟨l₁, l₂, hl, herase⟩ := entries_split_of_lookup hu
  simp only [heldPtrs, hl, herase, List.flatMap_append, List.flatMap_cons]
  rw [← List.append_assoc, ← List.append_assoc]
  exact List.perm_append_comm.append_right _

theorem heldPtrs_replace {t : Handles} {self : Nat} {u : NeuralUniquePtr}
    (hu : t.lookup self = some u) (v : NeuralUniquePtr) :
    (u.held ++ heldPtrs (t.insert self v)).Perm (v.held ++ heldPtrs t) := by
  rw [heldPtrs_insert, ← List.append_assoc]
  refine (List.perm_append_comm.append_right _).trans ?_
  rw [List.append_assoc]
  exact (heldPtrs_perm hu).symm.append_left _

theorem heldPtrs_clear {t : Handles} {self : Nat} {u : NeuralUniquePtr}
    (hu : t.lookup self = some u) :
    (u.held ++ heldPtrs (t.insert self .cleared)).Perm (heldPtrs t) := by
  simpa using heldPtrs_replace hu .cleared

theorem heldPtrs_insert_of_not_mem {t : Handles} {self : Nat} (hself : self ∉ t)
    (v : NeuralUniquePtr) : heldPtrs (t.insert self v) = v.held ++ heldPtrs t := by
  rw [heldPtrs_insert, erase_of_not_mem hself]

theorem canAcquire_fresh {w : World} {p : Nat} (h : w.canAcquire p = true) (hp : p ≠ 0) :
    p ∉ heldPtrs w.handles ∧ p ∉ w.deallocated := by
  simp only [canAcquire, Bool.or_eq_true, beq_iff_eq, hp, false_or, Bool.and_eq_true,
    List.all_eq_true, bne_iff_ne, ne_eq, Bool.not_eq_true'] at h
  refine ⟨fun hmem => ?_, by simpa using h.2⟩
  obtain ⟨e, he, hp'⟩ := List.mem_flatMap.mp hmem
  exact h.1 e he (NeuralUniquePtr.mem_held.mp hp').2.symm

theorem ne_zero_of_mem_heldPtrs {t : Handles} {p : Nat} (hp : p ∈ heldPtrs t) : p ≠ 0 := by
  obtain ⟨e, -, he⟩ := List.mem_flatMap.mp hp
  exact (NeuralUniquePtr.mem_held.mp he).1

theorem canAcquire_of_not_mem {w : World} {p : Nat} (hheld : p ∉ heldPtrs w.handles)
    (hlog : p ∉ w.deallocated) : w.canAcquire p = true := by
  by_cases hp : p = 0
  · simp [canAcquire, hp]
  · simp only [canAcquire, Bool.or_eq_true, beq_iff_eq, hp, false_or, Bool.and_eq_true,
      List.all_eq_true, bne_iff_ne, ne_eq, Bool.not_eq_true']
    exact ⟨fun e he hep => hheld (List.mem_flatMap.mpr
      ⟨e, he, NeuralUniquePtr.mem_held.mpr ⟨hep ▸ hp, hep.symm⟩⟩), by simpa using hlog⟩

theorem allowed_of_acquired {w : World} {o : HandleOp}
    (ho : o.acquired = 0 ∨ o.acquired ∉ heldPtrs w.handles ∧ o.acquired ∉ w.deallocated) :
    w.allowed o = true := by
  cases o <;> simp only [allowed, HandleOp.acquired] at ho ⊢
  all_goals
    rcases ho with ho | ⟨hheld, hlog⟩
    · simp [canAcquire, ho]
    · exact canAcquire_of_not_mem hheld hlog

theorem nodup_acquire {w : World} (u : NeuralUniquePtr) (hw : w.Inv)
    (hu : w.canAcquire u.ptr = true) : (u.held ++ (heldPtrs w.handles ++ w.deallocated)).Nodup := by
  unfold NeuralUniquePtr.held
  split_ifs with h
  · exact hw
  · obtain ⟨h₁, h₂⟩ := canAcquire_fresh hu h
    exact List.nodup_cons.mpr ⟨by simpa [h₁] using h₂, hw⟩

theorem nodup_drop {u : NeuralUniquePtr} {held held' log : List Nat}
    (hperm : (u.held ++ held').Perm held) (hnd : (held ++ log).Nodup) :
    (held' ++ (log ++ u.dropped)).Nodup := by
  have hsub : (u.dropped ++ (held' ++ log)).Sublist (u.held ++ (held' ++ log)) :=
    u.dropped_sublist_held.append (List.Sublist.refl _)
  have hnd' : (u.held ++ (held' ++ log)).Nodup := by
    rw [← List.append_assoc]; exact (hperm.append_right log).nodup_iff.mpr hnd
  refine (List.Perm.nodup_iff ?_).mp (hsub.nodup hnd')
  simpa only [List.append_assoc] using
    (List.perm_append_comm : (u.dropped ++ (held' ++ log)).Perm _)

theorem Inv.step {w w' : World} {o : HandleOp} (hw : w.Inv) (ho : w.allowed o = true)
    (hs : w.step o = some w') : w'.Inv := by
  cases o <;> simp only [World.step] at hs
  case construct self p =>
    split_ifs at hs with hself
    cases hs
    simpa only [Inv, heldPtrs_insert_of_not_mem hself, List.append_assoc] using
      nodup_acquire ⟨p, true⟩ hw ho
  case moveConstruct self other =>
    split at hs
    · next o ho' =>
      split_ifs at hs with hself
      cases hs
      have hne : self ≠ other := fun h => hself (h ▸ AList.lookup_isSome.mp (by simp [ho']))
      have hself' : self ∉ w.handles.insert other .cleared := by
        simp [AList.mem_insert, hne, hself]
      rw [Inv, heldPtrs_insert_of_not_mem hself']
      exact ((heldPtrs_clear ho').append_right _).nodup_iff.mpr hw
    · cases hs
  case moveAssign self other =>
    split at hs
    · next u o hu ho' =>
      split_ifs at hs with hso
      · cases hs; exact hw
      · cases hs
        have h₂ := heldPtrs_clear (show (w.handles.insert self o).lookup other = some o by
          rw [AList.lookup_insert_ne (Ne.symm hso), ho'])
        exact nodup_drop ((List.perm_append_left_iff o.held).mp
          ((List.perm_append_comm_assoc _ _ _).symm.trans
            ((h₂.append_left u.held).trans (heldPtrs_replace hu o)))) hw
    · cases hs
  case reset self p =>
    split at hs
    · next u hu =>
      cases hs
      have hfresh := nodup_acquire { u with ptr := p } hw ho
      rw [← List.append_assoc] at hfresh
      exact nodup_drop (heldPtrs_replace hu _) hfresh
    · cases hs
  case release self =>
    split at hs
    · next u hu =>
      cases hs
      exact (nodup_drop (heldPtrs_clear hu) hw).sublist
        ((List.sublist_append_left _ _).append_left _)
    · cases hs
  case destroy self =>
    split at hs
    · next u hu =>
      cases hs
      exact nodup_drop (heldPtrs_perm hu).symm hw
    · cases hs

theorem Inv.run {w w' : World} {os : List HandleOp} (hw : w.Inv) (hrun : w.run os = some w') :
    w'.Inv := by
  induction os generalizing w with
  | nil => cases hrun; exact hw
  | cons o os ih =>
    simp only [World.run] at hrun
    split_ifs at hrun with ho
    obtain ⟨w₁, hs, hrest⟩ := Option.bind_eq_some.mp hrun
    exact ih (hw.step ho hs) hrest

theorem inv_empty : Inv ⟨∅, []⟩ := by
  simp [Inv, heldPtrs]

theorem heldPtrs_erase_subset (t : Handles) (self : Nat) :
    heldPtrs (t.erase self) ⊆ heldPtrs t := by
  cases hu : t.lookup self with
  | none => rw [erase_of_not_mem (AList.lookup_eq_none.mp hu)]; exact List.Subset.refl _
  | some u => exact fun _ hp => (heldPtrs_perm hu).symm.subset (List.mem_append_right _ hp)

theorem held_subset_heldPtrs {t : Handles} {self : Nat} {u : NeuralUniquePtr}
    (hu : t.lookup self = some u) : u.held ⊆ heldPtrs t :=
  fun _ hp => (heldPtrs_perm hu).symm.subset (List.mem_append_left _ hp)

theorem mem_heldPtrs_insert {t : Handles} {self p : Nat} {v : NeuralUniquePtr}
    (hp : p ∈ heldPtrs (t.insert self v)) : p ∈ v.held ∨ p ∈ heldPtrs t := by
  rw [heldPtrs_insert] at hp
  exact (List.mem_append.mp hp).imp_right fun hp => heldPtrs_erase_subset t self hp

theorem mem_append_dropped {t : Handles} {self p : Nat} {u : NeuralUniquePtr} {log : List Nat}
    (hu : t.lookup self = some u) (hp : p ∈ log ++ u.dropped) : p ∈ heldPtrs t ++ log := by
  rcases List.mem_append.mp hp with hp | hp
  · exact List.mem_append_right _ hp
  · exact List.mem_append_left _ (held_subset_heldPtrs hu (u.dropped_sublist_held.subset hp))

theorem step_mem {w w' : World} {o : HandleOp} (hs : w.step o = some w') {p : Nat}
    (hp : p ∈ heldPtrs w'.handles ++ w'.deallocated) :
    p ∈ heldPtrs w.handles ++ w.deallocated ∨ p = o.acquired := by
  have old : p ∈ heldPtrs w.handles → p ∈ heldPtrs w.handles ++ w.deallocated :=
    List.mem_append_left _
  cases o <;> simp only [World.step] at hs
  case construct self q =>
    split_ifs at hs
    cases hs
    rcases List.mem_append.mp hp with hp | hp
    · exact (mem_heldPtrs_insert hp).elim (fun hq => .inr (NeuralUniquePtr.mem_held.mp hq).2)
        fun hq => .inl (old hq)
    · exact .inl (List.mem_append_right _ hp)
  case moveConstruct self other =>
    split at hs
    · next o ho =>
      split_ifs at hs
      cases hs
      rcases List.mem_append.mp hp with hp | hp
      · rcases mem_heldPtrs_insert hp with hp | hp
        · exact .inl (old (held_subset_heldPtrs ho hp))
        · exact .inl (old ((mem_heldPtrs_insert hp).resolve_left (by simp)))
      · exact .inl (List.mem_append_right _ hp)
    · cases hs
  case moveAssign self other =>
    split at hs
    · next u o hu ho =>
      split_ifs at hs
      · cases hs; exact .inl hp
      · cases hs
        rcases List.mem_append.mp hp with hp | hp
        · rcases mem_heldPtrs_insert ((mem_heldPtrs_insert hp).resolve_left (by simp)) with
            hp | hp
          · exact .inl (old (held_subset_heldPtrs ho hp))
          · exact .inl (old hp)
        · exact .inl (mem_append_dropped hu hp)
    · cases hs
  case reset self q =>
    split at hs
    · next u hu =>
      cases hs
      rcases List.mem_append.mp hp with hp | hp
      · exact (mem_heldPtrs_insert hp).elim (fun hq => .inr (NeuralUniquePtr.mem_held.mp hq).2)
          fun hq => .inl (old hq)
      · exact .inl (mem_append_dropped hu hp)
    · cases hs
  case release self =>
    split at hs
    · cases hs
      rcases List.mem_append.mp hp with hp | hp
      · exact .inl (old ((mem_heldPtrs_insert hp).resolve_left (by simp)))
      · exact .inl (List.mem_append_right _ hp)
    · cases hs
  case destroy self =>
    split at hs
    · next u hu =>
      cases hs
      rcases List.mem_append.mp hp with hp | hp
      · exact .inl (old (heldPtrs_erase_subset _ _ hp))
      · exact .inl (mem_append_dropped hu hp)
    · cases hs

end World

/--
In every run from no handles, no pointer is given back twice, and no handle holds a
pointer that has been given back.
-/
theorem run_giveBack_once {ops : List HandleOp} {w : World}
    (hrun : World.run ⟨∅, []⟩ ops = some w) :
    w.deallocated.Nodup ∧
      ∀ self u, w.handles.lookup self = some u → u.ptr ≠ 0 → u.ptr ∉ w.deallocated := by
  have hinv := World.inv_empty.run hrun
  refine ⟨(List.nodup_append.mp hinv).2.1, fun self u hu hp hmem => ?_⟩
  have hheld : u.ptr ∈ World.heldPtrs w.handles :=
    List.mem_flatMap.mpr
      ⟨⟨self, u⟩, AList.mem_lookup_iff.mp hu, NeuralUniquePtr.mem_held.mpr ⟨hp, rfl⟩⟩
  exact (List.nodup_append.mp hinv).2.2 hheld hmem

/-- Handles 1 and 2 take `4120` and `4184`; handle 1 is moved into handle 2, which gives
`4184` back, and handle 2 is then reset to `4248`, giving `4120` back. -/
def movedOps : List HandleOp :=
  [.construct 1 4120, .construct 2 4184, .moveAssign 2 1, .reset 2 4248]

def movedWorld : World := (World.run ⟨∅, []⟩ movedOps).getD ⟨∅, []⟩

theorem run_giveBack_once_moved :
    World.run ⟨∅, []⟩ movedOps = some movedWorld ∧
    movedWorld.deallocated = [4184, 4120] ∧ movedWorld.handles.lookup 2 = some ⟨4248, true⟩ ∧
    (movedWorld.deallocated.Nodup ∧
      ∀ self u, movedWorld.handles.lookup self = some u → u.ptr ≠ 0 →
        u.ptr ∉ movedWorld.deallocated) :=
  ⟨rfl, rfl, rfl, run_giveBack_once (show World.run ⟨∅, []⟩ movedOps = some movedWorld from rfl)⟩

/--
Move out of a handle, `reset` it to a second pointer, then destroy both: the moved-from
handle's flag stays clear, so the second pointer is never given back.
-/
theorem reset_after_move_never_given_back :
    World.run ⟨∅, []⟩
        [.construct 1 4120, .moveConstruct 2 1, .reset 1 4184, .destroy 1, .destroy 2] =
      some ⟨∅, [4120]⟩ := by
  rfl

end NeuralMemory
