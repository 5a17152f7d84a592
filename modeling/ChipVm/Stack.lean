/-
The call stack: sixteen slots, of which the first `depth` are in use. A slot keeps what was pushed
last; what lies above the depth is never read before it is pushed over.
-/

namespace ChipVm

/-- The slots and how many of them are in use. -/
structure Stack where
  slots : Vector Nat 16
  depth : Nat
  depth_le : depth ≤ 16 := by decide
  deriving DecidableEq

namespace Stack

/-- Nothing in use and every slot zero. -/
def empty : Stack := { slots := Vector.replicate 16 0, depth := 0 }

instance : Inhabited Stack := ⟨empty⟩

/-- The addresses in use, oldest first. -/
def live (s : Stack) : List Nat := s.slots.toList.take s.depth

/-- The stack with one more address, if there is a slot for it. -/
def push? (s : Stack) (address : Nat) : Option Stack :=
  if h : s.depth < 16 then
    some { slots := s.slots.set s.depth address, depth := s.depth + 1, depth_le := h }
  else none

/-- The newest address and the stack without it, if there is one. -/
def pop? (s : Stack) : Option (Nat × Stack) :=
  if h : 0 < s.depth then
    have := s.depth_le
    some (s.slots[s.depth - 1], { s with depth := s.depth - 1, depth_le := by omega })
  else none

/-! ## The live addresses -/

@[simp] theorem live_empty : empty.live = [] := rfl

theorem length_live (s : Stack) : s.live.length = s.depth := by
  simpa [live] using Nat.min_eq_left s.depth_le

theorem push?_eq_none_iff {s : Stack} {address : Nat} : s.push? address = none ↔ s.depth = 16 := by
  have := s.depth_le
  unfold push?
  split <;> simp <;> omega

theorem pop?_eq_none_iff {s : Stack} : s.pop? = none ↔ s.depth = 0 := by
  unfold pop?
  split <;> simp <;> omega

/-- A push puts its address behind the live ones. -/
theorem live_push? {s t : Stack} {address : Nat} (h : s.push? address = some t) :
    t.live = s.live ++ [address] := by
  unfold push? at h
  split at h
  · rename_i hd
    cases h
    simp only [live, Vector.toList_set]
    rw [List.take_succ_eq_append_getElem (by simpa using hd), List.take_set_of_le (Nat.le_refl _),
      List.getElem_set_self]
  · cases h

/-- A pop takes the last live address. -/
theorem live_pop? {s t : Stack} {address : Nat} (h : s.pop? = some (address, t)) :
    s.live = t.live ++ [address] := by
  unfold pop? at h
  split at h
  · rename_i hd
    cases h
    have hle := s.depth_le
    simp only [live]
    conv => lhs; rw [show s.depth = s.depth - 1 + 1 by omega]
    rw [List.take_succ_eq_append_getElem (by simp; omega), Vector.getElem_toList]
  · cases h

end Stack

end ChipVm
