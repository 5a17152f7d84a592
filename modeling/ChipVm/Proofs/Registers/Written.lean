/-
What the registers hold, told by the history of their edits, the refused ones included. A register
holds the low byte of the last value written to it since the last clear, and zero if there is none.
An index outside the registers is refused without any change. A list of values that is too long is
refused only when it runs out of registers, so that its first sixteen values stay written.
-/
import ChipVm.Registers
import Mathlib.Data.List.DropRight
import Mathlib.Data.List.Induction

namespace ChipVm.Registers

/-! ## Histories of edits -/

/-- The registers after some edits, whether refused or not. -/
def editAll (r : Registers) (es : List Edit) : Registers := es.foldl (fun r e => (r.edit e).2) r

/-- The value that an edit writes to a register, if it writes one. -/
def Edit.value? (e : Edit) (x : Fin 16) : Option Int :=
  match e with
  | .set i v => if i = x.val then some v else none
  | .setFlag v => if x = flagIndex then some v else none
  | .clear => none
  | .load vs => vs[x.val]?

/-- What comes after the last clear of some edits, or all of them if there is none. -/
def sinceClear (es : List Edit) : List Edit := es.rtakeWhile (· ≠ .clear)

/-- The last value written to a register since the last clear. -/
def lastWritten? (es : List Edit) (x : Fin 16) : Option Int :=
  ((sinceClear es).filterMap (·.value? x)).getLast?

variable {e : Edit} {i : Int}

theorem editAll_concat (r : Registers) (es : List Edit) (e : Edit) :
    r.editAll (es ++ [e]) = ((r.editAll es).edit e).2 := by
  unfold editAll
  rw [List.foldl_append]
  rfl

theorem lastWritten?_clear (es : List Edit) (x : Fin 16) :
    lastWritten? (es ++ [.clear]) x = none := by
  have hnothing : sinceClear (es ++ [.clear]) = [] := List.rtakeWhile_concat_neg _ _ _ (by simp)
  rw [lastWritten?, hnothing]
  rfl

/-- An edit other than a clear is the last to write a register unless it leaves that one alone. -/
theorem lastWritten?_concat (es : List Edit) (he : e ≠ .clear) (x : Fin 16) :
    lastWritten? (es ++ [e]) x = (e.value? x).or (lastWritten? es x) := by
  have hsince : sinceClear (es ++ [e]) = sinceClear es ++ [e] :=
    List.rtakeWhile_concat_pos _ _ _ (by simpa using he)
  unfold lastWritten?
  rw [hsince, List.filterMap_append, List.getLast?_append]
  cases h : e.value? x <;> simp [h]

/-! ## Indices -/

theorem index_of_not_range (h : ¬(0 ≤ i ∧ i ≤ 15)) : index i = .error (.invalidRegister i) := by
  rw [index, nibble?_eq_none_iff.2 (by omega)]

theorem exists_fin_of_range (h : 0 ≤ i ∧ i ≤ 15) : ∃ x : Fin 16, i = (x.val : Int) := by
  refine ⟨⟨i.toNat, by omega⟩, ?_⟩
  show i = (i.toNat : Int)
  omega

theorem read_of_fin (r : Registers) (x : Fin 16) : r.read (x.val : Int) = .ok (r.get x) := by
  rw [read, index, nibble?_of_lt x.isLt]
  rfl

theorem edit_set_of_fin (r : Registers) (x : Fin 16) (v : Int) :
    r.edit (.set (x.val : Int) v) = (.ok (), r.set x (lowByte v)) := by
  rw [edit, write_of_lt r x.isLt v]

theorem read_of_not_range (r : Registers) (h : ¬(0 ≤ i ∧ i ≤ 15)) :
    r.read i = .error (.invalidRegister i) := by
  rw [read, index_of_not_range h]
  rfl

theorem edit_set_of_not_range (r : Registers) (h : ¬(0 ≤ i ∧ i ≤ 15)) (v : Int) :
    r.edit (.set i v) = (.error (.invalidRegister i), r) := by
  rw [edit, write, index_of_not_range h]
  rfl

/-! ## One edit -/

/-- Unless it is a clear, an edit gives each register the low byte of what it writes there, and
leaves the others as they are. -/
theorem get_edit (r : Registers) (he : e ≠ .clear) (x : Fin 16) :
    (r.edit e).2.get x = ((e.value? x).map lowByte).getD (r.get x) := by
  cases e with
  | set i v =>
    by_cases hi : 0 ≤ i ∧ i ≤ 15
    · obtain ⟨y, rfl⟩ := exists_fin_of_range hi
      rw [edit_set_of_fin, get_set, Edit.value?]
      by_cases hxy : y = x
      · subst hxy
        simp
      · have hne : (y.val : Int) ≠ x.val := by
          intro h
          exact hxy (Fin.ext (Int.ofNat_inj.1 h))
        rw [if_neg hxy, if_neg hne]
        rfl
    · have hne : i ≠ x.val := by omega
      rw [edit_set_of_not_range r hi, Edit.value?, if_neg hne]
      rfl
  | setFlag v =>
    rw [edit, get_setFlag, Edit.value?]
    split
    · rfl
    · rfl
  | clear => exact absurd rfl he
  | load vs =>
    rw [edit, load, get_loadFrom, if_pos (Nat.zero_le _), Nat.sub_zero]
    rfl

/-- The first sixteen values of a list are all that it writes. -/
theorem edit_load_take (r : Registers) (vs : List Int) :
    (r.edit (.load (vs.take 16))).2 = (r.edit (.load vs)).2 := by
  apply ext
  intro x
  rw [get_edit r (by simp), get_edit r (by simp), Edit.value?, Edit.value?,
    List.getElem?_take_of_lt x.isLt]

/-! ## All edits -/

/-- After any edits a register holds the low byte of the last value written to it. -/
theorem toNat_get_editAll (es : List Edit) (x : Fin 16) :
    (((zero.editAll es).get x).toNat : Int) = (lastWritten? es x).getD 0 % 256 := by
  induction es using List.reverseRecOn with
  | nil =>
    show ((zero.get x).toNat : Int) = 0
    rw [get_zero]
    rfl
  | append_singleton es e ih =>
    rw [editAll_concat]
    by_cases he : e = .clear
    · subst he
      rw [lastWritten?_clear]
      show ((zero.get x).toNat : Int) = 0
      rw [get_zero]
      rfl
    · rw [lastWritten?_concat es he, get_edit _ he]
      cases e.value? x with
      | none => exact ih
      | some v => exact toNat_lowByte v

/-- After any edits, refused ones included, each register holds the low byte of the last value that
was written to it since the last clear, or zero. Reading and writing are refused at the indices
outside the registers, with the index, and change nothing there. A list of values is refused if it
has more than sixteen, with the first index that is missing, after as many as there are registers
have been written; no other edit is refused. -/
theorem registers_hold_last_written (es : List Edit) :
    (∀ x : Fin 16, ∃ b, (zero.editAll es).read (x.val : Int) = .ok b ∧
      (b.toNat : Int) = (lastWritten? es x).getD 0 % 256) ∧
    ∀ r : Registers,
      (∀ i : Int,
        (0 ≤ i ∧ i ≤ 15 →
          (∃ b, r.read i = .ok b) ∧ ∀ v, (r.edit (.set i v)).1 = .ok ()) ∧
        (¬(0 ≤ i ∧ i ≤ 15) →
          r.read i = .error (.invalidRegister i) ∧
          ∀ v, r.edit (.set i v) = (.error (.invalidRegister i), r))) ∧
      (∀ v, (r.edit (.setFlag v)).1 = .ok ()) ∧
      (r.edit .clear).1 = .ok () ∧
      ∀ vs : List Int,
        (vs.length ≤ 16 → (r.edit (.load vs)).1 = .ok ()) ∧
        (16 < vs.length →
          (r.edit (.load vs)).1 = .error (.invalidRegister 16) ∧
          (r.edit (.load vs)).2 = (r.edit (.load (vs.take 16))).2) := by
  refine ⟨?_, fun r => ⟨?_, fun _ => rfl, rfl, ?_⟩⟩
  · intro x
    exact ⟨_, read_of_fin _ x, toNat_get_editAll es x⟩
  · intro i
    constructor
    · intro hi
      obtain ⟨x, rfl⟩ := exists_fin_of_range hi
      refine ⟨⟨_, read_of_fin r x⟩, ?_⟩
      intro v
      rw [edit_set_of_fin]
    · intro hi
      exact ⟨read_of_not_range r hi, edit_set_of_not_range r hi⟩
  · intro vs
    constructor
    · exact load_result r vs
    · intro hlong
      refine ⟨?_, (edit_load_take r vs).symm⟩
      rw [edit, load, loadFrom_result r (Nat.zero_le 16), if_pos (by omega)]

/-- A list that is too long, a clear, two values beyond a byte, an index below the registers and a
list over the first of the two. -/
def rewritten : List Edit :=
  [.load (List.replicate 17 7), .clear, .set 1 0x1FE, .setFlag (-1), .set (-1) 9, .load [5, 256]]

theorem rewritten_registers_hold_last :
    (∃ b, (zero.editAll rewritten).read 1 = .ok b ∧ (b.toNat : Int) = 0) ∧
    (∃ b, (zero.editAll rewritten).read 15 = .ok b ∧ (b.toNat : Int) = 255) ∧
    (∃ b, (zero.editAll rewritten).read 2 = .ok b ∧ (b.toNat : Int) = 0) ∧
    zero.read (-1) = .error (.invalidRegister (-1)) ∧
    (zero.edit (.set 16 9)).1 = .error (.invalidRegister 16) ∧
    (zero.edit (.load (List.replicate 17 7))).1 = .error (.invalidRegister 16) ∧
    (zero.edit (.load (List.replicate 17 7))).2 =
      (zero.edit (.load (List.replicate 16 7))).2 := by
  obtain ⟨hheld, hedits⟩ := registers_hold_last_written rewritten
  obtain ⟨hindex, -, -, hload⟩ := hedits zero
  obtain ⟨hlong, htaken⟩ := (hload (List.replicate 17 7)).2 (by decide)
  refine ⟨hheld 1, hheld 15, hheld 2, ((hindex (-1)).2 (by decide)).1, ?_, hlong, htaken⟩
  rw [((hindex 16).2 (by decide)).2 9]

end ChipVm.Registers
