/-
Sixteen byte registers `V0` to `VF`. An index outside `0..15` is refused and never wraps around; a
value is stored as its low eight bits.
-/
import ChipVm.Byte
import ChipVm.Fault

namespace ChipVm

/-- The sixteen registers. -/
structure Registers where
  cells : Vector UInt8 16
  deriving DecidableEq

namespace Registers

/-- How many registers there are. -/
def count : Nat := 16

/-- The register that takes the flag of an operation. -/
def flagIndex : Fin 16 := Fin.last 15

/-- All registers zero. -/
def zero : Registers := ⟨Vector.replicate 16 0⟩

instance : Inhabited Registers := ⟨zero⟩

/-- The value of a register. -/
def get (r : Registers) (x : Fin 16) : UInt8 := r.cells[x]

/-- Gives a register a value. -/
def set (r : Registers) (x : Fin 16) (v : UInt8) : Registers := ⟨r.cells.set x v⟩

theorem ext {r s : Registers} (h : ∀ x, r.get x = s.get x) : r = s := by
  obtain ⟨a⟩ := r
  obtain ⟨b⟩ := s
  congr 1
  exact Vector.ext fun i hi => h ⟨i, hi⟩

theorem get_set (r : Registers) (x y : Fin 16) (v : UInt8) :
    (r.set x v).get y = if x = y then v else r.get y := by
  simp only [get, set, Fin.getElem_fin, Vector.getElem_set, Fin.ext_iff]

@[simp] theorem get_zero (x : Fin 16) : zero.get x = 0 := by simp [get, zero]

/-- Writes the flag register. -/
def setFlag (r : Registers) (v : UInt8) : Registers := r.set flagIndex v

theorem get_setFlag (r : Registers) (v : UInt8) (x : Fin 16) :
    (r.setFlag v).get x = if x = flagIndex then v else r.get x := by
  simp only [setFlag, get_set, eq_comm]

/-! ## Access by any integer -/

-- Irreducible, as reducing the comparisons of an index that is not known takes very long.
/-- The register with a given index. -/
@[irreducible] def index (i : Int) : Except Fault (Fin 16) :=
  match nibble? i with
  | some x => .ok x
  | none => .error (.invalidRegister i)

/-- The value of the register with a given index. -/
def read (r : Registers) (i : Int) : Except Fault UInt8 := (index i).map r.get

/-- Gives the register with a given index a value. -/
def write (r : Registers) (i v : Int) : Except Fault Registers :=
  (index i).map fun x => r.set x (lowByte v)

/-- Writes values into the registers from an index on, one after another. A value that finds no
register is refused, and what was written before it stays. -/
def loadFrom (r : Registers) (i : Nat) : List Int → Except Fault Unit × Registers
  | [] => (.ok (), r)
  | v :: vs =>
    match r.write i v with
    | .error e => (.error e, r)
    | .ok written => written.loadFrom (i + 1) vs

/-- Writes values into `V0`, `V1` and so on. -/
def load (r : Registers) (vs : List Int) : Except Fault Unit × Registers := r.loadFrom 0 vs

theorem write_of_lt (r : Registers) {i : Nat} (h : i < 16) (v : Int) :
    r.write i v = .ok (r.set ⟨i, h⟩ (lowByte v)) := by
  rw [write, index, nibble?_of_lt h]
  rfl

theorem write_of_le (r : Registers) {i : Nat} (h : 16 ≤ i) (v : Int) :
    r.write i v = .error (.invalidRegister i) := by
  rw [write, index, nibble?_eq_none_iff.2 (by omega)]
  rfl

/-- The seventeenth register is the first that is missing. -/
theorem loadFrom_result (r : Registers) {i : Nat} (hi : i ≤ 16) (vs : List Int) :
    (r.loadFrom i vs).1 =
      if 16 < i + vs.length then .error (.invalidRegister 16) else .ok () := by
  induction vs generalizing r i with
  | nil => rw [if_neg (by simpa using hi)]; rfl
  | cons v vs ih =>
    rw [loadFrom, List.length_cons]
    by_cases h : i < 16
    · rw [write_of_lt r h v]
      simp only
      rw [ih _ h]
      congr 2
      omega
    · obtain rfl : i = 16 := by omega
      rw [write_of_le r (Nat.le_refl 16) v, if_pos (by omega)]
      rfl

theorem load_result (r : Registers) (vs : List Int) (h : vs.length ≤ 16) :
    (r.load vs).1 = .ok () := by
  rw [load, loadFrom_result r (Nat.zero_le 16), if_neg (by omega)]

/-- Each register from the index on takes its value, as far as there are values. -/
theorem get_loadFrom (r : Registers) (i : Nat) (vs : List Int) (x : Fin 16) :
    (r.loadFrom i vs).2.get x =
      if i ≤ x then ((vs[x.val - i]?).map lowByte).getD (r.get x) else r.get x := by
  have hx := x.isLt
  induction vs generalizing r i with
  | nil => simp [loadFrom]
  | cons v vs ih =>
    rw [loadFrom]
    by_cases h : i < 16
    · rw [write_of_lt r h v]
      simp only
      rw [ih, get_set]
      rcases Nat.lt_trichotomy i x.val with hlt | rfl | hgt
      · have hne : (⟨i, h⟩ : Fin 16) ≠ x := fun e => by simp [← e] at hlt
        rw [if_pos (by omega), if_neg hne, if_pos (by omega),
          show x.val - i = x.val - (i + 1) + 1 by omega, List.getElem?_cons_succ]
      · rw [if_neg (by omega), if_pos rfl, if_pos (Nat.le_refl _), Nat.sub_self]
        rfl
      · have hne : (⟨i, h⟩ : Fin 16) ≠ x := fun e => by simp [← e] at hgt
        rw [if_neg (by omega), if_neg hne, if_neg (by omega)]
    · rw [write_of_le r (by omega) v, if_neg (by omega)]

/-! ## Text -/

/-- How the registers are shown. -/
def literal (r : Registers) : String :=
  let cell (x : Fin 16) := "V" ++ Digits.hex 0 x.val ++ "=" ++ Digits.hex 2 (r.get x).toNat
  "RegisterFile(" ++ " ".intercalate ((List.finRange 16).map cell) ++ ")"

/-! ## Edits -/

/-- A change that a host may make. -/
inductive Edit where
  | set (i v : Int)
  | setFlag (v : Int)
  | clear
  | load (vs : List Int)
  deriving DecidableEq

/-- Makes a change; what fails halfway keeps what was written before. -/
def edit (r : Registers) : Edit → Except Fault Unit × Registers
  | .set i v =>
    match r.write i v with
    | .ok r => (.ok (), r)
    | .error e => (.error e, r)
  | .setFlag v => (.ok (), r.setFlag (lowByte v))
  | .clear => (.ok (), zero)
  | .load vs => r.load vs

end Registers

end ChipVm
