/-
Positional numerals: the digits of a natural number to a base, most significant first, and the
number that a list of digits stands for. Reading back the digits of `n` gives `n`.
-/
namespace ChipVm.Digits

/-- The digits of `n` to `base`, most significant first; zero has the one digit zero. -/
def toBase (base n : Nat) : List Nat :=
  if base < 2 ∨ n < base then [n] else toBase base (n / base) ++ [n % base]
termination_by n
decreasing_by exact Nat.div_lt_self (by omega) (by omega)

/-- The number that a list of digits stands for. -/
def ofBase (base : Nat) (ds : List Nat) : Nat := ds.foldl (fun a d => base * a + d) 0

@[simp] theorem ofBase_append_singleton (base : Nat) (ds : List Nat) (d : Nat) :
    ofBase base (ds ++ [d]) = base * ofBase base ds + d := by
  simp [ofBase]

theorem ofBase_toBase (base n : Nat) : ofBase base (toBase base n) = n := by
  fun_induction toBase base n with
  | case1 n h => simp [ofBase]
  | case2 n h ih => rw [ofBase_append_singleton, ih, Nat.div_add_mod]

theorem lt_of_mem_toBase {base n d : Nat} (hb : 2 ≤ base) (hd : d ∈ toBase base n) : d < base := by
  fun_induction toBase base n with
  | case1 n h => simp at hd; omega
  | case2 n h ih =>
    rcases List.mem_append.1 hd with hd | hd
    · exact ih hd
    · simp at hd
      subst hd
      exact Nat.mod_lt _ (by omega)

theorem toBase_ne_nil (base n : Nat) : toBase base n ≠ [] := by
  unfold toBase
  split <;> simp

/-- The lower-case digit of a value below thirty-six. -/
def lower (d : Nat) : Char := if d < 10 then Char.ofNat (48 + d) else Char.ofNat (87 + d)

/-- The upper-case digit of a value below thirty-six. -/
def upper (d : Nat) : Char := if d < 10 then Char.ofNat (48 + d) else Char.ofNat (55 + d)

/-- The value of an ASCII digit to base sixteen, in either case. -/
def hexValue? (c : Char) : Option Nat :=
  let n := c.toNat
  if 48 ≤ n ∧ n < 58 then some (n - 48)
  else if 65 ≤ n ∧ n < 71 then some (n - 55)
  else if 97 ≤ n ∧ n < 103 then some (n - 87)
  else none

/-- The decimal numeral of an integer, with a minus sign for a negative one. -/
def decimalChars (n : Int) : List Char :=
  (if n < 0 then ['-'] else []) ++ (toBase 10 n.natAbs).map lower

/-- The decimal numeral of an integer as a string. -/
def decimal (n : Int) : String := String.ofList (decimalChars n)

/-- An upper-case numeral to base sixteen, filled with zeros up to `width`; a minus sign goes first
and counts towards the width. -/
def hexChars (width : Nat) (n : Int) : List Char :=
  let sign := if n < 0 then ['-'] else []
  let digits := (toBase 16 n.natAbs).map upper
  sign ++ List.replicate (width - sign.length - digits.length) '0' ++ digits

/-- An upper-case numeral to base sixteen as a string. -/
def hex (width : Nat) (n : Int) : String := String.ofList (hexChars width n)

/-- The lower-case numeral of a natural number to base sixteen. -/
def lowerHex (n : Nat) : String := String.ofList ((toBase 16 n).map lower)

end ChipVm.Digits
