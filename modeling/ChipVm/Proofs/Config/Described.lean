/-
Which objects describe a configuration, and why the others are refused. A choice is told by its
name and a rate by a value that counts as an integer; a field that is absent stands for its standard
value, and a field with another name for nothing. Of several bad fields the first one is told: the
shift operand, then the block choice, then the rate, and the sign of the rate last. From arguments a
host can also pick a configuration whose rate is not an integer.
-/
import ChipVm.Proofs.Config.Saved

namespace ChipVm

theorem ShiftOperand.ofName?_eq_some_iff {t : Text} {s : ShiftOperand} :
    ofName? t = some s ↔ t = s.name := by
  constructor
  · intro h
    grind [ofName?]
  · rintro rfl
    exact ofName?_name s

theorem BlockIndex.ofName?_eq_some_iff {t : Text} {b : BlockIndex} :
    ofName? t = some b ↔ t = b.name := by
  constructor
  · intro h
    grind [ofName?]
  · rintro rfl
    exact ofName?_name b

/-- Whether `k` is the whole part of `mantissa * 2 ^ exponent`. -/
def Binary64.IsWholePart (mantissa : Nat) (exponent : Int) (k : Nat) : Prop :=
  k * Nat.pow 2 (-exponent).toNat ≤ mantissa * Nat.pow 2 exponent.toNat ∧
    mantissa * Nat.pow 2 exponent.toNat < (k + 1) * Nat.pow 2 (-exponent).toNat

instance {mantissa k : Nat} {exponent : Int} :
    Decidable (Binary64.IsWholePart mantissa exponent k) :=
  inferInstanceAs (Decidable (_ ∧ _))

theorem Binary64.wholePart_eq_iff {mantissa k : Nat} {exponent : Int} :
    wholePart mantissa exponent = k ↔ IsWholePart mantissa exponent k := by
  have hpos : 0 < Nat.pow 2 (-exponent).toNat := Nat.pow_pos (by decide)
  unfold wholePart IsWholePart
  rw [Nat.div_eq_iff hpos, Nat.add_one_mul]
  omega

namespace Config

/-! ## Descriptions -/

/-- Whether a field makes a choice: it holds the name of it, or it is absent and this is the
standard choice. -/
inductive Chooses {α : Type} (name : α → String) (standard : α) : Option Json → α → Prop
  | absent : Chooses name standard none standard
  | named (a : α) : Chooses name standard (some (.str (name a))) a

/-- Whether a value counts as an integer: a truth value counts as one or zero, a real is cut toward
zero, and a text counts as what it is the numeral of. -/
inductive Counts : Json → Int → Prop
  | whole (n : Int) : Counts (.int n) n
  | flag (b : Bool) : Counts (.bool b) (if b then 1 else 0)
  | real (negative : Bool) {mantissa k : Nat} {exponent : Int}
      (h : Binary64.IsWholePart mantissa exponent k) :
      Counts (.real (.finite negative mantissa exponent)) (if negative then -(k : Int) else k)
  | numeral {t : Text} {n : Int} (h : Numeral.read t = .ok n) : Counts (.str t) n

/-- Why a value does not count as an integer. -/
inductive Uncounted : Json → Error → Prop
  | null : Uncounted .null (.rateKind .null)
  | list (items : List Json) : Uncounted (.arr items) (.rateKind (.arr items))
  | object (fields : Json.Fields) : Uncounted (.obj fields) (.rateKind (.obj fields))
  | notANumber : Uncounted (.real .nan) .rateNotANumber
  | infinite (negative : Bool) : Uncounted (.real (.infinite negative)) .rateInfinite
  | malformed {t : Text} (h : Numeral.read t = .error .malformed) :
      Uncounted (.str t) (.rateNumeral t)
  | tooLong {t : Text} {digits : Nat} (h : Numeral.read t = .error (.tooLong digits)) :
      Uncounted (.str t) (.numeralTooLong digits)

/-- Whether a field gives a rate: its value counts as it, or it is absent and this is the standard
rate. -/
inductive GivesRate : Option Json → Int → Prop
  | absent : GivesRate none 700
  | counted {v : Json} {n : Int} (h : Counts v n) : GivesRate (some v) n

/-- What it takes for some fields to describe a configuration: two make its choices and one gives
its rate, which is above zero. -/
structure Describes (fields : Json.Fields) (c : Config) : Prop where
  shift : Chooses ShiftOperand.name .vx (fields.get? "shift") c.shift
  block : Chooses BlockIndex.name .keep (fields.get? "load_store") c.block
  rate : ∃ n, GivesRate (fields.get? "clock_hz") n ∧ 1 ≤ n ∧ c.rate = .whole n

/-- The first reason why some fields describe no configuration, whatever the fields behind it
hold. -/
inductive FirstRefusal (fields : Json.Fields) : Error → Prop
  | shift {v : Json} (hv : fields.get? "shift" = some v)
      (hshift : ∀ s, ¬Chooses ShiftOperand.name .vx (some v) s) :
      FirstRefusal fields (.shiftName v)
  | block {s : ShiftOperand} {v : Json}
      (hshift : Chooses ShiftOperand.name .vx (fields.get? "shift") s)
      (hv : fields.get? "load_store" = some v)
      (hblock : ∀ b, ¬Chooses BlockIndex.name .keep (some v) b) :
      FirstRefusal fields (.blockName v)
  | conversion {s : ShiftOperand} {b : BlockIndex} {v : Json} {e : Error}
      (hshift : Chooses ShiftOperand.name .vx (fields.get? "shift") s)
      (hblock : Chooses BlockIndex.name .keep (fields.get? "load_store") b)
      (hv : fields.get? "clock_hz" = some v) (hrate : Uncounted v e) :
      FirstRefusal fields e
  | sign {s : ShiftOperand} {b : BlockIndex} {n : Int}
      (hshift : Chooses ShiftOperand.name .vx (fields.get? "shift") s)
      (hblock : Chooses BlockIndex.name .keep (fields.get? "load_store") b)
      (hrate : GivesRate (fields.get? "clock_hz") n) (hn : n < 1) :
      FirstRefusal fields (.rateNonpositive (.whole n))

variable {fields : Json.Fields} {field : Option Json} {c : Config} {e : Error} {v : Json} {n : Int}

/-! ## Choices -/

section Choices

variable {α : Type} {name : α → String} {standard a : α} {ofName? : Text → Option α}
  {refusal : Json → Error}

/-- The choice that a field makes. -/
def choiceOfField (ofName? : Text → Option α) (standard : α) (refusal : Json → Error) :
    Option Json → Except Error α
  | none => .ok standard
  | some (.str t) => ((ofName? t).map Except.ok).getD (.error (refusal (.str t)))
  | some v => .error (refusal v)

theorem exists_chooses_or_not (name : α → String) (standard : α) (field : Option Json) :
    (∃ a, Chooses name standard field a) ∨
      ∃ v, field = some v ∧ ∀ a, ¬Chooses name standard (some v) a := by
  cases field with
  | none => exact .inl ⟨standard, .absent⟩
  | some v =>
    by_cases h : ∃ a, Chooses name standard (some v) a
    · exact .inl h
    · exact .inr ⟨v, rfl, not_exists.1 h⟩

theorem choiceOfField_of_chooses (hname : ∀ t a, ofName? t = some a ↔ t = name a)
    (h : Chooses name standard field a) :
    choiceOfField ofName? standard refusal field = .ok a := by
  rcases h with _ | _
  · rfl
  · rw [choiceOfField, (hname _ a).2 rfl]
    rfl

/-- A field that is there and makes no choice is refused. -/
theorem choiceOfField_of_not_chooses (hname : ∀ t a, ofName? t = some a ↔ t = name a)
    (hv : ∀ a, ¬Chooses name standard (some v) a) :
    choiceOfField ofName? standard refusal (some v) = .error (refusal v) := by
  cases v with
  | str t =>
    rw [choiceOfField]
    cases ht : ofName? t with
    | none => rfl
    | some a =>
      rw [(hname t a).1 ht] at hv
      exact absurd (.named a) (hv a)
  | _ => rfl

theorem choiceOfField_eq_ok_iff (hname : ∀ t a, ofName? t = some a ↔ t = name a) :
    choiceOfField ofName? standard refusal field = .ok a ↔ Chooses name standard field a := by
  constructor
  · intro h
    rcases exists_chooses_or_not name standard field with ⟨b, hb⟩ | ⟨v, rfl, hv⟩
    · cases h.symm.trans (choiceOfField_of_chooses hname hb)
      exact hb
    · cases h.symm.trans (choiceOfField_of_not_chooses hname hv)
  · exact choiceOfField_of_chooses hname

end Choices

theorem shiftOfField_eq (field : Option Json) :
    shiftOfField field = choiceOfField ShiftOperand.ofName? .vx .shiftName field := by
  rcases field with _ | v
  · rfl
  · cases v with
    | str t =>
      rw [shiftOfField, choiceOfField]
      cases ShiftOperand.ofName? t <;> rfl
    | _ => rfl

theorem blockOfField_eq (field : Option Json) :
    blockOfField field = choiceOfField BlockIndex.ofName? .keep .blockName field := by
  rcases field with _ | v
  · rfl
  · cases v with
    | str t =>
      rw [blockOfField, choiceOfField]
      cases BlockIndex.ofName? t <;> rfl
    | _ => rfl

theorem shiftOfField_eq_ok_iff {s : ShiftOperand} :
    shiftOfField field = .ok s ↔ Chooses ShiftOperand.name .vx field s := by
  rw [shiftOfField_eq]
  exact choiceOfField_eq_ok_iff fun _ _ => ShiftOperand.ofName?_eq_some_iff

theorem blockOfField_eq_ok_iff {b : BlockIndex} :
    blockOfField field = .ok b ↔ Chooses BlockIndex.name .keep field b := by
  rw [blockOfField_eq]
  exact choiceOfField_eq_ok_iff fun _ _ => BlockIndex.ofName?_eq_some_iff

theorem shiftOfField_of_not_chooses (hv : ∀ s, ¬Chooses ShiftOperand.name .vx (some v) s) :
    shiftOfField (some v) = .error (.shiftName v) := by
  rw [shiftOfField_eq]
  exact choiceOfField_of_not_chooses (fun _ _ => ShiftOperand.ofName?_eq_some_iff) hv

theorem blockOfField_of_not_chooses (hv : ∀ b, ¬Chooses BlockIndex.name .keep (some v) b) :
    blockOfField (some v) = .error (.blockName v) := by
  rw [blockOfField_eq]
  exact choiceOfField_of_not_chooses (fun _ _ => BlockIndex.ofName?_eq_some_iff) hv

/-! ## Rates -/

/-- A value counts as an integer, or there is a reason why it does not. -/
theorem counts_or_uncounted (v : Json) : (∃ n, Counts v n) ∨ ∃ e, Uncounted v e := by
  cases v with
  | null => exact .inr ⟨_, .null⟩
  | bool b => exact .inl ⟨_, .flag b⟩
  | int n => exact .inl ⟨n, .whole n⟩
  | real x =>
    cases x with
    | nan => exact .inr ⟨_, .notANumber⟩
    | infinite negative => exact .inr ⟨_, .infinite negative⟩
    | finite negative m e => exact .inl ⟨_, .real negative (Binary64.wholePart_eq_iff.1 rfl)⟩
  | str t =>
    cases h : Numeral.read t with
    | ok n => exact .inl ⟨n, .numeral h⟩
    | error why =>
      cases why with
      | malformed => exact .inr ⟨_, .malformed h⟩
      | tooLong digits => exact .inr ⟨_, .tooLong h⟩
  | arr items => exact .inr ⟨_, .list items⟩
  | obj fields => exact .inr ⟨_, .object fields⟩

theorem rateOfField_of_counts (h : Counts v n) : rateOfField (some v) = .ok n := by
  cases h with
  | whole n => rfl
  | flag b => rfl
  | real negative h =>
    have hx := Binary64.wholePart_eq_iff.2 h
    rw [rateOfField, Binary64.truncate?, hx]
    intro hnan
    cases hnan
  | numeral h => rw [rateOfField, h]

theorem rateOfField_of_uncounted (h : Uncounted v e) : rateOfField (some v) = .error e := by
  cases h with
  | malformed h => rw [rateOfField, h]
  | tooLong h => rw [rateOfField, h]
  | _ => rfl

theorem rateOfField_eq_ok_iff : rateOfField field = .ok n ↔ GivesRate field n := by
  constructor
  · intro h
    cases field with
    | none =>
      cases h
      exact .absent
    | some v =>
      rcases counts_or_uncounted v with ⟨k, hk⟩ | ⟨e, he⟩
      · cases h.symm.trans (rateOfField_of_counts hk)
        exact .counted hk
      · cases h.symm.trans (rateOfField_of_uncounted he)
  · rintro (_ | h)
    · rfl
    · exact rateOfField_of_counts h

theorem exists_givesRate_or_not (field : Option Json) :
    (∃ n, GivesRate field n) ∨ ∃ v e, field = some v ∧ Uncounted v e := by
  cases field with
  | none => exact .inl ⟨700, .absent⟩
  | some v =>
    rcases counts_or_uncounted v with ⟨n, hn⟩ | ⟨e, he⟩
    · exact .inl ⟨n, .counted hn⟩
    · exact .inr ⟨v, e, rfl, he⟩

/-! ## Objects -/

theorem ofFields_eq_ok_iff_describes : ofFields fields = .ok c ↔ Describes fields c := by
  rw [ofFields_eq_ok_iff]
  constructor
  · rintro ⟨n, hshift, hblock, hrate, hn, hc⟩
    exact ⟨shiftOfField_eq_ok_iff.1 hshift, blockOfField_eq_ok_iff.1 hblock, n,
      rateOfField_eq_ok_iff.1 hrate, hn, hc⟩
  · rintro ⟨hshift, hblock, n, hrate, hn, hc⟩
    exact ⟨n, shiftOfField_eq_ok_iff.2 hshift, blockOfField_eq_ok_iff.2 hblock,
      rateOfField_eq_ok_iff.2 hrate, hn, hc⟩

theorem checked_whole_of_lt (s : ShiftOperand) (b : BlockIndex) (h : n < 1) :
    checked s b (.whole n) = .error (.rateNonpositive (.whole n)) := by
  have hn : Rate.isNonpositive (.whole n) = true := decide_eq_true (by omega)
  rw [checked, if_pos hn]

/-- The first reason is the one that is told. -/
theorem ofFields_of_firstRefusal (h : FirstRefusal fields e) : ofFields fields = .error e := by
  unfold ofFields
  cases h with
  | shift hv hshift =>
    rw [hv, shiftOfField_of_not_chooses hshift]
    rfl
  | block hshift hv hblock =>
    rw [shiftOfField_eq_ok_iff.2 hshift, hv, blockOfField_of_not_chooses hblock]
    rfl
  | conversion hshift hblock hv hrate =>
    rw [shiftOfField_eq_ok_iff.2 hshift, blockOfField_eq_ok_iff.2 hblock, hv,
      rateOfField_of_uncounted hrate]
    rfl
  | sign hshift hblock hrate hn =>
    rw [shiftOfField_eq_ok_iff.2 hshift, blockOfField_eq_ok_iff.2 hblock,
      rateOfField_eq_ok_iff.2 hrate]
    exact checked_whole_of_lt _ _ hn

/-- Some fields describe a configuration, or there is a first reason why they do not. -/
theorem describes_or_firstRefusal (fields : Json.Fields) :
    (∃ c, Describes fields c) ∨ ∃ e, FirstRefusal fields e := by
  rcases exists_chooses_or_not ShiftOperand.name .vx (fields.get? "shift") with
    ⟨s, hshift⟩ | ⟨v, hv, hshift⟩
  · rcases exists_chooses_or_not BlockIndex.name .keep (fields.get? "load_store") with
      ⟨b, hblock⟩ | ⟨v, hv, hblock⟩
    · rcases exists_givesRate_or_not (fields.get? "clock_hz") with ⟨n, hrate⟩ | ⟨v, e, hv, he⟩
      · rcases Int.lt_or_le n 1 with hn | hn
        · exact .inr ⟨_, .sign hshift hblock hrate hn⟩
        · exact .inl ⟨⟨s, b, .whole n⟩, hshift, hblock, n, hrate, hn, rfl⟩
      · exact .inr ⟨e, .conversion hshift hblock hv he⟩
    · exact .inr ⟨_, .block hshift hv hblock⟩
  · exact .inr ⟨_, .shift hv hshift⟩

theorem ofFields_eq_error_iff : ofFields fields = .error e ↔ FirstRefusal fields e := by
  constructor
  · intro h
    rcases describes_or_firstRefusal fields with ⟨c, hc⟩ | ⟨first, hfirst⟩
    · cases h.symm.trans (ofFields_eq_ok_iff_describes.2 hc)
    · cases h.symm.trans (ofFields_of_firstRefusal hfirst)
      exact hfirst
  · exact ofFields_of_firstRefusal

theorem ofFields_congr {others : Json.Fields} (hshift : others.get? "shift" = fields.get? "shift")
    (hblock : others.get? "load_store" = fields.get? "load_store")
    (hrate : others.get? "clock_hz" = fields.get? "clock_hz") :
    ofFields others = ofFields fields := by
  rw [ofFields, hshift, hblock, hrate, ofFields]

/-- A configuration is made of exactly the objects that describe it, and of any other object the
first reason why it describes none is told. Objects that have the same in the three fields are not
told apart. -/
theorem described_or_first_refusal (fields : Json.Fields) :
    (∀ c, ofJson (.obj fields) = .ok c ↔ Describes fields c) ∧
    (∀ e, ofJson (.obj fields) = .error e ↔ FirstRefusal fields e) ∧
    ∀ others : Json.Fields, others.get? "shift" = fields.get? "shift" →
      others.get? "load_store" = fields.get? "load_store" →
      others.get? "clock_hz" = fields.get? "clock_hz" →
      ofJson (.obj others) = ofJson (.obj fields) := by
  refine ⟨?_, ?_, ?_⟩
  · intro c
    exact ofFields_eq_ok_iff_describes
  · intro e
    exact ofFields_eq_error_iff
  · intro others hshift hblock hrate
    exact ofFields_congr hshift hblock hrate

/-- Half a step a second, and no block choice in the field for it. -/
def describedBadly : Json.Fields :=
  [("clock_hz", .real (.finite false 4503599627370496 (-53))), ("load_store", .null)]

theorem first_of_two_refusals :
    ofJson (.obj describedBadly) = .error (.blockName .null) ∧
    ofJson (.obj (describedBadly.put "load_store" (.str "keep_index"))) =
      .error (.rateNonpositive (.whole 0)) ∧
    ofJson (.obj (describedBadly.put "note" (.str "vz"))) = ofJson (.obj describedBadly) := by
  obtain ⟨-, hrefused, hsame⟩ := described_or_first_refusal describedBadly
  obtain ⟨-, hmended, -⟩ :=
    described_or_first_refusal (describedBadly.put "load_store" (.str "keep_index"))
  have hnull (b : BlockIndex) : ¬Chooses BlockIndex.name .keep (some .null) b := by
    intro h
    cases h
  have hzero : Binary64.IsWholePart 4503599627370496 (-53) 0 := by decide
  refine ⟨(hrefused _).2 (.block .absent rfl hnull), (hmended _).2 ?_, hsame _ rfl rfl rfl⟩
  exact .sign .absent (.named BlockIndex.keep) (.counted (.real false hzero)) (by decide)

/-! ## Picks -/

/-- Arguments make a configuration if each of the three does, with a rate that is not refused. -/
theorem ofArguments_eq_ok_iff {shift block : Option Argument} {rate : Option Json} :
    ofArguments shift block rate = .ok c ↔
      shiftOfArgument shift = .ok c.shift ∧ blockOfArgument block = .ok c.block ∧
        rateOfArgument rate = .ok c.rate ∧ c.rate.isNonpositive = false := by
  unfold ofArguments
  simp only [bind_eq_ok_iff, checked_eq_ok_iff]
  constructor
  · rintro ⟨shift, hshift, block, hblock, rate, hrate, hpos, rfl⟩
    exact ⟨hshift, hblock, hrate, hpos⟩
  · rintro ⟨hshift, hblock, hrate, hpos⟩
    exact ⟨c.shift, hshift, c.block, hblock, c.rate, hrate, hpos, rfl⟩

theorem rateOfArgument_toJson (r : Rate) : rateOfArgument (some r.toJson) = .ok r := by
  cases r <;> rfl

theorem rate_profile (name : Text) : (profile name).rate = .standard := by
  unfold profile
  split
  · rename_i p hfind
    have hmem := List.mem_of_find?_eq_some hfind
    simp only [profiles, List.mem_cons, List.not_mem_nil, or_false] at hmem
    rcases hmem with rfl | rfl | rfl <;> rfl
  · rfl

/-- A host can pick exactly the configurations whose rate is not refused. -/
theorem exists_pick_iff :
    (∃ choice : Choice, choice.pick = .ok c) ↔ c.rate.isNonpositive = false := by
  constructor
  · rintro ⟨choice, h⟩
    cases choice with
    | profile name =>
      cases h
      rw [rate_profile]
      rfl
    | described data =>
      obtain ⟨n, hc, hn⟩ := rate_of_ofJson h
      rw [hc]
      exact decide_eq_false (by omega)
    | arguments shift block rate =>
      obtain ⟨-, -, -, hpos⟩ := ofArguments_eq_ok_iff.1 h
      exact hpos
  · intro hpos
    exact ⟨.arguments (some (.shift c.shift)) (some (.block c.block)) (some c.rate.toJson),
      ofArguments_eq_ok_iff.2 ⟨rfl, rfl, rateOfArgument_toJson c.rate, hpos⟩⟩

/-- The rate of the configuration with which a machine is made is not refused. -/
theorem rate_of_picked {choice : Option Choice} {made : Option Config}
    (h : picked choice = .ok made) : (made.getD {}).rate.isNonpositive = false := by
  cases choice with
  | none =>
    cases h
    rfl
  | some choice =>
    rw [picked] at h
    cases hpick : choice.pick with
    | error e =>
      rw [hpick] at h
      cases h
    | ok c =>
      rw [hpick] at h
      cases h
      exact exists_pick_iff.1 ⟨choice, hpick⟩

end Config

end ChipVm
