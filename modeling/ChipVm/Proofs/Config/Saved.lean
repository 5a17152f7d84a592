/-
A configuration that is saved is loaded as it was. Its names stand in the file as their texts and
its rate as an integer, which is read back if it has no more digits than a numeral may have; which
fields a configuration was made from does not matter, as its rate is an integer whatever gave it.
-/
import ChipVm.Config.File
import ChipVm.Proofs.Json.RoundTrip

namespace ChipVm

theorem ShiftOperand.ofName?_name (s : ShiftOperand) : ofName? (s.name : Text) = some s := by
  cases s <;> rfl

theorem BlockIndex.ofName?_name (b : BlockIndex) : ofName? (b.name : Text) = some b := by
  cases b <;> rfl

namespace Config

variable {c : Config} {n : Int}

/-! ## The object of a configuration -/

theorem get?_toFields (c : Config) :
    c.toFields.get? "shift" = some (.str c.shift.name) ∧
      c.toFields.get? "load_store" = some (.str c.block.name) ∧
      c.toFields.get? "clock_hz" = some c.rate.toJson :=
  ⟨rfl, rfl, rfl⟩

theorem readBack_toJson (h : c.rate.toJson.ReadBack) : c.toJson.ReadBack := by
  refine ⟨?_, Text.unpaired_ofString _, Text.unpaired_ofString _, Text.unpaired_ofString _,
    Text.unpaired_ofString _, Text.unpaired_ofString _, h, trivial⟩
  simp only [toFields, List.map_cons, List.map_nil]
  decide

theorem checked_eq_ok_iff {shift : ShiftOperand} {block : BlockIndex} {rate : Rate} :
    checked shift block rate = .ok c ↔ rate.isNonpositive = false ∧ c = ⟨shift, block, rate⟩ := by
  unfold checked
  cases rate.isNonpositive with
  | true => simp
  | false => simp [eq_comm]

theorem checked_whole_eq_ok_iff {shift : ShiftOperand} {block : BlockIndex} :
    checked shift block (.whole n) = .ok c ↔ 1 ≤ n ∧ c = ⟨shift, block, .whole n⟩ := by
  have hsign : Rate.isNonpositive (.whole n) = false ↔ 1 ≤ n := by
    rw [Rate.isNonpositive, decide_eq_false_iff_not]
    omega
  rw [checked_eq_ok_iff, hsign]

theorem bind_eq_ok_iff {α β : Type} {x : Except Error α} {f : α → Except Error β} {b : β} :
    (x >>= f) = .ok b ↔ ∃ a, x = .ok a ∧ f a = .ok b := by
  cases x with
  | error e => simp [bind, Except.bind]
  | ok a => simp [bind, Except.bind]

/-- Some fields make a configuration if each of the three does, with a rate above zero. -/
theorem ofFields_eq_ok_iff {fields : Json.Fields} :
    ofFields fields = .ok c ↔
      ∃ n, shiftOfField (fields.get? "shift") = .ok c.shift ∧
        blockOfField (fields.get? "load_store") = .ok c.block ∧
        rateOfField (fields.get? "clock_hz") = .ok n ∧ 1 ≤ n ∧ c.rate = .whole n := by
  unfold ofFields
  simp only [bind_eq_ok_iff, checked_whole_eq_ok_iff]
  constructor
  · rintro ⟨shift, hshift, block, hblock, n, hrate, hpos, rfl⟩
    exact ⟨n, hshift, hblock, hrate, hpos, rfl⟩
  · rintro ⟨n, hshift, hblock, hrate, hpos, hc⟩
    exact ⟨c.shift, hshift, c.block, hblock, n, hrate, hpos, by rw [← hc]⟩

/-- A configuration whose rate counts as an integer above zero is got back from its fields, with
that integer for the rate. -/
theorem ofJson_toJson (hn : rateOfField (some c.rate.toJson) = .ok n) (hpos : 1 ≤ n) :
    ofJson c.toJson = .ok { c with rate := .whole n } := by
  obtain ⟨hshift, hblock, hrate⟩ := get?_toFields c
  refine ofFields_eq_ok_iff.2 ⟨n, ?_, ?_, hrate ▸ hn, hpos, rfl⟩
  · simp only [hshift, shiftOfField, ShiftOperand.ofName?_name]
  · simp only [hblock, blockOfField, BlockIndex.ofName?_name]

/-- The rate of a configuration made from fields is an integer above zero. -/
theorem rate_of_ofJson {d : Json} (h : ofJson d = .ok c) : ∃ n, c.rate = .whole n ∧ 1 ≤ n := by
  cases d with
  | obj fields =>
    obtain ⟨n, -, -, -, hpos, hrate⟩ := ofFields_eq_ok_iff.1 h
    exact ⟨n, hrate, hpos⟩
  | _ => cases h

/-! ## The file of a configuration -/

theorem load_toUTF8 (s : String) : load (some s.toUTF8) = ofText s.toList := by
  have hs : String.fromUTF8? s.toUTF8 = some s := dif_pos s.isValidUTF8
  rw [load, hs]

/-- Loading a saved configuration is making one from the object of it. -/
theorem load_save (h : c.rate.toJson.ReadBack) :
    load (some c.save.toUTF8) = ofJson c.toJson := by
  rw [load_toUTF8, ofText, save, Json.read_write _ (readBack_toJson h)]

/-- A configuration with an integer above zero for the rate is got back from its fields, and, as
long as that integer has no more digits than a numeral may have, from the file that it is saved to;
a truth value for the rate comes back as the one that it counts as. And whatever fields a
configuration has been made from, it has such a rate, so that it is got back from its file. -/
theorem saved_is_loaded :
    (∀ {c : Config} {n : Int}, c.rate = .whole n → 1 ≤ n →
      ofJson c.toJson = .ok c ∧
      ((Digits.toBase 10 n.natAbs).length ≤ Numeral.maxDigits →
        load (some c.save.toUTF8) = .ok c)) ∧
    (∀ {c : Config}, c.rate = .flag true →
      ofJson c.toJson = .ok { c with rate := .whole 1 } ∧
      load (some c.save.toUTF8) = .ok { c with rate := .whole 1 }) ∧
    ∀ {d : Json} {c : Config}, ofJson d = .ok c →
      ∃ n, c.rate = .whole n ∧ 1 ≤ n ∧
        ((Digits.toBase 10 n.natAbs).length ≤ Numeral.maxDigits →
          load (some c.save.toUTF8) = .ok c) := by
  have hwhole {c : Config} {n : Int} (hc : c.rate = .whole n) (hn : 1 ≤ n) :
      ofJson c.toJson = .ok c := by
    have hback : { c with rate := .whole n } = c := by rw [← hc]
    have hrate : rateOfField (some c.rate.toJson) = .ok n := by rw [hc, Rate.toJson, rateOfField]
    rw [ofJson_toJson hrate hn, hback]
  have hload {c : Config} {n : Int} (hc : c.rate = .whole n) (hn : 1 ≤ n)
      (hdigits : (Digits.toBase 10 n.natAbs).length ≤ Numeral.maxDigits) :
      load (some c.save.toUTF8) = .ok c := by
    have hread : c.rate.toJson.ReadBack := by
      rw [hc]
      exact hdigits
    rw [load_save hread, hwhole hc hn]
  refine ⟨fun hc hn => ⟨hwhole hc hn, hload hc hn⟩, fun {c} hc => ?_, fun {d c} hd => ?_⟩
  · have hrate : rateOfField (some c.rate.toJson) = .ok 1 := by
      rw [hc]
      rfl
    have hread : c.rate.toJson.ReadBack := by
      rw [hc]
      trivial
    have hback := ofJson_toJson hrate (Int.le_refl 1)
    exact ⟨hback, (load_save hread).trans hback⟩
  · obtain ⟨n, hc, hn⟩ := rate_of_ofJson hd
    exact ⟨n, hc, hn, hload hc hn⟩

/-- An object with a field of no meaning, without a block choice and with a numeral for the rate. -/
def describedLoosely : Json :=
  .obj [("note", .null), ("clock_hz", .str " +1_000 "), ("shift", .str "vy")]

theorem loosely_described_is_loaded :
    ofJson describedLoosely = .ok ⟨.vy, .keep, .whole 1000⟩ ∧
      load (some (save ⟨.vy, .keep, .whole 1000⟩).toUTF8) = .ok ⟨.vy, .keep, .whole 1000⟩ ∧
      load (some (save ⟨.vy, .keep, .flag true⟩).toUTF8) = .ok ⟨.vy, .keep, .whole 1⟩ := by
  obtain ⟨-, hflag, hmade⟩ := saved_is_loaded
  have hd : ofJson describedLoosely = .ok ⟨.vy, .keep, .whole 1000⟩ := rfl
  obtain ⟨n, hn, -, hload⟩ := hmade hd
  obtain rfl : 1000 = n := Rate.whole.inj hn
  have hdigits : (Digits.toBase 10 (1000 : Int).natAbs).length ≤ Numeral.maxDigits :=
    (Digits.length_toBase_le 3 (by decide)).trans (by decide)
  exact ⟨hd, hload hdigits, (hflag rfl).2⟩

end Config

end ChipVm
