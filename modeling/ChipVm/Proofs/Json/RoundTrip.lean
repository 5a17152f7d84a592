/-
What is written as JSON is read back, in every layout: a value without reals whose integers have no
more digits than a numeral may have, whose objects name each field once, and whose texts are read
back. The proof follows the value; a value is read from the front of any text before which a number
ends, with fuel for as many characters as it is written with.
-/
import ChipVm.Proofs.Json.Tokens

namespace ChipVm.Json

/-! ## Values that are read back -/

mutual

/-- Whether a value is read back as it is. Nothing is said of reals. -/
def ReadBack : Json → Prop
  | .null => True
  | .bool _ => True
  | .int n => (Digits.toBase 10 n.natAbs).length ≤ Numeral.maxDigits
  | .real _ => False
  | .str t => t.Unpaired
  | .arr items => ItemsReadBack items
  | .obj fields => (fields.map Prod.fst).Nodup ∧ FieldsReadBack fields

/-- Whether the elements of an array are read back. -/
def ItemsReadBack : List Json → Prop
  | [] => True
  | v :: vs => ReadBack v ∧ ItemsReadBack vs

/-- Whether the names and the values of some fields are read back. -/
def FieldsReadBack : Fields → Prop
  | [] => True
  | (name, v) :: fields => name.Unpaired ∧ ReadBack v ∧ FieldsReadBack fields

end

/-! ## The first character of a value -/

variable {rest : List Char}

theorem decimalChars_head (n : Int) :
    ∃ c cs, isDigit c = true ∧
      (Digits.decimalChars n = c :: cs ∨ Digits.decimalChars n = '-' :: c :: cs) := by
  cases hd : (Digits.toBase 10 n.natAbs).map Digits.lower with
  | nil => exact absurd (List.map_eq_nil_iff.1 hd) (Digits.toBase_ne_nil 10 n.natAbs)
  | cons c cs =>
    refine ⟨c, cs, isDigit_of_mem (hd ▸ List.mem_cons_self), ?_⟩
    rw [Digits.decimalChars, hd]
    split
    · exact .inr rfl
    · exact .inl rfl

theorem isSpace_of_isDigit {c : Char} (hc : isDigit c = true) : isSpace c = false ∧ c ≠ ']' := by
  refine ⟨Bool.eq_false_iff.2 fun hs => ?_, ?_⟩
  · simp only [isSpace, Bool.or_eq_true, beq_iff_eq] at hs
    obtain ((rfl | rfl) | rfl) | rfl := hs <;> exact absurd hc (by decide)
  · rintro rfl
    exact absurd hc (by decide)

/-- A value begins with no blank and with no closing bracket. -/
theorem chars_head (l : Layout) (depth : Nat) {v : Json} (h : v.ReadBack) :
    ∃ c cs, chars l depth v = c :: cs ∧ isSpace c = false ∧ c ≠ ']' := by
  cases v with
  | null => exact ⟨_, _, rfl, rfl, by decide⟩
  | bool b => cases b <;> exact ⟨_, _, rfl, rfl, by decide⟩
  | int n =>
    obtain ⟨c, cs, hc, hn | hn⟩ := decimalChars_head n
    · exact ⟨c, cs, hn, isSpace_of_isDigit hc⟩
    · exact ⟨'-', c :: cs, hn, rfl, by decide⟩
  | real x => exact absurd h not_false
  | str t => exact ⟨_, _, rfl, rfl, by decide⟩
  | arr items => cases items <;> exact ⟨_, _, rfl, rfl, by decide⟩
  | obj fields =>
    match fields with
    | [] => exact ⟨_, _, rfl, rfl, by decide⟩
    | (name, v) :: fields => exact ⟨_, _, rfl, rfl, by decide⟩

/-! ## Scalars -/

theorem value_of_isDigit {c : Char} (hc : isDigit c = true) (fuel : Nat) (cs : List Char) :
    value (fuel + 1) (c :: cs) = number (c :: cs) ∧
      value (fuel + 1) ('-' :: c :: cs) = number ('-' :: c :: cs) := by
  constructor
  · unfold value
    split
    -- No other value begins with a digit.
    case h_10 => rfl
    all_goals
      rename_i heq
      obtain ⟨rfl, -⟩ := List.cons.inj heq
      exact absurd hc (by decide)
  · unfold value
    split
    case h_10 => rfl
    case h_9 =>
      rename_i heq
      obtain ⟨rfl, -⟩ := List.cons.inj (List.cons.inj heq).2
      exact absurd hc (by decide)
    all_goals
      rename_i heq
      exact absurd (List.cons.inj heq).1 (by decide)

theorem value_decimalChars {n : Int} (h : (Json.int n).ReadBack) (fuel : Nat) (hrest : Stops rest) :
    value (fuel + 1) (Digits.decimalChars n ++ rest) = .ok (.int n, rest) := by
  have hvalue : value (fuel + 1) (Digits.decimalChars n ++ rest) =
      number (Digits.decimalChars n ++ rest) := by
    obtain ⟨c, cs, hc, hn | hn⟩ := decimalChars_head n
    · rw [hn]
      exact (value_of_isDigit hc fuel (cs ++ rest)).1
    · rw [hn]
      exact (value_of_isDigit hc fuel (cs ++ rest)).2
  rw [hvalue, number_decimalChars h hrest]

theorem skipSpace_stringChars (t : Text) (rest : List Char) :
    skipSpace (stringChars t ++ rest) = stringChars t ++ rest := by
  rw [stringChars, List.cons_append, List.cons_append]
  exact skipSpace_cons rfl _

theorem value_stringChars {t : Text} (h : t.Unpaired) (fuel : Nat) (rest : List Char) :
    value (fuel + 1) (stringChars t ++ rest) = .ok (.str t, rest) := by
  rw [stringChars, List.cons_append, List.cons_append, List.append_assoc, List.singleton_append,
    value, string_flatMap h]

/-! ## Arrays and objects -/

/-- What the reading of an array or an object needs of each value in it. -/
structure Reads (l : Layout) (v : Json) : Prop where
  head : ∀ depth, ∃ c cs, chars l depth v = c :: cs ∧ isSpace c = false ∧ c ≠ ']'
  value : ∀ depth fuel rest, Stops rest → (chars l depth v).length ≤ fuel →
    value fuel (chars l depth v ++ rest) = .ok (v, rest)

variable {l : Layout} {v : Json}

theorem Reads.skipSpace_chars (h : Reads l v) (depth : Nat) (rest : List Char) :
    skipSpace (chars l depth v ++ rest) = chars l depth v ++ rest := by
  obtain ⟨c, cs, hchars, hspace, -⟩ := h.head depth
  rw [hchars, List.cons_append, skipSpace_cons hspace]

theorem Reads.length_pos (h : Reads l v) (depth : Nat) : 0 < (chars l depth v).length := by
  obtain ⟨c, cs, hchars, -⟩ := h.head depth
  rw [hchars]
  exact Nat.succ_pos _

theorem stops_breakAt (l : Layout) (depth : Nat) {c : Char} {cs : List Char}
    (h : Stops (c :: cs)) : Stops (l.breakAt depth ++ c :: cs) := by
  cases l with
  | line => exact h
  | indented width => exact ⟨rfl, by decide, by decide, by decide⟩

theorem stops_comma (cs : List Char) : Stops (',' :: cs) :=
  ⟨rfl, by decide, by decide, by decide⟩

theorem stops_close (l : Layout) (depth : Nat) {c : Char} (hc : c = ']' ∨ c = '\x7d')
    (rest : List Char) : Stops (l.breakAt depth ++ c :: rest) := by
  refine stops_breakAt l depth ?_
  rcases hc with rfl | rfl <;> exact ⟨rfl, by decide, by decide, by decide⟩

theorem elements_chars {vs : List Json} (hv : Reads l v) (hvs : ∀ w ∈ vs, Reads l w)
    (depth last fuel : Nat) (before : List Json) (rest : List Char)
    (hfuel : (chars l depth v ++ elementChars l depth vs).length < fuel) :
    elements fuel before
        (chars l depth v ++ (elementChars l depth vs ++ (l.breakAt last ++ ']' :: rest))) =
      .ok (.arr (before.reverse ++ v :: vs), rest) := by
  induction vs generalizing v fuel before with
  | nil =>
    obtain ⟨fuel, rfl⟩ : ∃ k, fuel = k + 1 := ⟨fuel - 1, by omega⟩
    rw [elementChars, List.append_nil] at hfuel
    rw [elementChars, List.nil_append, elements,
      hv.value depth fuel _ (stops_close l last (.inl rfl) rest) (Nat.le_of_lt_succ hfuel)]
    simp only [skipSpace_breakAt, skipSpace_cons (c := ']') rfl, List.reverse_cons]
  | cons w vs ih =>
    obtain ⟨fuel, rfl⟩ : ∃ k, fuel = k + 1 := ⟨fuel - 1, by omega⟩
    have hw := hvs w List.mem_cons_self
    have hpos := hv.length_pos depth
    simp only [elementChars, List.length_append, List.length_cons] at hfuel
    simp only [elementChars, List.cons_append, List.append_assoc]
    rw [elements, hv.value depth fuel _ (stops_comma _) (by omega)]
    simp only [skipSpace_cons (c := ',') rfl, skipSpace_breakAt, hw.skipSpace_chars]
    rw [ih hw (fun u hu => hvs u (List.mem_cons_of_mem w hu)) fuel (v :: before)
      (by rw [List.length_append]; omega)]
    simp

theorem Fields.notMem_of_nodup {before fields : Fields} {name : Text}
    (h : ((before ++ (name, v) :: fields).map Prod.fst).Nodup) : name ∉ before.map Prod.fst := by
  rw [List.map_append, List.nodup_append] at h
  exact fun hmem => h.2.2 name hmem name List.mem_cons_self rfl

theorem Fields.put_of_notMem {fields : Fields} {name : Text} (h : name ∉ fields.map Prod.fst)
    (value : Json) : fields.put name value = fields ++ [(name, value)] := by
  induction fields with
  | nil => rfl
  | cons f fields ih =>
    rw [List.map_cons, List.mem_cons, not_or] at h
    rw [Fields.put, if_neg fun heq => h.1 heq.symm, ih h.2]
    rfl

/-- The reading of one field: another one follows after a comma, none after the closing brace. -/
theorem members_field {name : Text} (hname : name.Unpaired) (hv : Reads l v) {depth fuel : Nat}
    (hfuel : (chars l depth v).length ≤ fuel) {before : Fields}
    (hfresh : name ∉ before.map Prod.fst) {cs : List Char} (hcs : Stops cs) :
    (∀ rest, skipSpace cs = ',' :: rest →
      members (fuel + 1) before (stringChars name ++ (l.colon ++ (chars l depth v ++ cs))) =
        members fuel (before ++ [(name, v)]) (skipSpace rest)) ∧
    ∀ rest, skipSpace cs = '\x7d' :: rest →
      members (fuel + 1) before (stringChars name ++ (l.colon ++ (chars l depth v ++ cs))) =
        .ok (.obj (before ++ [(name, v)]), rest) := by
  obtain ⟨ds, hcolon, hds⟩ := skipSpace_colon l (chars l depth v ++ cs)
  rw [stringChars, List.cons_append, List.cons_append, List.append_assoc, List.singleton_append,
    members, string_flatMap hname]
  simp only [hcolon, hds, hv.skipSpace_chars, hv.value depth fuel cs hcs hfuel,
    Fields.put_of_notMem hfresh]
  constructor
  · intro rest hrest
    simp only [hrest]
  · intro rest hrest
    simp only [hrest]

theorem members_chars {name : Text} {fields : Fields} (hname : name.Unpaired) (hv : Reads l v)
    (hfields : ∀ f ∈ fields, f.1.Unpaired ∧ Reads l f.2) (depth last fuel : Nat) (before : Fields)
    (hnames : ((before ++ (name, v) :: fields).map Prod.fst).Nodup) (rest : List Char)
    (hfuel : (chars l depth v ++ fieldChars l depth fields).length < fuel) :
    members fuel before (stringChars name ++ (l.colon ++ (chars l depth v ++
        (fieldChars l depth fields ++ (l.breakAt last ++ '\x7d' :: rest))))) =
      .ok (.obj (before ++ (name, v) :: fields), rest) := by
  induction fields generalizing name v fuel before with
  | nil =>
    obtain ⟨fuel, rfl⟩ : ∃ k, fuel = k + 1 := ⟨fuel - 1, by omega⟩
    have hfresh := Fields.notMem_of_nodup hnames
    rw [fieldChars, List.append_nil] at hfuel
    rw [fieldChars, List.nil_append]
    refine (members_field hname hv (Nat.le_of_lt_succ hfuel) hfresh
      (stops_close l last (.inr rfl) rest)).2 rest ?_
    rw [skipSpace_breakAt, skipSpace_cons rfl]
  | cons f fields ih =>
    obtain ⟨other, w⟩ := f
    obtain ⟨fuel, rfl⟩ : ∃ k, fuel = k + 1 := ⟨fuel - 1, by omega⟩
    have hfresh := Fields.notMem_of_nodup hnames
    obtain ⟨hother, hw⟩ : other.Unpaired ∧ Reads l w := hfields (other, w) List.mem_cons_self
    have hpos := hv.length_pos depth
    simp only [fieldChars, List.length_append, List.length_cons] at hfuel
    simp only [fieldChars, List.cons_append, List.append_assoc]
    rw [(members_field hname hv (by omega) hfresh (stops_comma _)).1 _ (skipSpace_cons rfl _),
      skipSpace_breakAt, skipSpace_stringChars,
      ih hother hw (fun g hg => hfields g (List.mem_cons_of_mem _ hg)) fuel
        (before ++ [(name, v)]) (by simpa using hnames) (by rw [List.length_append]; omega)]
    simp

/-! ## All values -/

theorem reads_arr {items : List Json} (h : ∀ v ∈ items, Reads l v) (depth fuel : Nat)
    (rest : List Char) (hfuel : (chars l depth (.arr items)).length ≤ fuel) :
    value fuel (chars l depth (.arr items) ++ rest) = .ok (.arr items, rest) := by
  cases items with
  | nil =>
    obtain ⟨fuel, rfl⟩ : ∃ k, fuel = k + 1 := ⟨fuel - 1, by simp [chars] at hfuel; omega⟩
    rfl
  | cons v vs =>
    have hv := h v List.mem_cons_self
    simp only [chars, List.length_cons, List.length_append] at hfuel
    obtain ⟨fuel, rfl⟩ : ∃ k, fuel = k + 1 := ⟨fuel - 1, by omega⟩
    simp only [chars, List.cons_append, List.append_assoc, List.nil_append]
    rw [value]
    simp only [skipSpace_breakAt, hv.skipSpace_chars]
    split
    · -- The array is not empty, as its first element does not begin with the bracket.
      rename_i ds hds
      obtain ⟨c, cs, hchars, -, hc⟩ := hv.head (depth + 1)
      rw [hchars, List.cons_append] at hds
      exact absurd (List.cons.inj hds).1 hc
    · exact elements_chars hv (fun w hw => h w (List.mem_cons_of_mem v hw)) (depth + 1) depth fuel []
        rest (by rw [List.length_append]; omega)

theorem reads_obj {fields : Fields} (hnames : (fields.map Prod.fst).Nodup)
    (h : ∀ f ∈ fields, f.1.Unpaired ∧ Reads l f.2) (depth fuel : Nat) (rest : List Char)
    (hfuel : (chars l depth (.obj fields)).length ≤ fuel) :
    value fuel (chars l depth (.obj fields) ++ rest) = .ok (.obj fields, rest) := by
  match fields with
  | [] =>
    obtain ⟨fuel, rfl⟩ : ∃ k, fuel = k + 1 := ⟨fuel - 1, by simp [chars] at hfuel; omega⟩
    rfl
  | (name, v) :: fields =>
    obtain ⟨hname, hv⟩ : name.Unpaired ∧ Reads l v := h (name, v) List.mem_cons_self
    simp only [chars, List.length_cons, List.length_append] at hfuel
    obtain ⟨fuel, rfl⟩ : ∃ k, fuel = k + 1 := ⟨fuel - 1, by omega⟩
    simp only [chars, List.cons_append, List.append_assoc, List.nil_append]
    rw [value]
    simp only [skipSpace_breakAt, skipSpace_stringChars]
    exact members_chars hname hv (fun f hf => h f (List.mem_cons_of_mem _ hf)) (depth + 1) depth
      fuel [] hnames rest (by rw [List.length_append]; omega)

/-- A value is read with any fuel that is enough for its characters if it is read with any but
none. -/
theorem Reads.of_succ (h : v.ReadBack) (hvalue : ∀ depth fuel rest, Stops rest →
    Json.value (fuel + 1) (chars l depth v ++ rest) = .ok (v, rest)) : Reads l v := by
  refine ⟨fun depth => chars_head l depth h, fun depth fuel rest hrest hfuel => ?_⟩
  obtain ⟨c, cs, hchars, -⟩ := chars_head l depth h
  rw [hchars, List.length_cons] at hfuel
  obtain ⟨fuel, rfl⟩ : ∃ k, fuel = k + 1 := ⟨fuel - 1, by omega⟩
  exact hvalue depth fuel rest hrest

mutual

theorem ReadBack.reads (l : Layout) : ∀ v : Json, v.ReadBack → Reads l v
  | .null, h => .of_succ h fun _ _ _ _ => rfl
  | .bool true, h => .of_succ h fun _ _ _ _ => rfl
  | .bool false, h => .of_succ h fun _ _ _ _ => rfl
  | .int _, h => .of_succ h fun _ fuel _ hrest => value_decimalChars h fuel hrest
  | .str _, h => .of_succ h fun _ fuel rest _ => value_stringChars h fuel rest
  | .arr items, h =>
    ⟨fun depth => chars_head l depth h, fun depth fuel rest _ hfuel =>
      reads_arr (ItemsReadBack.reads l items h) depth fuel rest hfuel⟩
  | .obj fields, h =>
    ⟨fun depth => chars_head l depth h, fun depth fuel rest _ hfuel =>
      reads_obj h.1 (FieldsReadBack.reads l fields h.2) depth fuel rest hfuel⟩

theorem ItemsReadBack.reads (l : Layout) :
    ∀ items : List Json, ItemsReadBack items → ∀ v ∈ items, Reads l v
  | [], _, _, hv => nomatch hv
  | v :: _, h, _, .head _ => ReadBack.reads l v h.1
  | _ :: vs, h, w, .tail _ hw => ItemsReadBack.reads l vs h.2 w hw

theorem FieldsReadBack.reads (l : Layout) :
    ∀ fields : Fields, FieldsReadBack fields → ∀ f ∈ fields, f.1.Unpaired ∧ Reads l f.2
  | [], _, _, hf => nomatch hf
  | (_, v) :: _, h, _, .head _ => ⟨h.1, ReadBack.reads l v h.2.1⟩
  | _ :: fields, h, f, .tail _ hf => FieldsReadBack.reads l fields h.2.2 f hf

end

/-- A text that a value is written as is read as that value. -/
theorem read_write (l : Layout) {v : Json} (h : v.ReadBack) :
    Json.read (v.write l).toList = .ok v := by
  have hv := h.reads l v
  rw [write, String.toList_ofList, Json.read]
  have hskip : skipSpace (chars l 0 v) = chars l 0 v := by
    simpa using hv.skipSpace_chars 0 []
  have hvalue := hv.value 0 ((chars l 0 v).length + 1) [] trivial (Nat.le_succ _)
  rw [List.append_nil] at hvalue
  rw [hskip, hvalue]
  rfl

end ChipVm.Json
